import LayerCanvas.Param.Basic

/-!
A layer of a network, apart from any place on the canvas: its type, what it is called and how it is
shown, its parameters and its shapes. A palette entry is a layer; dropping it makes a node of it.
-/

set_option autoImplicit false
set_option relaxedAutoImplicit false

namespace LayerCanvas

/-- What a layer is. -/
structure Layer (R : Type := Float) where
  type : String
  label : String
  iconName : String
  color : String
  params : Params R
  inputShape : String
  outputShape : String
  deriving DecidableEq

end LayerCanvas
