import LayerCanvas.Point
import LayerCanvas.Id

/-!
What a painter shows besides the graph: the selection, the connection under the pointer, and the
line of a connection that is being drawn.
-/

set_option autoImplicit false
set_option relaxedAutoImplicit false

namespace LayerCanvas

/-- The state of the interaction, as far as it is painted. -/
structure Overlay where
  selected : Option NodeId := none
  hovered : Option ConnectionId := none
  /-- The two ends of the line that is being drawn, on the canvas. -/
  line : Option (Point × Point) := none
  deriving DecidableEq

end LayerCanvas
