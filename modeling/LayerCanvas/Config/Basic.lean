import LayerCanvas.Binary.Precision
import LayerCanvas.Decimal.Layout

/-!
The settings of an editor: sizes and radii on the canvas, the lengths of the two animations, and the
limits of the view. Settings are checked in a fixed order and the first bad one is reported; what
passes keeps the view and the nodes from degenerating.
-/

set_option autoImplicit false
set_option relaxedAutoImplicit false

namespace LayerCanvas

/-- The limits of zooming and panning. -/
structure ViewConfig (C : Type := Float32) where
  minScale : C
  maxScale : C
  scaleStep : C
  panSensitivity : C
  /-- The space left around the content when it is fitted, in canvas units. -/
  fitPadding : C
  /-- The part of the view that fitted content may take up. -/
  fitMargin : C
  deriving DecidableEq

/-- The settings of an editor. -/
structure EditorConfig (C : Type := Float32) (R : Type := Float) where
  nodeWidth : C
  nodeHeight : C
  creationMs : R
  deletionMs : R
  /-- How near a press must come to a dot to hit it. -/
  pointRadius : C
  /-- How near a press must come to the middle of a connection to delete it. -/
  deleteRadius : C
  view : ViewConfig C
  deriving DecidableEq

/-- Why settings were rejected. -/
inductive ConfigError (C : Type := Float32) (R : Type := Float) where
  | notPositive (field : String) (value : R)
  | scaleRange (min max : C)
  deriving DecidableEq

section

variable {C R : Type} [Scalar C] [Scalar R] [Precision C R]

/-- The usual limits of the view. -/
def ViewConfig.standard : ViewConfig C :=
  { minScale := 1 / 10
    maxScale := 3
    scaleStep := 1 / 10
    panSensitivity := 1
    fitPadding := 100
    fitMargin := 9 / 10 }

/-- The usual settings. -/
def EditorConfig.standard : EditorConfig C R :=
  { nodeWidth := 140
    nodeHeight := 86
    creationMs := 500
    deletionMs := 300
    pointRadius := 8
    deleteRadius := 8
    view := .standard }

/-- Accepts a setting that is finite and greater than zero. -/
def requirePositive (field : String) (value : R) : Except (ConfigError C R) Unit :=
  if Scalar.isPositive value then .ok () else .error (.notPositive field value)

/-- Accepts the limits of a view, or names the first bad one. -/
def ViewConfig.validate (c : ViewConfig C) : Except (ConfigError C R) Unit := do
  requirePositive "minScale" (Precision.widen c.minScale)
  requirePositive "maxScale" (Precision.widen c.maxScale)
  if c.maxScale < c.minScale then throw (.scaleRange c.minScale c.maxScale)
  requirePositive "scaleStep" (Precision.widen c.scaleStep)
  requirePositive "panSensitivity" (Precision.widen c.panSensitivity)
  requirePositive "fitMargin" (Precision.widen c.fitMargin)
  if !Scalar.isFinite c.fitPadding || decide (c.fitPadding < 0) then
    throw (.notPositive "fitPadding" (Precision.widen c.fitPadding))

/-- Accepts settings, or names the first bad one. -/
def EditorConfig.validate (c : EditorConfig C R) : Except (ConfigError C R) Unit := do
  requirePositive "nodeWidth" (Precision.widen c.nodeWidth)
  requirePositive "nodeHeight" (Precision.widen c.nodeHeight)
  requirePositive "creationMs" c.creationMs
  requirePositive "deletionMs" c.deletionMs
  requirePositive "pointRadius" (Precision.widen c.pointRadius)
  requirePositive "deleteRadius" (Precision.widen c.deleteRadius)
  c.view.validate

end

/-- The text of a rejection. -/
def ConfigError.message : ConfigError → String
  | .notPositive field value =>
    "`" ++ field ++ "` must be finite and greater than zero, got " ++ messageOfFloat value
  | .scaleRange min max =>
    "`minScale` (" ++ messageOfFloat32 min ++ ") exceeds `maxScale` (" ++
      messageOfFloat32 max ++ ")"

end LayerCanvas
