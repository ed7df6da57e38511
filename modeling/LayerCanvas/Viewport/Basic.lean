import LayerCanvas.Config.Basic
import LayerCanvas.Viewport.Bounds
import LayerCanvas.Viewport.Transform

/-!
The view of the canvas: a transform that can be zoomed, panned and fitted to the nodes, within the
configured limits. Locking freezes all of that. A pan remembers where it began, so that each
pointer position determines the offset and nothing accumulates.
-/

set_option autoImplicit false
set_option relaxedAutoImplicit false

namespace LayerCanvas

/-- The two ways to zoom. -/
inductive ZoomDirection
  | inward
  | outward
  deriving DecidableEq

/-- Where a pan began: the pointer, and the offset at that time. -/
structure PanAnchor (C : Type := Float32) where
  pointer : Point C
  offset : Point C
  deriving DecidableEq

/-- The view of the canvas. -/
structure Viewport (C : Type := Float32) where
  config : ViewConfig C
  transform : Transform C
  locked : Bool
  pan : Option (PanAnchor C)
  deriving DecidableEq

section

variable {C R : Type} [Scalar C]

/-- The scale one step further. -/
def ZoomDirection.advance (direction : ZoomDirection) (scale step : C) : C :=
  match direction with
  | .inward => scale + step
  | .outward => scale - step

namespace Viewport

/-- The view at the start: unlocked and unchanged. -/
def new (config : ViewConfig C) : Viewport C :=
  { config, transform := .identity, locked := false, pan := none }

/-- Whether a pan is under way. -/
def isPanning (v : Viewport C) : Bool := v.pan.isSome

/-- The scale kept within the limits; the upper one wins. -/
def clampScale (v : Viewport C) (scale : C) : C :=
  Scalar.smaller (Scalar.larger scale v.config.minScale) v.config.maxScale

/-- Locks or unlocks. Locking ends a pan. -/
def setLocked (v : Viewport C) (locked : Bool) : Viewport C :=
  { v with locked, pan := if locked then none else v.pan }

/-- Replaces the transform, with its scale kept within the limits. -/
def setTransform (v : Viewport C) (t : Transform C) : Viewport C :=
  if v.locked then v else { v with transform := { t with scale := v.clampScale t.scale } }

/-- One step of zooming. With a centre, the canvas point that appears there stays there. There is
no result when the view is locked or the scale stays what it was. -/
def zoom? (v : Viewport C) (direction : ZoomDirection) (center : Option (Point C)) :
    Option (Viewport C) :=
  let old := v.transform.scale
  let new := v.clampScale (direction.advance old v.config.scaleStep)
  if v.locked || new == old then none
  else
    let offset := v.transform.offset
    let offset :=
      match center with
      | none => offset
      | some c =>
        let ratio := new / old
        ⟨c.x - (c.x - offset.x) * ratio, c.y - (c.y - offset.y) * ratio⟩
    some { v with transform := ⟨offset, new⟩ }

/-- Shifts the view. -/
def panBy (v : Viewport C) (dx dy : C) : Viewport C :=
  if v.locked then v
  else
    let t := v.transform
    let s := v.config.panSensitivity
    { v with transform := { t with offset := ⟨t.offset.x + dx * s, t.offset.y + dy * s⟩ } }

/-- Goes back to the unchanged view. -/
def reset (v : Viewport C) : Viewport C :=
  if v.locked then v else { v with transform := .identity }

/-- The bounds of some nodes with the configured padding. -/
def boundsOf? (v : Viewport C) (nodes : List (Node C R)) : Option (Bounds C) :=
  Bounds.ofNodes? v.config.fitPadding nodes

/-- Centres the nodes in a view of the given size, at the largest scale that shows them all. There
is no result when the view is locked or there are no nodes. -/
def fit? (v : Viewport C) (nodes : List (Node C R)) (width height : C) : Option (Viewport C) :=
  if v.locked then none
  else
    (v.boundsOf? nodes).map fun bounds ↦
      let fitting := Scalar.smaller (width / bounds.width) (height / bounds.height)
      let scale := v.clampScale (fitting * v.config.fitMargin)
      let center := bounds.center
      let offset := ⟨width / 2 - center.x * scale, height / 2 - center.y * scale⟩
      { v with transform := ⟨offset, scale⟩ }

/-- Begins a pan at a pointer position. There is no result when the view is locked. -/
def startPan? (v : Viewport C) (pointer : Point C) : Option (Viewport C) :=
  if v.locked then none else some { v with pan := some ⟨pointer, v.transform.offset⟩ }

/-- Moves the view along with the pointer, if a pan is under way. -/
def updatePan (v : Viewport C) (pointer : Point C) : Viewport C :=
  if v.locked then v
  else
    match v.pan with
    | none => v
    | some anchor =>
      let offset :=
        ⟨anchor.offset.x + (pointer.x - anchor.pointer.x),
          anchor.offset.y + (pointer.y - anchor.pointer.y)⟩
      { v with transform := { v.transform with offset } }

/-- Ends a pan. -/
def endPan (v : Viewport C) : Viewport C := { v with pan := none }

end Viewport

end

/-- The scale as a whole percentage. -/
def Transform.zoomPercent (t : Transform) : Nat := Binary.roundToWord (t.scale * 100)

end LayerCanvas
