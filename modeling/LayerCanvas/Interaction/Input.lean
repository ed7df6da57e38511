import LayerCanvas.Point

/-!
What the user does: pointer and wheel events at a point of the screen, with the keys that are held.
-/

set_option autoImplicit false
set_option relaxedAutoImplicit false

namespace LayerCanvas

/-- A button of the pointer. -/
inductive Button
  | primary
  | middle
  | secondary
  deriving DecidableEq

/-- The button with a number; every number that names no other button is the primary one. -/
def Button.ofNumber (n : Int) : Button :=
  if n = 1 then .middle else if n = 2 then .secondary else .primary

/-- The modifier keys that are held. -/
structure Modifiers where
  shift : Bool := false
  control : Bool := false
  alt : Bool := false
  system : Bool := false
  deriving DecidableEq

/-- Whether a key for commands is held: the control key or the system key, depending on the
keyboard. -/
def Modifiers.command (m : Modifiers) : Bool := m.control || m.system

/-- An event at a point of the screen. -/
inductive InputEvent
  | pointerDown (p : Point) (button : Button) (modifiers : Modifiers)
  | pointerMove (p : Point) (modifiers : Modifiers)
  | pointerUp (p : Point) (button : Button) (modifiers : Modifiers)
  /-- A turn of the wheel; a negative amount is upward. -/
  | wheel (p : Point) (amount : Float32)
  deriving DecidableEq

/-- Where an event happens. -/
def InputEvent.position : InputEvent → Point
  | .pointerDown p _ _ | .pointerMove p _ | .pointerUp p _ _ | .wheel p _ => p

/-- The keys held during an event, where it tells. -/
def InputEvent.modifiers? : InputEvent → Option Modifiers
  | .pointerDown _ _ m | .pointerMove _ m | .pointerUp _ _ m => some m
  | .wheel _ _ => none

end LayerCanvas
