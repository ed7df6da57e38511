import LayerCanvas.Interaction.Input

/-!
Keyboard shortcuts. With the command key held only zooming and resetting are bound; with shift held
and no command key, the keys that shift changes; otherwise the plain keys.
-/

set_option autoImplicit false
set_option relaxedAutoImplicit false

namespace LayerCanvas

/-- What a shortcut does. -/
inductive Shortcut
  | zoomIn
  | zoomOut
  | resetView
  | fitView
  | toggleLock
  | deleteSelected
  /-- Gives up the gesture under way and clears the selection. -/
  | cancel
  deriving DecidableEq

/-- The bindings with the command key. -/
def Shortcut.withCommand? (key : String) : Option Shortcut :=
  if key = "=" ∨ key = "+" then some .zoomIn
  else if key = "-" then some .zoomOut
  else if key = "0" then some .resetView
  else none

/-- The bindings with shift. The key of the digit one is reported with or without shift applied,
depending on the keyboard. -/
def Shortcut.withShift? (key : String) : Option Shortcut :=
  if key = "1" ∨ key = "!" then some .fitView
  else if key = "+" then some .zoomIn
  else if key = "Escape" then some .cancel
  else none

/-- The bindings of plain keys. -/
def Shortcut.plain? (key : String) : Option Shortcut :=
  if key = "=" ∨ key = "+" then some .zoomIn
  else if key = "-" then some .zoomOut
  else if key = "0" then some .resetView
  else if key = "1" then some .fitView
  else if key = "l" ∨ key = "L" then some .toggleLock
  else if key = "Delete" ∨ key = "Backspace" then some .deleteSelected
  else if key = "Escape" then some .cancel
  else none

/-- The shortcut bound to a key. -/
def Shortcut.resolve? (key : String) (m : Modifiers) : Option Shortcut :=
  if m.command then withCommand? key else if m.shift then withShift? key else plain? key

end LayerCanvas
