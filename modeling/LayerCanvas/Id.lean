/-!
Names of nodes and connections. A fresh name is a stem followed by a hyphen and a serial number; all
names draw their serials from one sequence, and a serial whose name is already in use is used up.
-/

set_option autoImplicit false
set_option relaxedAutoImplicit false

namespace LayerCanvas

/-- The name of a node. -/
structure NodeId where
  text : String
  deriving DecidableEq

/-- The name of a connection. -/
structure ConnectionId where
  text : String
  deriving DecidableEq

namespace Serial

/-- The name with a given stem and serial number. -/
def name (stem : String) (serial : Nat) : String := stem ++ "-" ++ toString serial

/-- The first of `tries + 1` serials from `serial` on whose name is free, and otherwise the last of
them. -/
def firstFree (stem : String) (taken : List String) : (tries : Nat) → (serial : Nat) → Nat
  | 0, serial => serial
  | tries + 1, serial =>
    if name stem serial ∈ taken then firstFree stem taken tries (serial + 1) else serial

/-- The serial of a fresh name. Among one more serials than there are names in use, one is free. -/
def fresh (stem : String) (taken : List String) (serial : Nat) : Nat :=
  firstFree stem taken taken.length serial

end Serial

namespace NodeId

/-- A fresh name for a node of a layer type, and the serial that follows it. -/
def mint (layerType : String) (taken : List NodeId) (serial : Nat) : NodeId × Nat :=
  let serial := Serial.fresh layerType (taken.map NodeId.text) serial
  (⟨Serial.name layerType serial⟩, serial + 1)

/-- A name as diagnostics show it. -/
def describe (id : NodeId) : String := "NodeId(" ++ id.text ++ ")"

end NodeId

namespace ConnectionId

/-- The stem of every connection's name. -/
def stem : String := "conn"

/-- A fresh name for a connection, and the serial that follows it. -/
def mint (taken : List ConnectionId) (serial : Nat) : ConnectionId × Nat :=
  let serial := Serial.fresh stem (taken.map ConnectionId.text) serial
  (⟨Serial.name stem serial⟩, serial + 1)

/-- A name as diagnostics show it. -/
def describe (id : ConnectionId) : String := "ConnectionId(" ++ id.text ++ ")"

end ConnectionId

end LayerCanvas
