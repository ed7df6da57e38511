import LayerCanvas.Proofs.Graph.Serials

/-!
All names of a process. The graphs of a process, those of its sessions among them, draw their names
from one sequence of serials, and names are drawn from it for no graph as well. So no serial is drawn
twice, and since a name tells its serial, no name is drawn twice either, for whatever layer types and
in whatever order the graphs take their calls.
-/

set_option autoImplicit false
set_option relaxedAutoImplicit false

namespace LayerCanvas

/-- The graphs of a process with the serial that is drawn next, and all names drawn so far, those in
use included. -/
structure Process (C R : Type) where
  graphs : List (Graph C R) := []
  serial : Nat := 1
  minted : List Minted := []

/-- What happens in a process. -/
inductive Process.Event (C R : Type)
  /-- A graph without nodes is made. -/
  | opens (config : EditorConfig C R)
  /-- One of the graphs takes a call. -/
  | calls (index : Nat) (call : Call C R)
  /-- A name for a node is made without a graph. -/
  | namesNode (layerType : String)
  /-- A name for a connection is made without a graph. -/
  | namesConnection

namespace Process

variable {C R : Type}

/-- A graph as it takes a call, which draws from the serials of the process. -/
def lend (p : Process C R) (g : Graph C R) : Graph C R := { g with serial := p.serial }

variable [Scalar C] [Scalar R] [Precision C R]

/-- The process after an event. -/
def apply (p : Process C R) : Event C R → Process C R
  | .opens config => { p with graphs := p.graphs ++ [.empty config p.serial] }
  | .calls index call =>
    match p.graphs[index]? with
    | none => p
    | some g =>
      { graphs := p.graphs.set index ((p.lend g).apply call)
        serial := ((p.lend g).apply call).serial
        minted := p.minted ++ (p.lend g).mints call }
  | .namesNode layerType =>
    { p with
      serial := p.serial + 1
      minted := p.minted ++ NodeId.drawn layerType p.serial 1 }
  | .namesConnection =>
    { p with serial := p.serial + 1, minted := p.minted ++ ConnectionId.drawn p.serial 1 }

/-- The process after several events. -/
def run (events : List (Event C R)) : Process C R := events.foldl apply {}

/-- What holds of a process at any time. -/
structure Sound (p : Process C R) : Prop where
  nodup : (p.minted.map Minted.text).Nodup
  used : ∀ m ∈ p.minted, ∃ stem n, n < p.serial ∧ m.text = Serial.name stem n
  graphs : ∀ g ∈ p.graphs, ∃ config serial calls, p.lend g = Graph.run config serial calls

variable {p : Process C R}

namespace Sound

/-- New names that take up the next serials are no old ones. -/
theorem extend (h : p.Sound) {new : List Minted} {stem : String} {count serial : Nat}
    (hnew : new.map Minted.text = Serial.names stem p.serial count)
    (hserial : p.serial + count ≤ serial) :
    ((p.minted ++ new).map Minted.text).Nodup ∧
      ∀ m ∈ p.minted ++ new, ∃ stem n, n < serial ∧ m.text = Serial.name stem n := by
  have hlater {m : Minted} (hm : m ∈ new) :
      ∃ n, p.serial ≤ n ∧ n < p.serial + count ∧ m.text = Serial.name stem n :=
    Serial.exists_of_mem_names (hnew ▸ List.mem_map_of_mem hm)
  constructor
  · rw [List.map_append, List.nodup_append, hnew]
    refine ⟨h.nodup, Serial.nodup_names stem p.serial count, fun text htext text' htext' ↦ ?_⟩
    obtain ⟨m, hm, rfl⟩ := List.mem_map.mp htext
    obtain ⟨old, i, hi, hold⟩ := h.used m hm
    obtain ⟨j, hj, -, rfl⟩ := Serial.exists_of_mem_names htext'
    rintro hsame
    obtain ⟨-, rfl⟩ := Serial.name_inj.mp (hold.symm.trans hsame)
    omega
  · intro m hm
    rcases List.mem_append.mp hm with hm | hm
    · obtain ⟨old, n, hn, hold⟩ := h.used m hm
      exact ⟨old, n, by omega, hold⟩
    · obtain ⟨n, -, hn, hm⟩ := hlater hm
      exact ⟨stem, n, by omega, hm⟩

/-- A graph stays that of a run while other graphs draw names. -/
theorem graphs_of_le (h : p.Sound) {p' : Process C R} (hserial : p.serial ≤ p'.serial)
    {g : Graph C R} (hg : g ∈ p.graphs) :
    ∃ config serial calls, p'.lend g = Graph.run config serial calls := by
  obtain ⟨config, serial, calls, hrun⟩ := h.graphs g hg
  refine ⟨config, serial, calls ++ [.drawNames (p'.serial - p.serial)], ?_⟩
  rw [Graph.run_append, ← hrun]
  simp [lend, Graph.apply, Nat.add_sub_cancel' hserial]

theorem start : Sound ({} : Process C R) :=
  ⟨List.nodup_nil, fun _ h ↦ absurd h List.not_mem_nil, fun _ h ↦ absurd h List.not_mem_nil⟩

theorem names (h : p.Sound) {new : List Minted} {stem : String}
    (hnew : new.map Minted.text = Serial.names stem p.serial 1) :
    Sound { p with serial := p.serial + 1, minted := p.minted ++ new } := by
  obtain ⟨hnodup, hused⟩ := h.extend hnew (Nat.le_refl _)
  exact ⟨hnodup, hused, fun g hg ↦ h.graphs_of_le (Nat.le_succ _) hg⟩

theorem call (h : p.Sound) {index : Nat} {g : Graph C R} (hg : p.graphs[index]? = some g)
    (call : Call C R) :
    Sound
      { graphs := p.graphs.set index ((p.lend g).apply call)
        serial := ((p.lend g).apply call).serial
        minted := p.minted ++ (p.lend g).mints call } := by
  have hserial : p.serial + ((p.lend g).mints call).length ≤ ((p.lend g).apply call).serial := by
    rw [(p.lend g).serial_apply call]
    exact Nat.le_add_right _ _
  obtain ⟨stem, hnew⟩ := (p.lend g).exists_map_text_mints call
  obtain ⟨hnodup, hused⟩ := h.extend hnew hserial
  refine ⟨hnodup, hused, fun g' hg' ↦ ?_⟩
  rcases List.mem_or_eq_of_mem_set hg' with hother | rfl
  · exact h.graphs_of_le (by simp only; omega) hother
  · obtain ⟨config, serial, calls, hrun⟩ := h.graphs g (List.mem_of_getElem? hg)
    refine ⟨config, serial, calls ++ [call], ?_⟩
    rw [Graph.run_append, ← hrun]
    rfl

theorem apply (h : p.Sound) (event : Event C R) : (p.apply event).Sound := by
  cases event with
  | opens config =>
    refine ⟨h.nodup, h.used, fun g hg ↦ ?_⟩
    rcases List.mem_append.mp hg with hg | hg
    · exact h.graphs g hg
    · exact ⟨config, p.serial, [], by rw [List.mem_singleton.mp hg]; rfl⟩
  | calls index call =>
    dsimp only [Process.apply]
    cases hg : p.graphs[index]? with
    | none => exact h
    | some g => exact h.call hg call
  | namesNode layerType => exact h.names (NodeId.map_text_drawn layerType p.serial 1)
  | namesConnection => exact h.names (ConnectionId.map_text_drawn p.serial 1)

end Sound

theorem sound_run (events : List (Event C R)) : (run events : Process C R).Sound := by
  have hall (p : Process C R) (hp : p.Sound) : (events.foldl Process.apply p).Sound := by
    induction events generalizing p with
    | nil => exact hp
    | cons event rest ih => exact ih _ (hp.apply event)
  exact hall {} .start

/-- In the graph of a run, also one that was loaded with names of the form in which fresh ones are
made, the search for a fresh name of a node or of a connection ends after one more draw than there
are nodes or connections at the latest. It returns the last name that it has drawn, which is not in
use and whose serial is one of those that were left, and it uses up one serial for each draw. The
graphs of a process are graphs of runs, and no two of all the names that are drawn in it are the
same. -/
theorem fresh_names :
    (∀ (config : EditorConfig C R) (serial : Nat) (calls : List (Call C R)),
      let g := Graph.run config serial calls
      (∀ layer origin, ∃ drawn,
        Serial.Mints layer.type g.nodeNames g.serial drawn (g.addNode layer origin).2.text
          (g.addNode layer origin).1.serial ∧ drawn.length ≤ g.nodes.length + 1 ∧
            g.mints (.addNode layer origin) = drawn.map fun text ↦ .node ⟨text⟩) ∧
      ∀ source target start stop made, g.addConnection? source target start stop = some made →
        ∃ drawn,
          Serial.Mints "conn" g.connectionNames g.serial drawn made.2.text made.1.serial ∧
            drawn.length ≤ g.connections.length + 1 ∧
              g.mints (.addConnection source target start stop) =
                drawn.map fun text ↦ .connection ⟨text⟩) ∧
    ∀ events : List (Event C R),
      ((run events).minted.map Minted.text).Nodup ∧
        ∀ g ∈ (run events).graphs,
          ∃ config serial calls, (run events).lend g = Graph.run config serial calls := by
  refine ⟨fun config serial calls ↦ ?_, fun events ↦ ?_⟩
  · intro g
    refine ⟨fun layer origin ↦ ?_, fun source target start stop made hmade ↦ ?_⟩
    · have hmints := g.mints_addNode layer origin
      exact ⟨_, hmints, by simpa [Graph.nodeNames, Graph.nodeIds] using hmints.length_le, rfl⟩
    · have hmints := Graph.mints_addConnection hmade
      refine ⟨_, hmints, ?_, by simp [Graph.mints, hmade, ConnectionId.drawn]⟩
      simpa [Graph.connectionNames, Graph.connectionIds] using hmints.length_le
  · have hsound : (run events : Process C R).Sound := sound_run events
    exact ⟨hsound.nodup, hsound.graphs⟩

/-- A loaded document has nodes and a connection with names of the form in which fresh ones are
made: the third name that is drawn for a new node is free, and the second one for a connection from
an old node to it. -/
theorem fresh_names_loaded :
    ∃ (calls : List (Call Float32 Float)) (made : Graph × ConnectionId) (drawn : List String),
      let g := Graph.run .standard 1 calls
      g.nodeNames = ["Input-1", "Input-2", "Input-3"] ∧ g.connectionNames = ["conn-4"] ∧
        g.serial = 4 ∧
          g.addConnection? ⟨"Input-1"⟩ ⟨"Input-3"⟩ ⟨0, 0⟩ ⟨0, 0⟩ = some made ∧
            drawn = ["conn-4", "conn-5"] ∧
              Serial.Mints "conn" ["conn-4"] 4 drawn made.2.text made.1.serial := by
  let layer : Layer := ⟨"Input", "", "", "", .ofList [], "", ""⟩
  let saved : Snapshot :=
    { nodes := [⟨⟨"Input-1"⟩, layer, ⟨0, 0⟩, 140, 86⟩, ⟨⟨"Input-2"⟩, layer, ⟨0, 200⟩, 140, 86⟩]
      connections := [.new ⟨"conn-4"⟩ ⟨"Input-1"⟩ ⟨"Input-2"⟩ ⟨0, 0⟩ ⟨0, 0⟩] }
  let calls : List (Call Float32 Float) := [.load saved, .addNode layer ⟨0, 400⟩]
  let g : Graph := Graph.run .standard 1 calls
  have hnodes : g.nodeNames = ["Input-1", "Input-2", "Input-3"] := by decide +kernel
  have hconnections : g.connectionNames = ["conn-4"] := by decide +kernel
  have hserial : g.serial = 4 := by decide +kernel
  have haccepted : (g.addConnection? ⟨"Input-1"⟩ ⟨"Input-3"⟩ ⟨0, 0⟩ ⟨0, 0⟩).isSome = true := by
    decide +kernel
  obtain ⟨made, hmade⟩ := Option.isSome_iff_exists.mp haccepted
  obtain ⟨drawn, hmints, -, hdrawn⟩ := (fresh_names.1 .standard 1 calls).2 _ _ _ _ made hmade
  have htexts : drawn = (g.mints (.addConnection ⟨"Input-1"⟩ ⟨"Input-3"⟩ ⟨0, 0⟩ ⟨0, 0⟩)).map
      Minted.text := by
    simp [g, hdrawn, Function.comp_def, Minted.text]
  have hlist : drawn = ["conn-4", "conn-5"] := htexts.trans (by decide +kernel)
  exact ⟨calls, made, drawn, hnodes, hconnections, hserial, hmade, hlist,
    hconnections ▸ hserial ▸ hmints⟩

end Process

end LayerCanvas
