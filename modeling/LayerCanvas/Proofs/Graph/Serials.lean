import LayerCanvas.Proofs.Graph.WellFormed
import LayerCanvas.Proofs.Minting

/-!
The serials that calls use up. A call that makes a node or a connection draws names until one is
free, and the serials go on behind the last name drawn; no other call draws names, and each leaves
the serials where they are.
-/

set_option autoImplicit false
set_option relaxedAutoImplicit false

namespace LayerCanvas

/-- A name that was drawn, with what it was drawn for. -/
inductive Minted
  | node (id : NodeId)
  | connection (id : ConnectionId)
  deriving DecidableEq

/-- The name itself. -/
def Minted.text : Minted → String
  | .node id => id.text
  | .connection id => id.text

/-- The names of nodes drawn for a layer type, from a serial on. -/
def NodeId.drawn (layerType : String) (serial count : Nat) : List Minted :=
  (Serial.names layerType serial count).map fun text ↦ .node ⟨text⟩

/-- The names of connections drawn from a serial on. -/
def ConnectionId.drawn (serial count : Nat) : List Minted :=
  (Serial.names stem serial count).map fun text ↦ .connection ⟨text⟩

/-- How many names a call says were drawn elsewhere. -/
def Call.drawnElsewhere {C R : Type} : Call C R → Nat
  | .drawNames count => count
  | _ => 0

theorem NodeId.map_text_drawn (layerType : String) (serial count : Nat) :
    (drawn layerType serial count).map Minted.text = Serial.names layerType serial count := by
  simp only [drawn, List.map_map, Function.comp_def, Minted.text, List.map_id']

theorem ConnectionId.map_text_drawn (serial count : Nat) :
    (drawn serial count).map Minted.text = Serial.names stem serial count := by
  simp only [drawn, List.map_map, Function.comp_def, Minted.text, List.map_id']

namespace Graph

variable {C R : Type}

/-- The names of the nodes. -/
def nodeNames (g : Graph C R) : List String := g.nodeIds.map NodeId.text

/-- The names of the connections, live and fading. -/
def connectionNames (g : Graph C R) : List String := g.connectionIds.map ConnectionId.text

/-- How many names are drawn for a new node of a layer type. -/
def nodeDraws (g : Graph C R) (layerType : String) : Nat :=
  Serial.draws layerType g.nodeNames g.serial

/-- How many names are drawn for a new connection. -/
def connectionDraws (g : Graph C R) : Nat :=
  Serial.draws ConnectionId.stem g.connectionNames g.serial

/-- The names that a call draws, one after the other. -/
def mints [Scalar C] (g : Graph C R) : Call C R → List Minted
  | .addNode layer _ => NodeId.drawn layer.type g.serial (g.nodeDraws layer.type)
  | .addConnection source target start stop =>
    if (g.addConnection? source target start stop).isSome then
      ConnectionId.drawn g.serial g.connectionDraws
    else []
  | _ => []

/-! ### Calls that draw names -/

theorem mints_addNode (g : Graph C R) (layer : Layer R) (origin : Point C) :
    Serial.Mints layer.type g.nodeNames g.serial
      (Serial.names layer.type g.serial (g.nodeDraws layer.type)) (g.addNode layer origin).2.text
      (g.addNode layer origin).1.serial :=
  Serial.mints_fresh layer.type g.nodeNames g.serial

theorem mints_addConnection [Scalar C] {g : Graph C R} {source target : NodeId}
    {start stop : Point C} {made : Graph C R × ConnectionId}
    (h : g.addConnection? source target start stop = some made) :
    Serial.Mints ConnectionId.stem g.connectionNames g.serial
      (Serial.names ConnectionId.stem g.serial g.connectionDraws) made.2.text made.1.serial := by
  obtain ⟨-, rfl⟩ := addConnection?_eq_some_iff.mp h
  exact Serial.mints_fresh ConnectionId.stem g.connectionNames g.serial

/-- A call draws the names of the next serials of one stem. -/
theorem exists_map_text_mints [Scalar C] (g : Graph C R) (call : Call C R) :
    ∃ stem, (g.mints call).map Minted.text =
      Serial.names stem g.serial (g.mints call).length := by
  cases call with
  | addNode layer origin =>
    refine ⟨layer.type, (NodeId.map_text_drawn ..).trans ?_⟩
    simp [mints, NodeId.drawn]
  | addConnection source target start stop =>
    refine ⟨ConnectionId.stem, ?_⟩
    dsimp only [mints]
    split_ifs
    · refine (ConnectionId.map_text_drawn ..).trans ?_
      simp [ConnectionId.drawn]
    · rfl
  | _ => exact ⟨"", rfl⟩

/-! ### Calls that draw none -/

theorem serial_dropNode (g : Graph C R) (id : NodeId) : (g.dropNode id).serial = g.serial := by
  have hdropped (attached : List (Connection C)) (g : Graph C R) :
      (attached.foldl (fun g c ↦ g.dropConnection c.id) g).serial = g.serial := by
    induction attached generalizing g with
    | nil => rfl
    | cons c rest ih => exact ih (g.dropConnection c.id)
  exact hdropped _ g

theorem serial_deleteNode (g : Graph C R) (id : NodeId) :
    (g.deleteNode id).serial = g.serial := by
  unfold deleteNode
  cases hdel : g.deleteNode? id with
  | none => rfl
  | some g' =>
    obtain ⟨-, -, ⟨-, rfl⟩ | ⟨-, rfl⟩⟩ := deleteNode?_eq_some_iff.mp hdel
    · exact (g.fadeAll_frame _).2.2.2
    · rfl

theorem serial_foldl {f : Graph C R → NodeId → Graph C R}
    (hf : ∀ g id, (f g id).serial = g.serial) (g : Graph C R) (ids : List NodeId) :
    (ids.foldl f g).serial = g.serial := by
  induction ids generalizing g with
  | nil => rfl
  | cons id rest ih => exact (ih (f g id)).trans (hf g id)

variable [Scalar C]

theorem serial_moveNode {g g' : Graph C R} {id : NodeId} {origin : Point C}
    (h : g.moveNode? id origin = some g') : g'.serial = g.serial := by
  obtain ⟨-, n, -, rfl⟩ := moveNode?_eq_some_iff.mp h
  rfl

omit [Scalar C] in
theorem serial_setParam {g g' : Graph C R} {id : NodeId} {name : String} {value : ParamValue R}
    (h : g.setParam id name value = .ok g') : g'.serial = g.serial := by
  obtain ⟨n, -, old, -, -, rfl⟩ := setParam_eq_ok_iff.mp h
  rfl

theorem serial_load {g g' : Graph C R} {s : Snapshot C R} (h : g.load s = .ok g') :
    g'.serial = g.serial := by
  refine load_induction (P := fun g' ↦ g'.serial = g.serial) rfl (fun _ _ _ hserial hok ↦ ?_)
    (fun _ _ _ hserial hok ↦ ?_) h
  · obtain ⟨-, -, rfl⟩ := insertNode_eq_ok_iff.mp hok
    exact hserial
  · obtain ⟨-, -, -, _, _, -, -, rfl⟩ := insertConnection_eq_ok_iff.mp hok
    exact hserial

omit [Scalar C] in
theorem serial_toOption {ε : Type} {g : Graph C R} {result : Except ε (Graph C R)}
    (h : ∀ g', result = .ok g' → g'.serial = g.serial) :
    (result.toOption.getD g).serial = g.serial := by
  cases hresult : result with
  | error e => rfl
  | ok g' => exact h g' hresult

variable [Scalar R] [Precision C R]

omit [Scalar C] in
theorem serial_tickIn (g : Graph C R) (now : R) (order : SampleOrder C) :
    (g.tickIn now order).1.serial = g.serial :=
  (serial_foldl serial_dropNode _ _).trans (absorbAll_frame _ _).2.2.2

/-! ### All calls -/

/-- The serials go on by the number of names that are drawn. -/
theorem serial_apply (g : Graph C R) (call : Call C R) :
    (g.apply call).serial = g.serial + (g.mints call).length + call.drawnElsewhere := by
  cases call with
  | addNode layer origin =>
    have hmints := g.mints_addNode layer origin
    simpa [apply, mints, NodeId.drawn, Call.drawnElsewhere] using hmints.next_eq
  | addConnection source target start stop =>
    cases hres : g.addConnection? source target start stop with
    | none => simp [apply, mints, hres, Call.drawnElsewhere]
    | some made =>
      simpa [apply, mints, hres, ConnectionId.drawn, Call.drawnElsewhere] using
        (mints_addConnection hres).next_eq
  | insertNode n =>
    refine serial_toOption fun g' h ↦ ?_
    obtain ⟨-, -, rfl⟩ := insertNode_eq_ok_iff.mp h
    rfl
  | moveNode id origin =>
    cases hres : g.moveNode? id origin with
    | none => simp [apply, mints, hres, Call.drawnElsewhere]
    | some g' => simpa [apply, mints, hres, Call.drawnElsewhere] using serial_moveNode hres
  | deleteNode id => exact g.serial_deleteNode id
  | clear => exact serial_foldl serial_deleteNode g _
  | setParam id name value => exact serial_toOption fun g' ↦ serial_setParam
  | deleteConnection id => exact (g.deleteConnection_frame id).2.2.2
  | tick now order => exact g.serial_tickIn now order
  | load s => exact serial_toOption fun g' ↦ serial_load
  | loadDocument document =>
    refine serial_toOption fun g' h ↦ ?_
    cases document with
    | none => cases h
    | some s => exact serial_load h
  | _ => rfl

end Graph

end LayerCanvas
