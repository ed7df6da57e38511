import LayerCanvas.Proofs.Graph.Load
import LayerCanvas.Proofs.Graph.Run
import LayerCanvas.Proofs.Graph.Thin
import Mathlib.Logic.Relation

/-!
What a call can do to a graph. Apart from ticks and loads, every call is a sequence of changes of
six kinds: the looks of what is there change, a node is placed, two nodes are connected, a
connection is told to fade, an untouched node goes, or a touched node begins to wait. An invariant
is therefore kept by all calls as soon as it is kept by these six, by ticks and by loads.
-/

set_option autoImplicit false
set_option relaxedAutoImplicit false

namespace LayerCanvas

variable {C R : Type}

/-- All of a connection but its ends on the canvas. -/
def Connection.state (c : Connection C) : (ConnectionId × NodeId × NodeId) × Bool × Bool × C :=
  (c.link, c.isAnimating, c.isDeleting, c.progress)

/-- The calls that change nothing but nodes and their looks, and come from a session. -/
def Call.IsEdit : Call C R → Prop
  | .addNode _ _ | .bringToFront _ | .moveNode _ _ | .setParam _ _ _ | .drawNames _ => True
  | _ => False

namespace Graph

/-- Two graphs with the same parts, which may look different and be painted in another order. -/
structure Alike (g g' : Graph C R) : Prop where
  config : g'.config = g.config
  nodeIds : g'.nodeIds.Perm g.nodeIds
  states : g'.connections.map Connection.state = g.connections.map Connection.state
  leaving : g'.leaving = g.leaving
  animator : g'.animator = g.animator

namespace Alike

variable {g g' : Graph C R}

theorem refl (g : Graph C R) : Alike g g := ⟨rfl, .refl _, rfl, rfl, rfl⟩

theorem links (h : Alike g g') : g'.links = g.links := by
  have hmap (g : Graph C R) : g.links = (g.connections.map Connection.state).map Prod.fst := by
    simp [Graph.links, Connection.state, Function.comp_def]
  rw [hmap, hmap, h.states]

theorem connectionIds (h : Alike g g') : g'.connectionIds = g.connectionIds := by
  rw [← map_fst_links, h.links, map_fst_links]

theorem thins (h : Alike g g') : Thins g' g := by
  have hstates := List.forall₂_eq_eq_eq (α := (ConnectionId × NodeId × NodeId) × Bool × Bool × C) ▸
    h.states
  rw [List.forall₂_map_left_iff, List.forall₂_map_right_iff] at hstates
  refine List.sublistForall₂_iff.mpr ⟨_, hstates.imp fun d c hdc ↦ ?_, List.Sublist.refl _⟩
  have hdeleting : d.isDeleting = c.isDeleting := congrArg (fun state ↦ state.2.2.1) hdc
  exact ⟨congrArg Prod.fst hdc, fun h ↦ hdeleting.trans h⟩

end Alike

/-- Whether a connection from one node to another would be accepted. -/
structure Connectable (g : Graph C R) (source target : NodeId) : Prop where
  ne : source ≠ target
  source_mem : source ∈ g.nodeIds
  target_mem : target ∈ g.nodeIds
  source_stays : source ∉ g.leaving
  target_stays : target ∉ g.leaving
  unconnected : ∀ c ∈ g.connections, c.isDeleting = false → c.source = source → c.target ≠ target

/-- The changes that calls are made of. -/
inductive Change [Scalar C] (g : Graph C R) : Graph C R → Prop
  | alike {g' : Graph C R} (h : Alike g g') : Change g g'
  | place (n : Node C R) (serial : Nat) (h : n.id ∉ g.nodeIds) :
    Change g { g with nodes := g.nodes ++ [n], serial }
  | connect (id : ConnectionId) (source target : NodeId) (start stop : Point C) (serial : Nat)
    (hid : id ∉ g.connectionIds) (h : g.Connectable source target) :
    Change g
      { g with
        connections := g.connections ++ [.new id source target start stop]
        animator := g.animator.start id .creation
        serial }
  | fade (id : ConnectionId) : Change g (g.deleteConnection id)
  | remove (id : NodeId) (hmem : id ∈ g.nodeIds) (hstays : id ∉ g.leaving)
    (h : g.isTouched id = false) :
    Change g { g with nodes := g.nodes.filter fun n ↦ n.id != id }
  | await (id : NodeId) (hmem : id ∈ g.nodeIds) (hstays : id ∉ g.leaving)
    (h : g.isTouched id = true) :
    Change g { g.fadeAt id with leaving := g.leaving ++ [id] }

variable [Scalar C]

/-! ### Calls that change looks -/

omit [Scalar C] in
theorem nodeIds_updateNode (g : Graph C R) (id : NodeId) {f : Node C R → Node C R}
    (hf : ∀ n, (f n).id = n.id) : (g.updateNode id f).nodeIds = g.nodeIds := by
  simp only [nodeIds, updateNode, List.map_map]
  refine List.map_congr_left fun n _ ↦ ?_
  simp only [Function.comp_apply]
  split_ifs
  · exact hf n
  · rfl

omit [Scalar C] in
theorem alike_bringToFront (g : Graph C R) (id : NodeId) : Alike g (g.bringToFront id) := by
  refine ⟨rfl, ?_, rfl, rfl, rfl⟩
  have hperm := List.filter_append_perm (fun n : Node C R ↦ n.id != id) g.nodes
  simpa [nodeIds, bringToFront, bne, Bool.not_not] using hperm.map Node.id

theorem alike_moveNode {g g' : Graph C R} {id : NodeId} {origin : Point C}
    (h : g.moveNode? id origin = some g') : Alike g g' := by
  obtain ⟨-, n, -, rfl⟩ := moveNode?_eq_some_iff.mp h
  refine ⟨rfl, .of_eq (g.nodeIds_updateNode n.id fun _ ↦ rfl), ?_, rfl, rfl⟩
  simp only [put, List.map_map]
  exact List.map_congr_left fun c _ ↦ rfl

omit [Scalar C] in
theorem alike_setParam {g g' : Graph C R} {id : NodeId} {name : String} {value : ParamValue R}
    (h : g.setParam id name value = .ok g') : Alike g g' := by
  obtain ⟨n, -, old, -, -, rfl⟩ := setParam_eq_ok_iff.mp h
  exact ⟨rfl, .of_eq (g.nodeIds_updateNode id fun _ ↦ rfl), rfl, rfl, rfl⟩

/-! ### Calls that change parts -/

omit [Scalar C] in
/-- A new node has a new name. -/
theorem addNode_fst (g : Graph C R) (layer : Layer R) (origin : Point C) :
    ∃ (n : Node C R) (serial : Nat), n.id ∉ g.nodeIds ∧
      (g.addNode layer origin).1 = { g with nodes := g.nodes ++ [n], serial } :=
  ⟨_, _, NodeId.mint_notMem layer.type g.nodeIds g.serial, rfl⟩

theorem addConnection?_eq_some_iff {g : Graph C R} {source target : NodeId} {start stop : Point C}
    {made : Graph C R × ConnectionId} :
    g.addConnection? source target start stop = some made ↔
      g.Connectable source target ∧
        made =
          ({ g with
              connections := g.connections ++
                [.new (ConnectionId.mint g.connectionIds g.serial).1 source target start stop]
              animator :=
                g.animator.start (ConnectionId.mint g.connectionIds g.serial).1 .creation
              serial := (ConnectionId.mint g.connectionIds g.serial).2 },
            (ConnectionId.mint g.connectionIds g.serial).1) := by
  have hcond : (source = target || !g.contains source || !g.contains target ||
      g.isLeaving source || g.isLeaving target ||
      g.liveConnections.any (fun c ↦ c.source == source && c.target == target)) = false ↔
        g.Connectable source target := by
    simp only [Bool.or_eq_false_iff, decide_eq_false_iff_not, Bool.not_eq_false', contains_iff,
      isLeaving, List.contains_eq_mem, List.any_eq_false, mem_liveConnections, Bool.and_eq_true,
      beq_iff_eq, and_imp, not_and]
    constructor
    · rintro ⟨⟨⟨⟨⟨hne, hsource⟩, htarget⟩, hsource'⟩, htarget'⟩, hnone⟩
      exact ⟨hne, hsource, htarget, hsource', htarget', hnone⟩
    · rintro ⟨hne, hsource, htarget, hsource', htarget', hnone⟩
      exact ⟨⟨⟨⟨⟨hne, hsource⟩, htarget⟩, hsource'⟩, htarget'⟩, hnone⟩
  unfold addConnection?
  split_ifs with hrefused
  · have hnot : ¬ g.Connectable source target :=
      fun h ↦ Bool.eq_false_iff.mp (hcond.mpr h) hrefused
    simp [hnot]
  · have hok : g.Connectable source target := hcond.mp (Bool.eq_false_iff.mpr hrefused)
    simp [hok, connectionIds, eq_comm]

/-! ### All calls -/

/-- A graph that several changes lead to. -/
def Changes (g g' : Graph C R) : Prop := Relation.ReflTransGen Change g g'

theorem Changes.refl (g : Graph C R) : Changes g g := Relation.ReflTransGen.refl

theorem Changes.of_change {g g' : Graph C R} (h : Change g g') : Changes g g' :=
  Relation.ReflTransGen.single h

/-- What every change keeps, several changes keep. -/
theorem Changes.keep {P : Graph C R → Prop} {g g' : Graph C R} (h : Changes g g')
    (hchange : ∀ g g', P g → Change g g' → P g') (hg : P g) : P g' := by
  induction h with
  | refl => exact hg
  | tail _ hlast ih => exact hchange _ _ ih hlast

theorem changes_deleteNode (g : Graph C R) (id : NodeId) : Changes g (g.deleteNode id) := by
  unfold deleteNode
  cases hdel : g.deleteNode? id with
  | none => exact .refl g
  | some g' =>
    obtain ⟨hmem, hstays, ⟨htouch, rfl⟩ | ⟨htouch, rfl⟩⟩ := deleteNode?_eq_some_iff.mp hdel
    · exact .of_change (.await id hmem hstays htouch)
    · exact .of_change (.remove id hmem hstays htouch)

theorem changes_foldl_deleteNode (g : Graph C R) (ids : List NodeId) :
    Changes g (ids.foldl deleteNode g) := by
  induction ids generalizing g with
  | nil => exact .refl g
  | cons id rest ih => exact (g.changes_deleteNode id).trans (ih _)

variable [Scalar R] [Precision C R]

/-- A call is a sequence of changes, a tick, or a load. -/
theorem apply_cases (g : Graph C R) (call : Call C R) :
    (¬ g.Loads call ∧ Changes g (g.apply call)) ∨
      (∃ now order, call = .tick now order) ∨
        (g.Loads call ∧ ∃ s, g.load s = .ok (g.apply call)) := by
  have hload (s : Snapshot C R) (hcall : g.apply call = (g.load s).toOption.getD g)
      (hloads : g.Loads call ↔ ∃ loaded, g.load s = .ok loaded) :
      (¬ g.Loads call ∧ Changes g (g.apply call)) ∨
        (g.Loads call ∧ ∃ s, g.load s = .ok (g.apply call)) := by
    cases hres : g.load s with
    | error e =>
      have hsame : g.apply call = g := by rw [hcall, hres]; rfl
      exact Or.inl ⟨by simp [hloads, hres], by rw [hsame]; exact .refl g⟩
    | ok loaded =>
      have hsame : g.apply call = loaded := by rw [hcall, hres]; rfl
      exact Or.inr ⟨hloads.mpr ⟨loaded, hres⟩, s, by rw [hsame]; exact hres⟩
  -- A call that is refused makes no change, which is a sequence of changes as well.
  cases call with
  | addNode layer origin =>
    obtain ⟨n, serial, hnew, heq⟩ := g.addNode_fst layer origin
    refine Or.inl ⟨id, ?_⟩
    rw [apply, heq]
    exact .of_change (.place n serial hnew)
  | insertNode n =>
    refine Or.inl ⟨id, ?_⟩
    cases hres : g.insertNode n with
    | error e => simpa [apply, hres, Except.toOption] using Changes.refl g
    | ok g' =>
      obtain ⟨hnew, -, rfl⟩ := insertNode_eq_ok_iff.mp hres
      simpa [apply, hres, Except.toOption] using Changes.of_change (.place n g.serial hnew)
  | bringToFront id => exact Or.inl ⟨fun h ↦ h, .of_change (.alike (g.alike_bringToFront id))⟩
  | moveNode id origin =>
    refine Or.inl ⟨fun h ↦ h, ?_⟩
    cases hres : g.moveNode? id origin with
    | none => simpa [apply, hres] using Changes.refl g
    | some g' => simpa [apply, hres] using Changes.of_change (.alike (alike_moveNode hres))
  | deleteNode id => exact Or.inl ⟨fun h ↦ h, g.changes_deleteNode id⟩
  | clear => exact Or.inl ⟨fun h ↦ h, g.changes_foldl_deleteNode _⟩
  | setParam id name value =>
    refine Or.inl ⟨fun h ↦ h, ?_⟩
    cases hres : g.setParam id name value with
    | error e => simpa [apply, hres, Except.toOption] using Changes.refl g
    | ok g' =>
      simpa [apply, hres, Except.toOption] using Changes.of_change (.alike (alike_setParam hres))
  | addConnection source target start stop =>
    refine Or.inl ⟨fun h ↦ h, ?_⟩
    cases hres : g.addConnection? source target start stop with
    | none => simpa [apply, hres] using Changes.refl g
    | some made =>
      obtain ⟨hok, rfl⟩ := addConnection?_eq_some_iff.mp hres
      have hnew := ConnectionId.mint_notMem g.connectionIds g.serial
      simpa [apply, hres] using
        Changes.of_change (.connect _ source target start stop _ hnew hok)
  | deleteConnection id => exact Or.inl ⟨fun h ↦ h, .of_change (.fade id)⟩
  | tick now order => exact Or.inr (Or.inl ⟨now, order, rfl⟩)
  | load s => exact (hload s rfl Iff.rfl).imp_right Or.inr
  | loadDocument document =>
    cases document with
    | none => exact Or.inl ⟨by simp [Loads, loadDocument], .refl g⟩
    | some s => exact (hload s rfl Iff.rfl).imp_right Or.inr
  | drawNames count => exact Or.inl ⟨fun h ↦ h, .of_change (.alike ⟨rfl, .refl _, rfl, rfl, rfl⟩)⟩

theorem exists_load_of_loads {g : Graph C R} {call : Call C R} (h : g.Loads call) :
    ∃ s, g.load s = .ok (g.apply call) := by
  rcases g.apply_cases call with ⟨hnot, -⟩ | ⟨now, order, rfl⟩ | ⟨-, hok⟩
  · exact absurd h hnot
  · exact absurd h (fun h ↦ h)
  · exact hok

/-- What changes, ticks and loads keep, every call keeps. -/
theorem apply_invariant {P : Graph C R → Prop} (hchange : ∀ g g', P g → Change g g' → P g')
    (htick : ∀ g now order, P g → P (g.tickIn now order).1)
    (hload : ∀ g s g', P g → g.load s = .ok g' → P g') (g : Graph C R) (call : Call C R)
    (hg : P g) : P (g.apply call) := by
  rcases g.apply_cases call with ⟨-, hsteps⟩ | ⟨now, order, rfl⟩ | ⟨-, s, hok⟩
  · exact hsteps.keep hchange hg
  · exact htick g now order hg
  · exact hload g s _ hg hok

/-! ### Edits of nodes -/

/-- An edit adds nodes at most, and leaves the connections and their tweens as they are. -/
theorem edit_frame (g : Graph C R) {call : Call C R} (h : call.IsEdit) :
    g.nodeIds ⊆ (g.apply call).nodeIds ∧
      (g.apply call).connections.map Connection.state = g.connections.map Connection.state ∧
        (g.apply call).leaving = g.leaving ∧ (g.apply call).animator = g.animator := by
  have halike {g' : Graph C R} (h : Alike g g') :
      g.nodeIds ⊆ g'.nodeIds ∧ g'.connections.map Connection.state =
        g.connections.map Connection.state ∧ g'.leaving = g.leaving ∧ g'.animator = g.animator :=
    ⟨h.nodeIds.symm.subset, h.states, h.leaving, h.animator⟩
  cases call with
  | addNode layer origin => exact ⟨by simp [nodeIds, apply, addNode], rfl, rfl, rfl⟩
  | bringToFront id => exact halike (g.alike_bringToFront id)
  | moveNode id origin =>
    cases hmoved : g.moveNode? id origin with
    | none => simp [apply, hmoved]
    | some moved => simpa [apply, hmoved] using halike (alike_moveNode hmoved)
  | setParam id name value =>
    cases hset : g.setParam id name value with
    | error fault => simp [apply, hset, Except.toOption]
    | ok changed => simpa [apply, hset, Except.toOption] using halike (alike_setParam hset)
  | drawNames count => exact ⟨List.Subset.refl _, rfl, rfl, rfl⟩
  | _ => exact h.elim

end Graph

end LayerCanvas
