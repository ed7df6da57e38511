import LayerCanvas.Proofs.Graph.Simple
import LayerCanvas.Proofs.InPlace.Graph
import LayerCanvas.Proofs.Index.Coherent

/-!
Connecting two nodes in the store. The request looks both nodes up, looks whether they wait, and
goes through the edges that leave the source, any number of which may be fading. Only when nothing
speaks against the connection does it draw a name, add the edge, enter it in the index and in the
order, and start its animation.

So a refusal leaves the store as it was, names and animations included, and an accepted request adds
one connection and leaves everything else alone.
-/

set_option autoImplicit false
set_option relaxedAutoImplicit false

namespace LayerCanvas

variable {C R : Type}

/-- One graph is another with one more connection, which begins to appear. -/
structure Graph.Gains (g g' : Graph C R) (c : Connection C) : Prop where
  connections : g'.connections = g.connections ++ [c]
  id_notMem : c.id ∉ g.connectionIds
  nodes : g'.nodes = g.nodes
  leaving : g'.leaving = g.leaving
  config : g'.config = g.config
  tween : g'.animator.find? c.id = some ⟨.creation, g.animator.creationMs, none⟩
  other_tweens : ∀ id, id ≠ c.id → g'.animator.find? id = g.animator.find? id
  durations : g'.animator.duration = g.animator.duration

variable [Scalar C]

/-! ### Accepting a connection -/

namespace Graph

omit [Scalar C] in
theorem connectable_iff {g : Graph C R} {source target : NodeId} :
    g.Connectable source target ↔
      source ≠ target ∧ source ∈ g.nodeIds ∧ target ∈ g.nodeIds ∧ source ∉ g.leaving ∧
        target ∉ g.leaving ∧ ∀ c ∈ g.liveConnections, c.ends ≠ (source, target) := by
  have hunconnected : (∀ c ∈ g.liveConnections, c.ends ≠ (source, target)) ↔
      ∀ c ∈ g.connections, c.isDeleting = false → c.source = source → c.target ≠ target := by
    simp only [mem_liveConnections, and_imp, Connection.ends, ne_eq, Prod.mk.injEq, not_and]
  rw [hunconnected]
  constructor
  · intro h
    exact ⟨h.ne, h.source_mem, h.target_mem, h.source_stays, h.target_stays, h.unconnected⟩
  · rintro ⟨hne, hsource, htarget, hsource', htarget', hnone⟩
    exact ⟨hne, hsource, htarget, hsource', htarget', hnone⟩

theorem gains_of_addConnection? {g g' : Graph C R} {source target : NodeId} {start stop : Point C}
    {id : ConnectionId} (h : g.addConnection? source target start stop = some (g', id)) :
    g.Gains g' (.new id source target start stop) := by
  obtain ⟨-, hmade⟩ := addConnection?_eq_some_iff.mp h
  obtain ⟨rfl, rfl⟩ := Prod.mk.inj hmade
  refine ⟨rfl, ConnectionId.mint_notMem _ _, rfl, rfl, rfl, ?_, fun other hother ↦ ?_, rfl⟩
  · exact (Animator.find?_start ..).trans (if_pos rfl)
  · exact (Animator.find?_start ..).trans (if_neg hother)

end Graph

namespace Store

open InPlace

/-! ### The request, step by step -/

/-- Connects two nodes, with every check and every change where it is made. -/
def addConnectionInPlace (slots : Slots) (source target : NodeId) (start stop : Point C) :
    InPlace (Store C R) Refusal ConnectionId := do
  refuseIf (source = target) .silent
  let s ← get
  let a ← demand s.nodeIndex[source]? .silent
  let b ← demand s.nodeIndex[target]? .silent
  refuseIf (s.leaving.contains source || s.leaving.contains target) .silent
  refuseIf ((s.arena.outgoing a).any fun e ↦ e.target == b && e.weight.isLive) .silent
  let name := ConnectionId.mint s.edgeIndex.keys s.serial
  modify fun s ↦ { s with serial := name.2 }
  let added := s.arena.addEdge slots a b (.new name.1 source target start stop)
  modify fun s ↦ { s with arena := added.1 }
  modify fun s ↦ { s with edgeIndex := s.edgeIndex.insert name.1 added.2 }
  modify fun s ↦ { s with edgeOrder := s.edgeOrder ++ [name.1] }
  modify fun s ↦ { s with animator := s.animator.start name.1 .creation }
  return name.1

theorem atomic_addConnectionInPlace (slots : Slots) (source target : NodeId)
    (start stop : Point C) :
    Atomic (addConnectionInPlace slots source target start stop :
      InPlace (Store C R) Refusal ConnectionId) := by
  -- Every check comes before the first change, and no change can fail.
  refine (looks_refuseIf _ _).bind_atomic fun _ ↦ looks_get.bind_atomic fun s ↦ ?_
  refine (looks_demand _ _).bind_atomic fun a ↦ (looks_demand _ _).bind_atomic fun b ↦ ?_
  refine (looks_refuseIf _ _).bind_atomic fun _ ↦ (looks_refuseIf _ _).bind_atomic fun _ ↦
    Completes.atomic ?_
  exact (completes_modify _).bind fun _ ↦ (completes_modify _).bind fun _ ↦
    (completes_modify _).bind fun _ ↦ (completes_modify _).bind fun _ ↦
      (completes_modify _).bind fun _ ↦ completes_pure _

theorem result_addConnectionInPlace (slots : Slots) (source target : NodeId)
    (start stop : Point C) (s : Store C R) :
    (addConnectionInPlace slots source target start stop).result s =
      (silently (s.addConnection? slots source target start stop)).map
        fun made ↦ (made.2, made.1) := by
  unfold addConnection? addConnectionInPlace
  simp only [result_refuseIf_bind, result_get_bind, result_demand_bind, result_modify_bind,
    result_pure]
  by_cases hself : source = target
  · simp [hself, silently, Except.map]
  cases s.nodeIndex[source]? with
  | none => simp [hself, silently, Except.map]
  | some a =>
    cases s.nodeIndex[target]? with
    | none => simp [hself, silently, Except.map]
    | some b =>
      simp only [Option.elim_some]
      generalize (s.arena.outgoing a).any (fun e ↦ e.target == b && e.weight.isLive) = twice
      cases s.leaving.contains source || s.leaving.contains target <;> cases twice <;>
        simp [hself, silently, Except.map]

/-- A request either gives up and leaves the store as it was, or does all that connecting does. -/
theorem outcome_addConnectionInPlace (slots : Slots) (source target : NodeId)
    (start stop : Point C) (s : Store C R) :
    (addConnectionInPlace slots source target start stop).outcome s =
      (s.addConnection? slots source target start stop).elim (.error .silent, s)
        fun made ↦ (.ok made.2, made.1) := by
  rw [(atomic_addConnectionInPlace slots source target start stop).outcome_eq,
    result_addConnectionInPlace]
  cases s.addConnection? slots source target start stop <;> rfl

/-- The store accepts a request exactly if the graph that it holds does, under the same name. -/
theorem Represents.addConnection?_cases {s : Store C R} {g : Graph C R} (h : Represents s g)
    (slots : Slots) (source target : NodeId) (start stop : Point C) :
    (¬ g.Connectable source target ∧ s.addConnection? slots source target start stop = none) ∨
      (g.Connectable source target ∧ ∃ s' g' id, Represents s' g' ∧
        s.addConnection? slots source target start stop = some (s', id) ∧
          g.addConnection? source target start stop = some (g', id)) := by
  have hrel := h.addConnection? slots source target start stop
  generalize s.addConnection? slots source target start stop = made at hrel ⊢
  cases hmade : g.addConnection? source target start stop with
  | none =>
    have hnot : ¬ g.Connectable source target := fun hok ↦ by
      rw [Graph.addConnection?_eq_some_iff.mpr ⟨hok, rfl⟩] at hmade
      cases hmade
    rw [hmade] at hrel
    cases hrel
    exact Or.inl ⟨hnot, rfl⟩
  | some made' =>
    rw [hmade] at hrel
    cases hrel with
    | some hrel =>
      have hok := (Graph.addConnection?_eq_some_iff.mp hmade).1
      refine Or.inr ⟨hok, _, made'.1, made'.2, hrel.1, ?_, rfl⟩
      rw [← hrel.2]

/-! ### Runs -/

variable [Scalar R] [Precision C R]

/-- After any calls, two nodes can be connected exactly if they are two, both are there, neither
waits to go, and no connection that counts leads from the first to the second: one that fades does
not stand in the way, and neither does one in the other direction. A refused request changes nothing
at all, and an accepted one adds the new connection and its animation and nothing else. -/
theorem addConnection_exact (slots : Slots) (config : EditorConfig C R) (serial : Nat)
    (calls : List (Call C R)) (source target : NodeId) (start stop : Point C) :
    let s := run slots config serial calls
    let request := addConnectionInPlace slots source target start stop
    ((∃ id s', request.outcome s = (.ok id, s')) ↔
        source ≠ target ∧ source ∈ s.toGraph.nodeIds ∧ target ∈ s.toGraph.nodeIds ∧
          source ∉ s.leaving ∧ target ∉ s.leaving ∧
            ∀ c ∈ s.toGraph.liveConnections, c.ends ≠ (source, target)) ∧
      (request.outcome s = (.error .silent, s) ∨
        ∃ id s', request.outcome s = (.ok id, s') ∧ s'.Coherent ∧
          s.toGraph.Gains s'.toGraph
            { id, source, target, start, stop
              isAnimating := true, isDeleting := false, progress := 0 }) := by
  intro s request
  have hrun : Represents s (Graph.run config serial calls) :=
    represents_run slots config serial calls
  have hleaving : s.leaving = s.toGraph.leaving := rfl
  rw [hleaving, ← Graph.connectable_iff, hrun.toGraph_eq,
    outcome_addConnectionInPlace slots source target start stop s]
  obtain ⟨hnot, hnone⟩ | ⟨hok, s', g', id, hrun', hmade, hmade'⟩ :=
    hrun.addConnection?_cases slots source target start stop
  · simp [hnone, hnot]
  · have hwf : g'.WellFormed := by
      have happly := (Graph.wellFormed_run config serial calls).apply
        (.addConnection source target start stop)
      simpa [Graph.apply, hmade'] using happly
    rw [hmade]
    refine ⟨⟨fun _ ↦ hok, fun _ ↦ ⟨id, s', rfl⟩⟩, Or.inr ⟨id, s', rfl, hrun'.coherent hwf, ?_⟩⟩
    rw [hrun'.toGraph_eq]
    exact Graph.gains_of_addConnection? hmade'

end Store

end LayerCanvas
