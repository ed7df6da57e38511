import LayerCanvas.Proofs.Graph.Simple

/-!
How a node leaves the graph. A deleted node that nothing touches goes at once. Any other one waits:
until a tick takes the last connection at it, it stays where it is, it cannot be connected and it
cannot be deleted again, and that tick takes the node along and reports it. Of all the calls that
can come in between only a load ends the wait in another way, since it puts another graph in the
place of this one.
-/

set_option autoImplicit false
set_option relaxedAutoImplicit false

namespace LayerCanvas.Graph

variable {C R : Type} [Scalar C] [Scalar R] [Precision C R]

/-- The nodes that a call reports to have gone. -/
def removedBy (g : Graph C R) : Call C R → List NodeId
  | .tick now order => (g.tickIn now order).2.removed
  | _ => []

/-- A deleted node is still there, and something still touches it. -/
structure Waits (g : Graph C R) (id : NodeId) : Prop where
  present : g.contains id = true
  leaving : g.isLeaving id = true
  touched : g.isTouched id = true
  not_connectable : ∀ source target start stop, source = id ∨ target = id →
    g.addConnection? source target start stop = none
  not_deletable : g.deleteNode? id = none

/-- A node waits before and after each of the calls, and none of them reports it. -/
def WaitsThrough (g : Graph C R) (id : NodeId) (calls : List (Call C R)) : Prop :=
  Along (fun g call ↦ g.Waits id ∧ id ∉ g.removedBy call) g calls ∧ (g.applyAll calls).Waits id

/-- A tick takes the last connections at a node, and the node along. -/
structure LeavesIn (g : Graph C R) (id : NodeId) (now : R) (order : SampleOrder C) : Prop where
  purged : ∀ c ∈ g.connections, c.touches id = true → c.id ∈ (g.tickIn now order).2.purged
  untouched : (g.tickIn now order).1.isTouched id = false
  gone : (g.tickIn now order).1.contains id = false
  reported : (g.tickIn now order).2.removed.count id = 1

variable {g g' : Graph C R} {id : NodeId}

omit [Scalar R] [Precision C R] in
theorem waits_of_mem_leaving (h : g.WellFormed) (hs : g.Simple) (hid : id ∈ g.leaving) :
    g.Waits id := by
  constructor
  · exact contains_iff.mpr (h.leaving_mem id hid)
  · exact isLeaving_iff.mpr hid
  · exact hs.isTouched_leaving hid
  · intro source target start stop hends
    by_contra hmade
    obtain ⟨made, hmade⟩ := Option.ne_none_iff_exists'.mp hmade
    obtain ⟨hok, -⟩ := addConnection?_eq_some_iff.mp hmade
    rcases hends with rfl | rfl
    · exact hok.source_stays hid
    · exact hok.target_stays hid
  · by_contra hdel
    obtain ⟨g', hdel⟩ := Option.ne_none_iff_exists'.mp hdel
    exact (deleteNode?_eq_some_iff.mp hdel).2.1 hid

/-! ### One call -/

omit [Scalar R] [Precision C R] in
theorem Change.mem_leaving (hstep : Change g g') (hid : id ∈ g.leaving) : id ∈ g'.leaving := by
  cases hstep with
  | alike hlike => rwa [hlike.leaving]
  | place n serial hn => exact hid
  | connect id source target start stop serial hnew hok => exact hid
  | fade other => rwa [(g.deleteConnection_frame other).2.2.1]
  | remove other hmem hstays huntouched => exact hid
  | await other hmem hstays htouched => exact List.mem_append_left _ hid

omit [Scalar C] in
/-- A tick reports a node that waits exactly when it takes the last connection at it. -/
theorem tickIn_leaving (h : g.WellFormed) (hid : id ∈ g.leaving) (now : R) (order : SampleOrder C) :
    (id ∈ (g.tickIn now order).1.leaving ∧ id ∉ (g.tickIn now order).2.removed) ∨
      g.LeavesIn id now order := by
  obtain ⟨hgraph, hremoved⟩ := tickIn_eq h.tickable now order
  by_cases hreleased : id ∈ g.released now
  · right
    have huntouched : (g.ticked now).isTouched id = false := (mem_released_iff.mp hreleased).2
    constructor
    · intro c hc htouch
      refine (mem_purged_iff h.tickable).mpr ⟨c, hc, rfl, ?_⟩
      -- Had the connection stayed, it would still touch the node.
      by_contra hstays
      obtain ⟨d, hd⟩ := Option.ne_none_iff_exists'.mp hstays
      have htouched : (g.ticked now).isTouched id = true := by
        refine isTouched_iff.mpr ⟨d, mem_connections_ticked_iff.mpr ⟨c, hc, hd⟩, ?_⟩
        obtain ⟨hlink, hdeleting, -⟩ := Connection.after?_frame hd
        rw [Connection.Remains.touches_eq ⟨hlink, fun h ↦ hdeleting.trans h⟩]
        exact htouch
      rw [huntouched] at htouched
      cases htouched
    · rw [hgraph]
      exact huntouched
    · rw [hgraph, ← Bool.not_eq_true, contains_iff]
      intro hmem
      obtain ⟨n, hn, rfl⟩ := List.mem_map.mp hmem
      have hkept := (List.mem_filter.mp hn).2
      simp [hreleased] at hkept
    · rw [hremoved]
      exact List.count_eq_one_of_mem (h.leaving_nodup.filter _) hreleased
  · left
    rw [hgraph, hremoved]
    exact ⟨List.mem_filter.mpr ⟨hid, by simpa using hreleased⟩, hreleased⟩

theorem apply_leaving (h : g.WellFormed) (hid : id ∈ g.leaving) {call : Call C R}
    (hcall : ¬ g.Loads call) :
    (id ∈ (g.apply call).leaving ∧ id ∉ g.removedBy call) ∨
      ∃ now order, call = .tick now order ∧ g.LeavesIn id now order := by
  rcases g.apply_cases call with ⟨-, hsteps⟩ | ⟨now, order, rfl⟩ | ⟨hloads, -⟩
  · cases call with
    | tick now order =>
      exact (tickIn_leaving h hid now order).imp_right fun hleaves ↦ ⟨now, order, rfl, hleaves⟩
    | _ =>
      have hkept := hsteps.keep (fun _ _ hid hstep ↦ hstep.mem_leaving hid) hid
      exact Or.inl ⟨hkept, List.not_mem_nil⟩
  · exact (tickIn_leaving h hid now order).imp_right fun hleaves ↦ ⟨now, order, rfl, hleaves⟩
  · exact absurd hloads hcall

/-! ### All calls -/

theorem waitsThrough_or_leavesIn (h : g.WellFormed) (hs : g.Simple) (hid : id ∈ g.leaving)
    {after : List (Call C R)} (hafter : Along (fun g call ↦ ¬ g.Loads call) g after) :
    g.WaitsThrough id after ∨
      ∃ pre now order post, after = pre ++ .tick now order :: post ∧ g.WaitsThrough id pre ∧
        (g.applyAll pre).LeavesIn id now order := by
  induction after generalizing g with
  | nil => exact Or.inl ⟨trivial, waits_of_mem_leaving h hs hid⟩
  | cons call rest ih =>
    have hwaits : g.Waits id := waits_of_mem_leaving h hs hid
    rcases apply_leaving h hid hafter.1 with ⟨hid', hnot⟩ | ⟨now, order, rfl, hleaves⟩
    · obtain ⟨h', hs'⟩ := Simple.apply ⟨h, hs⟩ call
      rcases ih h' hs' hid' hafter.2 with hrest | ⟨pre, now, order, post, rfl, hpre, hleaves⟩
      · exact Or.inl ⟨⟨⟨hwaits, hnot⟩, hrest.1⟩, hrest.2⟩
      · right
        exact ⟨call :: pre, now, order, post, rfl, ⟨⟨⟨hwaits, hnot⟩, hpre.1⟩, hpre.2⟩, hleaves⟩
    · exact Or.inr ⟨[], now, order, rest, rfl, ⟨trivial, hwaits⟩, hleaves⟩

/-- A node that a run has led to and that is deleted goes at once exactly if nothing touches it. If
it does not, it waits through all calls that follow, or through those before one tick, in which it
goes with the last connection at it and is reported. -/
theorem departure_of_deleteNode (config : EditorConfig C R) (serial : Nat) (calls : List (Call C R))
    (hdel : (run config serial calls).deleteNode? id = some g) {after : List (Call C R)}
    (hafter : Along (fun g call ↦ ¬ g.Loads call) g after) :
    (g.contains id = false ↔ (run config serial calls).isTouched id = false) ∧
      (g.contains id = true →
        g.WaitsThrough id after ∨
          ∃ pre now order post, after = pre ++ .tick now order :: post ∧ g.WaitsThrough id pre ∧
            (g.applyAll pre).LeavesIn id now order) := by
  have hwf : (run config serial calls).WellFormed := wellFormed_run config serial calls
  have hsimple : (run config serial calls).Simple := simple_run config serial calls
  have happly : (run config serial calls).apply (.deleteNode id) = g := by
    rw [apply, deleteNode, hdel]
    rfl
  obtain ⟨h, hs⟩ := Simple.apply ⟨hwf, hsimple⟩ (.deleteNode id)
  rw [happly] at h hs
  obtain ⟨hmem, -, ⟨htouched, hg⟩ | ⟨huntouched, hg⟩⟩ := deleteNode?_eq_some_iff.mp hdel
  · have hid : id ∈ g.leaving := by
      rw [hg]
      exact List.mem_append_right _ (List.mem_singleton_self id)
    have hpresent : g.contains id = true := contains_iff.mpr (h.leaving_mem id hid)
    exact ⟨by simp [hpresent, htouched], fun _ ↦ waitsThrough_or_leavesIn h hs hid hafter⟩
  · have hgone : g.contains id = false := by
      rw [hg, ← Bool.not_eq_true, contains_iff]
      intro hkept
      obtain ⟨n, hn, hnid⟩ := List.mem_map.mp hkept
      simpa [hnid] using (List.mem_filter.mp hn).2
    exact ⟨by simp [hgone, huntouched], fun hpresent ↦ by simp [hgone] at hpresent⟩

/-- Of two nodes with a connection between them the first is deleted, and the second of two ticks
takes it away. -/
theorem departure_of_deleteNode_joined :
    ∃ (calls after : List (Call Float32 Float)) (g : Graph),
      (run .standard 1 calls).deleteNode? ⟨"a"⟩ = some g ∧
        Along (fun g call ↦ ¬ g.Loads call) g after ∧ g.contains ⟨"a"⟩ = true ∧
          ∃ pre now order post, after = pre ++ .tick now order :: post ∧
            g.WaitsThrough ⟨"a"⟩ pre ∧ (g.applyAll pre).LeavesIn ⟨"a"⟩ now order := by
  let layer : Layer := ⟨"Input", "", "", "", .empty, "", ""⟩
  let node (text : String) : Node := ⟨⟨text⟩, layer, ⟨0, 0⟩, 140, 86⟩
  let calls : List (Call Float32 Float) :=
    [.insertNode (node "a"), .insertNode (node "b"), .addConnection ⟨"a"⟩ ⟨"b"⟩ ⟨0, 0⟩ ⟨0, 0⟩]
  let after : List (Call Float32 Float) := [.tick 0 (.listed _), .tick 1000 (.listed _)]
  let g : Graph := (run .standard 1 calls).deleteNode ⟨"a"⟩
  have hsome : ((run .standard 1 calls).deleteNode? ⟨"a"⟩).isSome = true := by decide +kernel
  have hdel : (run .standard 1 calls).deleteNode? ⟨"a"⟩ = some g := by
    rw [← Option.some_get hsome, Option.get_eq_getD]
    rfl
  have hafter : Along (fun g call ↦ ¬ g.Loads call) g after := ⟨id, id, trivial⟩
  have hpresent : g.contains ⟨"a"⟩ = true := by decide +kernel
  have hgone : (g.applyAll after).contains ⟨"a"⟩ = false := by decide +kernel
  obtain ⟨-, hwaits⟩ := departure_of_deleteNode .standard 1 calls hdel hafter
  refine ⟨calls, after, g, hdel, hafter, hpresent, (hwaits hpresent).resolve_left fun hthrough ↦ ?_⟩
  have hstill := hthrough.2.present
  rw [hgone] at hstill
  cases hstill

end LayerCanvas.Graph
