import LayerCanvas.Proofs.Graph.Change
import LayerCanvas.Proofs.Graph.Tick

/-!
Where the nodes of a graph come from. A call places one node at most, and changes one at most: its
position if it is moved, or a parameter if it is set. All others are there before, except that a
load puts new nodes in the place of all. Nothing but placing takes a node without looking at its
geometry.
-/

set_option autoImplicit false
set_option relaxedAutoImplicit false

namespace LayerCanvas

variable {C R : Type}

theorem Node.hasValidGeometry_iff [Scalar C] {n : Node C R} :
    n.hasValidGeometry = true ↔ n.origin.isFinite = true ∧
      Scalar.isPositive n.width = true ∧ Scalar.isPositive n.height = true := by
  simp only [hasValidGeometry, Bool.and_eq_true, and_assoc]

namespace Graph

/-! ### Calls that take nodes out -/

theorem dropNode_frame (g : Graph C R) (id : NodeId) :
    (g.dropNode id).config = g.config ∧
      (g.dropNode id).nodes = g.nodes.filter fun n ↦ n.id != id := by
  have hdropped (attached : List (Connection C)) (g : Graph C R) :
      (attached.foldl (fun g c ↦ g.dropConnection c.id) g).config = g.config ∧
        (attached.foldl (fun g c ↦ g.dropConnection c.id) g).nodes = g.nodes := by
    induction attached generalizing g with
    | nil => exact ⟨rfl, rfl⟩
    | cons c rest ih => exact ih (g.dropConnection c.id)
  unfold dropNode
  obtain ⟨hconfig, hnodes⟩ := hdropped (g.connections.filter fun c ↦ c.touches id) g
  exact ⟨hconfig, congrArg _ hnodes⟩

theorem foldl_dropNode_frame (g : Graph C R) (ids : List NodeId) :
    (ids.foldl dropNode g).config = g.config ∧ (ids.foldl dropNode g).nodes ⊆ g.nodes := by
  induction ids generalizing g with
  | nil => exact ⟨rfl, List.Subset.refl _⟩
  | cons id rest ih =>
    obtain ⟨hconfig, hnodes⟩ := ih (g.dropNode id)
    obtain ⟨hconfig', hnodes'⟩ := g.dropNode_frame id
    rw [hconfig'] at hconfig
    rw [hnodes'] at hnodes
    exact ⟨hconfig, List.Subset.trans hnodes List.filter_sublist.subset⟩

theorem tickWith_frame [Scalar R] (g : Graph C R) (samples : List (TweenSample C)) (now : R) :
    (g.tickWith samples now).1.config = g.config ∧ (g.tickWith samples now).1.nodes ⊆ g.nodes := by
  obtain ⟨hconfig, hnodes, -⟩ :=
    absorbAll_frame { g with animator := g.animator.advance now } samples
  obtain ⟨hconfig', hnodes'⟩ := foldl_dropNode_frame
    ({ g with animator := g.animator.advance now }.absorbAll samples) _
  exact ⟨hconfig'.trans hconfig, hnodes ▸ hnodes'⟩

theorem nodes_deleteNode_subset (g : Graph C R) (id : NodeId) :
    (g.deleteNode id).nodes ⊆ g.nodes := by
  unfold deleteNode
  cases hdel : g.deleteNode? id with
  | none => exact List.Subset.refl _
  | some g' =>
    obtain ⟨-, -, ⟨-, rfl⟩ | ⟨-, rfl⟩⟩ := deleteNode?_eq_some_iff.mp hdel
    · exact fun n hn ↦ (g.fadeAll_frame _).2.1 ▸ hn
    · exact List.filter_sublist.subset

theorem nodes_clear_subset (g : Graph C R) : g.clear.nodes ⊆ g.nodes := by
  have hfold (ids : List NodeId) (g : Graph C R) : (ids.foldl deleteNode g).nodes ⊆ g.nodes := by
    induction ids generalizing g with
    | nil => exact List.Subset.refl _
    | cons id rest ih => exact List.Subset.trans (ih _) (g.nodes_deleteNode_subset id)
  exact hfold _ g

variable [Scalar C]

/-! ### Settings -/

theorem config_load {g g' : Graph C R} {s : Snapshot C R} (h : g.load s = .ok g') :
    g'.config = g.config := by
  refine load_induction (P := fun g' ↦ g'.config = g.config) rfl (fun _ _ _ hconfig hok ↦ ?_)
    (fun _ _ _ hconfig hok ↦ ?_) h
  · obtain ⟨-, -, rfl⟩ := insertNode_eq_ok_iff.mp hok
    exact hconfig
  · obtain ⟨-, -, -, _, _, -, -, rfl⟩ := insertConnection_eq_ok_iff.mp hok
    exact hconfig

/-- No call changes the settings. -/
theorem config_apply [Scalar R] [Precision C R] (g : Graph C R) (call : Call C R) :
    (g.apply call).config = g.config := by
  refine apply_invariant (P := fun g' ↦ g'.config = g.config) (fun g₁ g₂ h hchange ↦ ?_)
    (fun g₁ now order h ↦ (tickWith_frame g₁ _ now).1.trans h)
    (fun g₁ s g₂ h hok ↦ (config_load hok).trans h) g call rfl
  cases hchange with
  | alike halike => exact halike.config.trans h
  | fade id => exact (g₁.deleteConnection_frame id).1.trans h
  | await id => exact (g₁.fadeAll_frame _).1.trans h
  | _ => exact h

theorem hasValidGeometry_of_load {g g' : Graph C R} {s : Snapshot C R} {m : Node C R}
    (h : g.load s = .ok g') (hm : m ∈ g'.nodes) : m.hasValidGeometry = true := by
  refine load_induction (P := fun g' ↦ ∀ m ∈ g'.nodes, m.hasValidGeometry = true) (by simp [empty])
    (fun _ _ n hvalid hok ↦ ?_) (fun _ _ _ hvalid hok ↦ ?_) h m hm
  · obtain ⟨-, hn, rfl⟩ := insertNode_eq_ok_iff.mp hok
    intro m hm
    rcases List.mem_append.mp hm with hm | hm
    · exact hvalid m hm
    · rwa [List.mem_singleton.mp hm]
  · obtain ⟨-, -, -, _, _, -, -, rfl⟩ := insertConnection_eq_ok_iff.mp hok
    exact hvalid

/-! ### All calls -/

variable [Scalar R] [Precision C R]

/-- Where a node comes from that is there after a call. -/
inductive Arises (g : Graph C R) (call : Call C R) (m : Node C R) : Prop
  | kept (h : m ∈ g.nodes)
  | moved {n : Node C R} {origin : Point C} (hn : n ∈ g.nodes)
    (hcall : call = .moveNode n.id origin) (hfinite : origin.isFinite = true)
    (hm : m = { n with origin })
  | tuned {n : Node C R} {name : String} {value : ParamValue R} (hn : n ∈ g.nodes)
    (hcall : call = .setParam n.id name value)
    (hm : m = { n with layer := { n.layer with params := n.layer.params.insert name value } })
  | placed {layer : Layer R} {origin : Point C} (hcall : call = .addNode layer origin)
    (hid : m.id ∉ g.nodeIds)
    (hm : m = ⟨m.id, layer, origin, g.config.nodeWidth, g.config.nodeHeight⟩)
  | inserted (hcall : call = .insertNode m) (hid : m.id ∉ g.nodeIds)
    (hvalid : m.hasValidGeometry = true)
  | loaded (hcall : g.Loads call) (hvalid : m.hasValidGeometry = true)

variable {g : Graph C R} {m : Node C R}

omit [Scalar C] [Scalar R] [Precision C R] in
theorem mem_nodes_updateNode {id : NodeId} {f : Node C R → Node C R}
    (hm : m ∈ (g.updateNode id f).nodes) : m ∈ g.nodes ∨ ∃ n ∈ g.nodes, n.id = id ∧ m = f n := by
  obtain ⟨n, hn, rfl⟩ := List.mem_map.mp hm
  by_cases hid : n.id = id
  · exact Or.inr ⟨n, hn, hid, if_pos hid⟩
  · rw [if_neg hid]
    exact Or.inl hn

theorem arises_moveNode {id : NodeId} {origin : Point C}
    (hm : m ∈ (g.apply (.moveNode id origin)).nodes) : g.Arises (.moveNode id origin) m := by
  by_cases hfinite : origin.isFinite = true
  · cases hnode : g.node? id with
    | none => exact .kept (by simpa [apply, moveNode?, hfinite, hnode] using hm)
    | some _ =>
      have hm : m ∈ (g.updateNode id fun n ↦ { n with origin }).nodes := by
        simpa [apply, moveNode?, hfinite, hnode] using hm
      rcases mem_nodes_updateNode hm with hkept | ⟨n, hn, rfl, heq⟩
      · exact .kept hkept
      · exact .moved hn rfl hfinite heq
  · exact .kept (by simpa [apply, moveNode?, hfinite] using hm)

theorem arises_setParam {id : NodeId} {name : String} {value : ParamValue R}
    (hm : m ∈ (g.apply (.setParam id name value)).nodes) :
    g.Arises (.setParam id name value) m := by
  cases hset : g.setParam id name value with
  | error fault => exact .kept (by simpa [apply, hset, Except.toOption] using hm)
  | ok g' =>
    have hm : m ∈ g'.nodes := by simpa [apply, hset, Except.toOption] using hm
    unfold setParam at hset
    split at hset
    · cases hset
    · split at hset
      · cases hset
      · split_ifs at hset
        cases hset
        rcases mem_nodes_updateNode hm with hkept | ⟨n, hn, rfl, heq⟩
        · exact .kept hkept
        · exact .tuned hn rfl heq

theorem arises_load {call : Call C R} {s : Snapshot C R}
    (hcall : g.apply call = (g.load s).toOption.getD g)
    (hloads : (∃ loaded, g.load s = .ok loaded) → g.Loads call) (hm : m ∈ (g.apply call).nodes) :
    g.Arises call m := by
  rw [hcall] at hm
  cases hload : g.load s with
  | error fault => exact .kept (by simpa [hload, Except.toOption] using hm)
  | ok g' =>
    exact .loaded (hloads ⟨g', hload⟩) (hasValidGeometry_of_load hload
      (by simpa [hload, Except.toOption] using hm))

/-- Every node that is there after a call was there before, perhaps at another place or with another
value of a parameter, or the call put it there. -/
theorem arises_of_mem (g : Graph C R) (call : Call C R) (hm : m ∈ (g.apply call).nodes) :
    g.Arises call m := by
  cases call with
  | addNode layer origin =>
    rcases List.mem_append.mp hm with hm | hm
    · exact .kept hm
    · obtain rfl := List.mem_singleton.mp hm
      exact .placed rfl (NodeId.mint_notMem layer.type g.nodeIds g.serial) rfl
  | insertNode n =>
    cases hinsert : g.insertNode n with
    | error fault => exact .kept (by simpa [apply, hinsert, Except.toOption] using hm)
    | ok g' =>
      obtain ⟨hid, hvalid, rfl⟩ := insertNode_eq_ok_iff.mp hinsert
      have hm : m ∈ g.nodes ++ [n] := by simpa [apply, hinsert, Except.toOption] using hm
      rcases List.mem_append.mp hm with hm | hm
      · exact .kept hm
      · obtain rfl := List.mem_singleton.mp hm
        exact .inserted rfl hid hvalid
  | bringToFront id =>
    rcases List.mem_append.mp hm with hm | hm <;> exact .kept (List.mem_filter.mp hm).1
  | moveNode id origin => exact arises_moveNode hm
  | deleteNode id => exact .kept (g.nodes_deleteNode_subset id hm)
  | clear => exact .kept (g.nodes_clear_subset hm)
  | setParam id name value => exact arises_setParam hm
  | addConnection source target start stop =>
    cases hmade : g.addConnection? source target start stop with
    | none => exact .kept (by simpa [apply, hmade] using hm)
    | some made =>
      obtain ⟨-, rfl⟩ := addConnection?_eq_some_iff.mp hmade
      exact .kept (by simpa [apply, hmade] using hm)
  | deleteConnection id => exact .kept ((g.deleteConnection_frame id).2.1 ▸ hm)
  | tick now order => exact .kept ((tickWith_frame g _ now).2 hm)
  | load s => exact arises_load rfl id hm
  | loadDocument document =>
    cases document with
    | none => exact .kept hm
    | some s => exact arises_load rfl id hm
  | drawNames count => exact .kept hm

/-! ### Sizes and positions -/

/-- Nodes of a positive size are placed, and no node changes its size. -/
theorem sizes_apply (hwidth : Scalar.isPositive g.config.nodeWidth = true)
    (hheight : Scalar.isPositive g.config.nodeHeight = true)
    (h : ∀ n ∈ g.nodes, Scalar.isPositive n.width = true ∧ Scalar.isPositive n.height = true)
    (call : Call C R) : ∀ n ∈ (g.apply call).nodes,
      Scalar.isPositive n.width = true ∧ Scalar.isPositive n.height = true := by
  intro m hm
  cases g.arises_of_mem call hm with
  | kept hold => exact h m hold
  | @moved n _ hn _ _ heq =>
    rw [heq]
    exact h n hn
  | @tuned n _ _ hn _ heq =>
    rw [heq]
    exact h n hn
  | placed _ _ heq =>
    rw [heq]
    exact ⟨hwidth, hheight⟩
  | inserted _ _ hn => exact (Node.hasValidGeometry_iff.mp hn).2
  | loaded _ hn => exact (Node.hasValidGeometry_iff.mp hn).2

/-- As long as nodes are placed at finite positions only, all positions are finite. -/
theorem positions_apply (h : ∀ n ∈ g.nodes, n.origin.isFinite = true) {call : Call C R}
    (hplaced : ∀ layer origin, call = .addNode layer origin → origin.isFinite = true) :
    ∀ n ∈ (g.apply call).nodes, n.origin.isFinite = true := by
  intro m hm
  cases g.arises_of_mem call hm with
  | kept hold => exact h m hold
  | moved _ _ hfinite heq =>
    rw [heq]
    exact hfinite
  | @tuned n _ _ hn _ heq =>
    rw [heq]
    exact h n hn
  | placed hcall _ heq =>
    rw [heq]
    exact hplaced _ _ hcall
  | inserted _ _ hn => exact (Node.hasValidGeometry_iff.mp hn).1
  | loaded _ hn => exact (Node.hasValidGeometry_iff.mp hn).1

end Graph

end LayerCanvas
