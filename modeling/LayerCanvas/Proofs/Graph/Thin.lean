import LayerCanvas.Proofs.Graph.Edit
import Mathlib.Data.List.Forall2

/-!
Steps that make no connection. Such a step leaves some of the connections that there were, in their
order: each of them still joins what it joined, and none of them comes back from fading. So it adds
no name, no pair of nodes that is joined, and no live connection.
-/

set_option autoImplicit false
set_option relaxedAutoImplicit false

namespace LayerCanvas

variable {C R : Type}

/-- What a connection may have become that was there before. -/
structure Connection.Remains (d c : Connection C) : Prop where
  link : d.link = c.link
  isDeleting : c.isDeleting = true → d.isDeleting = true

namespace Connection.Remains

variable {c d e : Connection C}

theorem refl (c : Connection C) : c.Remains c := ⟨rfl, fun h ↦ h⟩

theorem trans (hed : e.Remains d) (hdc : d.Remains c) : e.Remains c :=
  ⟨hed.link.trans hdc.link, fun h ↦ hed.isDeleting (hdc.isDeleting h)⟩

instance : IsTrans (Connection C) Connection.Remains := ⟨fun _ _ _ ↦ trans⟩

theorem id_eq (h : d.Remains c) : d.id = c.id := congrArg Prod.fst h.link

theorem source_eq (h : d.Remains c) : d.source = c.source :=
  congrArg (fun link ↦ link.2.1) h.link

theorem target_eq (h : d.Remains c) : d.target = c.target :=
  congrArg (fun link ↦ link.2.2) h.link

theorem touches_eq (h : d.Remains c) (id : NodeId) : d.touches id = c.touches id := by
  rw [touches, touches, h.source_eq, h.target_eq]

end Connection.Remains

namespace Graph

/-- No connection of a graph is new to another one. -/
def Thins (g' g : Graph C R) : Prop :=
  List.SublistForall₂ Connection.Remains g'.connections g.connections

namespace Thins

variable {g g' : Graph C R}

theorem of_eq (h : g'.connections = g.connections) : Thins g' g := by
  rw [Thins, h, List.sublistForall₂_iff]
  exact ⟨_, List.forall₂_same.mpr fun c _ ↦ .refl c, List.Sublist.refl _⟩

theorem trans {g'' : Graph C R} (h : Thins g'' g') (h' : Thins g' g) : Thins g'' g :=
  Trans.trans (r := List.SublistForall₂ Connection.Remains) h h'

theorem of_filterMap {f : Connection C → Option (Connection C)}
    (hf : ∀ c d, f c = some d → d.Remains c) (h : g'.connections = g.connections.filterMap f) :
    Thins g' g := by
  rw [Thins, h]
  induction g.connections with
  | nil => exact .nil
  | cons c rest ih =>
    cases hc : f c with
    | none =>
      rw [List.filterMap_cons_none hc]
      exact .cons_right ih
    | some d =>
      rw [List.filterMap_cons_some hc]
      exact .cons (hf c d hc) ih

theorem of_map {f : Connection C → Connection C} (hf : ∀ c, (f c).Remains c)
    (h : g'.connections = g.connections.map f) : Thins g' g := by
  rw [Thins, h, List.sublistForall₂_map_left_iff, List.sublistForall₂_iff]
  exact ⟨_, List.forall₂_same.mpr fun c _ ↦ hf c, List.Sublist.refl _⟩

theorem exists_of_mem (h : Thins g' g) {d : Connection C} (hd : d ∈ g'.connections) :
    ∃ c ∈ g.connections, d.Remains c := by
  unfold Thins at h
  generalize g'.connections = after, g.connections = before at h hd ⊢
  induction h with
  | nil => cases hd
  | cons hhead _ ih =>
    rcases List.mem_cons.mp hd with rfl | htail
    · exact ⟨_, List.mem_cons_self, hhead⟩
    · obtain ⟨c, hc, hdc⟩ := ih htail
      exact ⟨c, List.mem_cons_of_mem _ hc, hdc⟩
  | cons_right _ ih =>
    obtain ⟨c, hc, hdc⟩ := ih hd
    exact ⟨c, List.mem_cons_of_mem _ hc, hdc⟩

/-- A node that nothing touches is not touched when no connection is made. -/
theorem isTouched_eq_false (h : Thins g' g) {id : NodeId} (huntouched : g.isTouched id = false) :
    g'.isTouched id = false := by
  by_contra htouched
  obtain ⟨d, hd, htouch⟩ := isTouched_iff.mp (by simpa using htouched)
  obtain ⟨c, hc, hdc⟩ := h.exists_of_mem hd
  rw [isTouched_iff.mpr ⟨c, hc, (hdc.touches_eq id).symm.trans htouch⟩] at huntouched
  cases huntouched

theorem links_sublist (h : Thins g' g) : g'.links.Sublist g.links := by
  unfold Thins at h
  unfold links
  generalize g'.connections = after, g.connections = before at h ⊢
  induction h with
  | nil => exact List.nil_sublist _
  | cons hhead _ ih =>
    rw [List.map_cons, List.map_cons, hhead.link]
    exact ih.cons_cons _
  | cons_right _ ih => exact ih.cons _

theorem live_sublist (h : Thins g' g) :
    (g'.liveConnections.map Connection.link).Sublist (g.liveConnections.map Connection.link) := by
  unfold Thins at h
  unfold liveConnections
  generalize g'.connections = after, g.connections = before at h ⊢
  induction h with
  | nil => exact List.nil_sublist _
  | @cons d c _ _ hhead _ ih =>
    by_cases hc : c.isLive = true
    · rw [List.filter_cons_of_pos hc, List.map_cons]
      by_cases hd : d.isLive = true
      · rw [List.filter_cons_of_pos hd, List.map_cons, hhead.link]
        exact ih.cons_cons _
      · rw [List.filter_cons_of_neg hd]
        exact ih.cons _
    · have hd : ¬ d.isLive = true := by
        rw [Connection.isLive_iff, Bool.not_eq_false] at hc ⊢
        exact hhead.isDeleting hc
      rw [List.filter_cons_of_neg hc, List.filter_cons_of_neg hd]
      exact ih
  | @cons_right c _ _ _ ih =>
    by_cases hc : c.isLive = true
    · rw [List.filter_cons_of_pos hc, List.map_cons]
      exact ih.cons _
    · rw [List.filter_cons_of_neg hc]
      exact ih

theorem deleteConnection (g : Graph C R) (id : ConnectionId) : Thins (g.deleteConnection id) g := by
  rcases g.deleteConnection_eq id with h | ⟨-, h⟩
  · exact .of_eq (congrArg Graph.connections h)
  · refine .of_map (fun c ↦ ?_) (congrArg Graph.connections h)
    split_ifs
    · exact ⟨rfl, fun _ ↦ rfl⟩
    · exact .refl c

theorem fadeAll (g : Graph C R) (ids : List ConnectionId) : Thins (g.fadeAll ids) g := by
  induction ids generalizing g with
  | nil => exact .of_eq rfl
  | cons id rest ih => exact (ih _).trans (.deleteConnection g id)

end Thins

end Graph

end LayerCanvas
