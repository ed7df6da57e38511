import LayerCanvas.Proofs.Graph.Lasting
import LayerCanvas.Snapshot.Json

/-!
What is saved while animations run. A deleted connection is neither saved nor counted from the
moment it is deleted. A deleted node that waits for its connections is: it is part of what is saved,
and is counted, until the tick that takes it away. All the rest of what is saved does not depend on
how far the animations have come, so that a text which is saved while no node waits is the text that
is saved when they are over.
-/

set_option autoImplicit false
set_option relaxedAutoImplicit false

namespace LayerCanvas

theorem Connection.toJson_of_outline {c d : Connection} (h : d.outline = c.outline) :
    d.toJson = c.toJson := by
  simp only [outline, link, Prod.mk.injEq] at h
  obtain ⟨⟨hid, hsource, htarget⟩, hstart, hstop⟩ := h
  simp only [toJson, hid, hsource, htarget, hstart, hstop]

/-- The text of a snapshot tells nothing of a connection but its outline. -/
theorem Snapshot.render_of_outlines {s t : Snapshot} (hnodes : t.nodes = s.nodes)
    (houtlines : t.connections.map Connection.outline = s.connections.map Connection.outline) :
    t.render = s.render := by
  have hjson : t.connections.map Connection.toJson = s.connections.map Connection.toJson := by
    rw [← List.forall₂_eq_eq_eq, List.forall₂_map_left_iff, List.forall₂_map_right_iff]
      at houtlines ⊢
    exact houtlines.imp fun _ _ ↦ Connection.toJson_of_outline
  rw [render, toJson, hnodes, hjson, render, toJson]

namespace Graph

/-- What is saved of a graph, without the nodes that wait. -/
def lasting {C R : Type} (g : Graph C R) : Snapshot C R := ⟨g.stayingNodes, g.liveConnections⟩

/-- What is saved and counted of one graph and of another one that has come from it by ticks. -/
structure SavesAs (g g' : Graph) : Prop where
  /-- Apart from the nodes that wait the same text is saved. -/
  lasting : g'.lasting.render = g.lasting.render
  connections : g'.stats.connections = g.stats.connections
  /-- Apart from the nodes that wait the same number of nodes is counted. -/
  layers : g'.stats.layers + g.leaving.length = g.stats.layers + g'.leaving.length
  stayingNodes : g'.stayingNodes = g.stayingNodes
  nodes : g'.save.nodes.Sublist g.save.nodes
  leaving : g'.leaving.Sublist g.leaving
  /-- The same is saved and counted if no node waits. -/
  whole : g.leaving = [] → g'.save.render = g.save.render ∧ g'.stats = g.stats

theorem Lasts.savesAs {g g' : Graph} (h : Lasts g g') (hwell : g.WellFormed)
    (hwell' : g'.WellFormed) : SavesAs g g' := by
  have hcount : g'.liveConnections.length = g.liveConnections.length := by
    simpa using congrArg List.length h.outlines
  constructor
  · exact Snapshot.render_of_outlines h.stayingNodes h.outlines
  · exact hcount
  · show g'.nodes.length + g.leaving.length = g.nodes.length + g'.leaving.length
    rw [length_nodes hwell, length_nodes hwell', h.stayingNodes]
    omega
  · exact h.stayingNodes
  · exact h.nodes
  · exact h.leaving
  · intro hnone
    have hnone' : g'.leaving = [] := List.sublist_nil.mp (hnone ▸ h.leaving)
    have hnodes : g'.nodes = g.nodes := by
      rw [← stayingNodes_of_leaving hnone', h.stayingNodes, stayingNodes_of_leaving hnone]
    refine ⟨Snapshot.render_of_outlines hnodes h.outlines, ?_⟩
    rw [stats, hnodes, hcount, stats]

/-- After every run no deleted connection is saved. Of the rest, ticks at any times change what is
saved and counted in one respect alone: they take out nodes that were deleted and wait. -/
theorem save_after_ticks (config : EditorConfig) (serial : Nat) (calls : List (Call Float32 Float))
    (ticks : List (Float × SampleOrder Float32)) :
    (∀ c ∈ (run config serial calls).connections, c.isDeleting = true →
      c.id ∉ (run config serial calls).save.connections.map Connection.id) ∧
        SavesAs (run config serial calls) ((run config serial calls).tickAll ticks) := by
  have hwell := wellFormed_run config serial calls
  obtain ⟨hwell', hlasts⟩ := lasts_tickAll hwell (sparesLive_run config serial calls) ticks
  refine ⟨fun c hc hdeleting hsaved ↦ ?_, hlasts.savesAs hwell hwell'⟩
  obtain ⟨d, hd, hid⟩ := List.mem_map.mp hsaved
  obtain ⟨hdmem, hlive⟩ := mem_liveConnections.mp hd
  rw [List.inj_on_of_nodup_map hwell.connectionIds_nodup hdmem hc hid, hdeleting] at hlive
  cases hlive

/-- Of three nodes in a row the first connection is deleted. Two ticks later it has faded, and what
is saved and counted is what it was. -/
theorem save_after_ticks_faded :
    ∃ (calls : List (Call Float32 Float)) (ticks : List (Float × SampleOrder Float32)),
      (run .standard 1 calls).leaving = [] ∧ (run .standard 1 calls).connections.length = 2 ∧
        ((run .standard 1 calls).tickAll ticks).connections.length = 1 ∧
          ((run .standard 1 calls).tickAll ticks).save.render =
              (run .standard 1 calls).save.render ∧
            ((run .standard 1 calls).tickAll ticks).stats = (run .standard 1 calls).stats := by
  let layer : Layer := ⟨"Input", "", "", "", .empty, "", ""⟩
  let node (text : String) : Call Float32 Float := .insertNode ⟨⟨text⟩, layer, ⟨0, 0⟩, 140, 86⟩
  let connect (source target : String) : Call Float32 Float :=
    .addConnection ⟨source⟩ ⟨target⟩ ⟨0, 0⟩ ⟨0, 0⟩
  let calls : List (Call Float32 Float) :=
    [node "a", node "b", node "c", connect "a" "b", connect "b" "c", .deleteConnection ⟨"conn-1"⟩]
  let ticks : List (Float × SampleOrder Float32) := [(0, .listed _), (1000, .listed _)]
  have hnone : (run .standard 1 calls).leaving = [] := by decide +kernel
  have hbefore : (run .standard 1 calls).connections.length = 2 := by decide +kernel
  have hafter : ((run .standard 1 calls).tickAll ticks).connections.length = 1 := by decide +kernel
  obtain ⟨-, hsaves⟩ := save_after_ticks .standard 1 calls ticks
  exact ⟨calls, ticks, hnone, hbefore, hafter, hsaves.whole hnone⟩

/-- Ticks can change what is saved and counted: a deleted node that waits for a connection to fade
is saved and counted, and two ticks later it is not. -/
theorem not_save_unchanged_by_ticks :
    ¬ ∀ (config : EditorConfig) (serial : Nat) (calls : List (Call Float32 Float))
      (ticks : List (Float × SampleOrder Float32)), config.validate = .ok () →
        (∀ tick ∈ ticks, Scalar.isFinite tick.1 = true) →
          (ticks.map Prod.fst).Pairwise (fun earlier later ↦ earlier ≤ later) →
            ((run config serial calls).tickAll ticks).save.render =
                (run config serial calls).save.render ∧
              ((run config serial calls).tickAll ticks).stats =
                (run config serial calls).stats := by
  intro h
  let layer : Layer := ⟨"Input", "", "", "", .empty, "", ""⟩
  let node (text : String) : Call Float32 Float := .insertNode ⟨⟨text⟩, layer, ⟨0, 0⟩, 140, 86⟩
  let calls : List (Call Float32 Float) :=
    [node "a", node "b", .addConnection ⟨"a"⟩ ⟨"b"⟩ ⟨0, 0⟩ ⟨0, 0⟩, .deleteNode ⟨"a"⟩]
  let ticks : List (Float × SampleOrder Float32) := [(0, .listed _), (1000, .listed _)]
  have hconfig : (EditorConfig.standard : EditorConfig).validate = .ok () := by decide +kernel
  have hfinite : ∀ tick ∈ ticks, Scalar.isFinite tick.1 = true := by decide +kernel
  have hordered : (ticks.map Prod.fst).Pairwise fun earlier later ↦ earlier ≤ later := by
    decide +kernel
  have hbefore : (run .standard 1 calls).stats = ⟨2, 0⟩ := by decide +kernel
  have hafter : ((run .standard 1 calls).tickAll ticks).stats = ⟨1, 0⟩ := by decide +kernel
  obtain ⟨-, hstats⟩ := h .standard 1 calls ticks hconfig hfinite hordered
  rw [hbefore, hafter] at hstats
  exact absurd hstats (by decide)

end Graph

end LayerCanvas
