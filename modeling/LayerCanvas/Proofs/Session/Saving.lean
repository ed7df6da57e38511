import LayerCanvas.Proofs.Session.Anchors
import LayerCanvas.Proofs.Session.Geometry
import LayerCanvas.Proofs.Session.Hold
import LayerCanvas.Proofs.Snapshot.Numbers
import LayerCanvas.Proofs.Snapshot.Reload
import LayerCanvas.Proofs.Snapshot.Save

/-!
Saving a session and loading what was saved. Positions and sizes of nodes are checked when they
come in, but what is saved beside them are sums of the two, the ends of the connections, which are
not: where nodes are as large as numbers get, a sum can pass the largest number, and then it is
written as `null` and the text cannot be loaded by any session. The positions and these sums are all
that has to be finite.
-/

set_option autoImplicit false
set_option relaxedAutoImplicit false

namespace LayerCanvas

/-! ### Parameters -/

namespace Session

/-- The parameter values among some requests are finite. -/
def FiniteValues (requests : List Request) : Prop :=
  ∀ id name x, .setParam id name (.number x) ∈ requests → Scalar.isFinite x = true

theorem finite_of_mem_calls {s : Session} {request : Request} (hvalues : FiniteValues [request])
    {call : GraphCall} (h : call ∈ s.calls request) :
    ∀ x ∈ call.doubles, Scalar.isFinite x = true := by
  cases makes_of_mem_calls h with
  | acts _ hmakes => cases hmakes <;> exact List.forall_mem_nil _
  | drops hlayer _ => exact Layer.isFinite_of_parse? hlayer
  | sets id name value =>
    cases value with
    | number x =>
      intro y hy
      rw [List.mem_singleton.mp hy]
      exact hvalues id name x List.mem_cons_self
    | _ => exact List.forall_mem_nil _
  | loads text =>
    intro x hx
    cases hparse : Snapshot.parse? text with
    | none =>
      rw [hparse] at hx
      cases hx
    | some saved =>
      rw [hparse] at hx
      exact Snapshot.isFinite_of_parse? hparse x hx
  | _ => exact List.forall_mem_nil _

/-- The numbers of the parameters are finite after every run. -/
theorem doubles_run (config : EditorConfig) {requests : List Request}
    (hvalues : FiniteValues requests) :
    ∀ x ∈ (run config requests).graph.save.doubles, Scalar.isFinite x = true := by
  induction requests using List.reverseRecOn with
  | nil => exact fun x hx ↦ nomatch hx
  | append_singleton requests request ih =>
    have hfirst : FiniteValues requests := fun id name x hx ↦
      hvalues id name x (List.mem_append_left _ hx)
    have hlast : FiniteValues [request] := fun id name x hx ↦
      hvalues id name x (List.mem_append_right _ hx)
    rw [run_concat, graph_serve]
    refine Graph.applyAll_induction (P := fun g ↦ ∀ x ∈ g.save.doubles, Scalar.isFinite x = true)
      (fun g call hcall hg x hx ↦ ?_) _ (fun call hcall ↦ finite_of_mem_calls hlast hcall) _
      (ih hfirst)
    rcases List.mem_append.mp (g.doubles_apply_subset call hx) with hold | hnew
    · exact hg x hold
    · exact hcall x hnew

end Session

/-! ### Positions and ends -/

theorem Snapshot.singles_finite_iff {s : Snapshot} :
    (∀ x ∈ s.singles, Scalar.isFinite x = true) ↔
      (∀ n ∈ s.nodes, n.origin.isFinite = true ∧ Scalar.isFinite n.width = true ∧
        Scalar.isFinite n.height = true) ∧
      ∀ c ∈ s.connections, c.start.isFinite = true ∧ c.stop.isFinite = true := by
  simp only [singles, List.forall_mem_append, List.forall_mem_flatMap, Node.singles,
    Connection.singles, List.forall_mem_cons, List.not_mem_nil, false_imp_iff, implies_true,
    and_true, Point.isFinite, Bool.and_eq_true, and_assoc]

/-- The nodes of a graph are at finite positions, and so are the anchors that its live connections
join. -/
structure Graph.InRange (g : Graph) : Prop where
  origin : ∀ n ∈ g.nodes, n.origin.isFinite = true
  output : ∀ c ∈ g.liveConnections, ∀ n ∈ g.node? c.source, n.outputAnchor.isFinite = true
  input : ∀ c ∈ g.liveConnections, ∀ n ∈ g.node? c.target, n.inputAnchor.isFinite = true

namespace Session

/-- The single-precision numbers that are saved are finite if those are that come in or are computed
of others. -/
theorem singles_run {config : EditorConfig} (hconfig : config.validate = .ok ())
    (requests : List Request) :
    (∀ x ∈ (run config requests).graph.save.singles, Scalar.isFinite x = true) ↔
      (run config requests).graph.InRange := by
  have hends := ends_at_anchors_run config requests
  rw [Snapshot.singles_finite_iff]
  constructor
  · rintro ⟨hnodes, hconnections⟩
    refine ⟨fun n hn ↦ (hnodes n hn).1, fun c hc n hn ↦ ?_, fun c hc n hn ↦ ?_⟩
    · obtain ⟨source, -, hsource, -, hstart, -⟩ := hends c (List.mem_filter.mp hc).1
      obtain rfl : source = n := Option.some.inj (hsource.symm.trans hn)
      exact hstart ▸ (hconnections c hc).1
    · obtain ⟨-, target, -, htarget, -, hstop⟩ := hends c (List.mem_filter.mp hc).1
      obtain rfl : target = n := Option.some.inj (htarget.symm.trans hn)
      exact hstop ▸ (hconnections c hc).2
  · intro h
    refine ⟨fun n hn ↦ ?_, fun c hc ↦ ?_⟩
    · obtain ⟨hwidth, hheight⟩ := sizes_run hconfig requests n hn
      exact ⟨h.origin n hn, (Bool.and_eq_true_iff.mp hwidth).1, (Bool.and_eq_true_iff.mp hheight).1⟩
    · obtain ⟨source, target, hsource, htarget, hstart, hstop⟩ :=
        hends c (List.mem_filter.mp hc).1
      rw [hstart, hstop]
      exact ⟨h.output c hc source hsource, h.input c hc target htarget⟩

/-- A text with a `null` in it cannot be loaded. -/
theorem load_eq_unreadable {s : Snapshot} (h : ¬ Json.AllFinite s.singles s.doubles)
    (other : Session) : other.load s.render = .error .unreadable := by
  have hload : other.graph.loadText s.render = .error .unreadable := by
    rw [Graph.loadText]
    cases hparse : Snapshot.parse? s.render with
    | none => rfl
    | some s' => exact absurd (Snapshot.allFinite_of_parse?_render hparse) h
  rw [load, hload]
  rfl

/-- A run with settings that pass their check and with finite values of parameters leaves a graph
of which all numbers that are saved are finite, if and only if its nodes and the anchors that its
live connections join are at finite positions. The text then holds no `null`, and every session can
load it; otherwise it holds one, and no session can. -/
theorem saved_loads_iff_inRange {config : EditorConfig} (hconfig : config.validate = .ok ())
    {requests : List Request} (hvalues : FiniteValues requests) :
    let g := (run config requests).graph
    (∀ x ∈ g.save.doubles, Scalar.isFinite x = true) ∧
      ((∀ x ∈ g.save.singles, Scalar.isFinite x = true) ↔ g.InRange) ∧
        (Json.HasNull g.save.render ↔ ¬ g.InRange) ∧
          (g.InRange → ∀ other : Session, ∃ loaded, other.load g.save.render = .ok loaded) ∧
            (¬ g.InRange → ∀ other : Session, other.load g.save.render = .error .unreadable) := by
  intro g
  have hdoubles := doubles_run config hvalues
  have hsingles := singles_run hconfig requests
  have hfinite : Json.AllFinite g.save.singles g.save.doubles ↔ g.InRange :=
    ⟨fun h ↦ hsingles.mp h.1, fun h ↦ ⟨hsingles.mpr h, hdoubles⟩⟩
  refine ⟨hdoubles, hsingles, ?_, fun hrange other ↦ ?_, fun hrange other ↦ ?_⟩
  · rw [Snapshot.hasNull_render_iff, hfinite]
  · have hvalid : ∀ n ∈ g.nodes, n.hasValidGeometry = true := fun n hn ↦
      Node.hasValidGeometry_iff.mpr ⟨hrange.origin n hn, sizes_run hconfig requests n hn⟩
    obtain ⟨saved, hparse, hsound⟩ := Snapshot.exists_parse?_render (hfinite.mpr hrange)
      (Graph.sound_save (wellFormed_graph_run config requests) (simple_graph_run config requests)
        hvalid)
    have hload : other.graph.loadText g.save.render = .ok (other.graph.ofSnapshot saved) := by
      rw [Graph.loadText, hparse]
      exact other.graph.load_of_sound hsound
    exact ⟨_, by rw [load, hload]; rfl⟩
  · exact load_eq_unreadable (fun h ↦ hrange (hfinite.mp h)) other

/-- Two nodes are dropped and connected, and a parameter of one of them is set. The text that is
saved then holds no `null`, and a new session loads it. -/
theorem saved_loads_iff_inRange_connected :
    ∃ (requests : List Request) (loaded : Session),
      (EditorConfig.standard : EditorConfig).validate = .ok () ∧ FiniteValues requests ∧
        (run .standard requests).graph.save.doubles = [1 / 3] ∧
          (run .standard requests).graph.liveConnections.length = 1 ∧
            ¬ Json.HasNull (run .standard requests).graph.save.render ∧
              (new .standard).load (run .standard requests).graph.save.render = .ok loaded := by
  let payload : String :=
    "\x7b\"type\":\"Dropout\",\"label\":\"\",\"params\":\x7b\"rate\":0.5\x7d\x7d"
  let other : String := "\x7b\"type\":\"Input\",\"label\":\"\"\x7d"
  let requests : List Request :=
    [.drop payload ⟨0, 0⟩, .drop other ⟨0, 200⟩, .connect ⟨"Dropout-1"⟩ ⟨"Input-2"⟩,
      .setParam ⟨"Dropout-1"⟩ "rate" (.number (1 / 3))]
  have hconfig : (EditorConfig.standard : EditorConfig).validate = .ok () := by decide +kernel
  have hvalue : Scalar.isFinite (1 / 3 : Float) = true := by decide +kernel
  have hvalues : FiniteValues requests := by
    intro id name x hx
    simp only [requests, List.mem_cons, List.not_mem_nil, or_false, reduceCtorEq, false_or,
      Request.setParam.injEq, ParamValue.number.injEq] at hx
    rw [hx.2.2]
    exact hvalue
  have hfinite : ∀ x ∈ (run .standard requests).graph.save.singles, Scalar.isFinite x = true := by
    decide +kernel
  have hdoubles : (run .standard requests).graph.save.doubles = [1 / 3] := by decide +kernel
  have hlive : (run .standard requests).graph.liveConnections.length = 1 := by decide +kernel
  obtain ⟨-, hsingles, hnull, hloads, -⟩ := saved_loads_iff_inRange hconfig hvalues
  have hrange := hsingles.mp hfinite
  obtain ⟨loaded, hloaded⟩ := hloads hrange (new .standard)
  exact ⟨requests, loaded, hconfig, hvalues, hdoubles, hlive, fun h ↦ hnull.mp h hrange, hloaded⟩

/-- A document with a node so far to the right and so wide that the middle of it is past the largest
number, and with a connection from it. The document is loaded and saved, and cannot be loaded. -/
theorem unreadable_save :
    ∃ text : String, (EditorConfig.standard : EditorConfig).validate = .ok () ∧
      FiniteValues [.load text] ∧
        (∀ n ∈ (run .standard [.load text]).graph.nodes, n.hasValidGeometry = true) ∧
          (∃ x ∈ (run .standard [.load text]).graph.save.singles, Scalar.isFinite x = false) ∧
            Json.HasNull (run .standard [.load text]).graph.save.render ∧
              ∀ other : Session,
                other.load (run .standard [.load text]).graph.save.render = .error .unreadable := by
  let wide : String :=
    "\x7b\"id\":\"a\",\"type\":\"Input\",\"label\":\"\",\"x\":3e38,\"y\":0," ++
      "\"width\":3e38,\"height\":86\x7d"
  let below : String :=
    "\x7b\"id\":\"b\",\"type\":\"Input\",\"label\":\"\",\"x\":0,\"y\":200," ++
      "\"width\":140,\"height\":86\x7d"
  let connection : String :=
    "\x7b\"id\":\"c\",\"from\":\"a\",\"to\":\"b\",\"fromX\":0,\"fromY\":0,\"toX\":0,\"toY\":0\x7d"
  let text : String :=
    "\x7b\"nodes\":[" ++ wide ++ "," ++ below ++ "],\"connections\":[" ++ connection ++ "]\x7d"
  have hloaded : (∀ n ∈ (run .standard [.load text]).graph.nodes, n.hasValidGeometry = true) ∧
      ∃ x ∈ (run .standard [.load text]).graph.save.singles, Scalar.isFinite x = false := by
    decide +kernel
  have hvalues : FiniteValues [.load text] := fun id name x hx ↦ by simp at hx
  obtain ⟨hvalid, x, hx, hinfinite⟩ := hloaded
  have hnot : ¬ Json.AllFinite (run .standard [.load text]).graph.save.singles
      (run .standard [.load text]).graph.save.doubles := fun h ↦
    Bool.false_ne_true (hinfinite.symm.trans (h.1 x hx))
  exact ⟨text, by decide +kernel, hvalues, hvalid, ⟨x, hx, hinfinite⟩,
    Snapshot.hasNull_render_iff.mpr hnot, load_eq_unreadable hnot⟩

end Session

end LayerCanvas
