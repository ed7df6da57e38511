import LayerCanvas.Proofs.Graph.Nodes
import LayerCanvas.Proofs.Graph.WellFormed
import LayerCanvas.Proofs.InPlace.Graph
import LayerCanvas.Proofs.Param

/-!
What a node keeps. From the call that puts a node in to the call that takes it out, its name, its
layer, its size and the names and kinds of its parameters are fixed. It goes only where an accepted
move puts it, and a parameter takes on only values that accepted edits give it. An edit of a
parameter can be refused for three reasons, of which the first that applies is reported.
-/

set_option autoImplicit false
set_option relaxedAutoImplicit false

namespace LayerCanvas

variable {C R : Type}

/-- The part of a node that is fixed when it is put in. -/
structure Identity (C : Type) where
  id : NodeId
  type : String
  label : String
  iconName : String
  color : String
  inputShape : String
  outputShape : String
  width : C
  height : C
  kinds : List (String × ParamKind)

namespace Node

def identity (n : Node C R) : Identity C where
  id := n.id
  type := n.layer.type
  label := n.layer.label
  iconName := n.layer.iconName
  color := n.layer.color
  inputShape := n.layer.inputShape
  outputShape := n.layer.outputShape
  width := n.width
  height := n.height
  kinds := n.layer.params.kinds

theorem identity_withParams {n : Node C R} {params : Params R}
    (h : params.kinds = n.layer.params.kinds) : (n.withParams params).identity = n.identity := by
  simp only [identity, withParams, h]

end Node

namespace Graph

variable {g g' : Graph C R} {n m : Node C R}

/-! ### Edits of parameters -/

/-- Why an edit of a parameter is refused. Each reason rules out those before it. -/
inductive ParamFault (g : Graph C R) (id : NodeId) (name : String) (value : ParamValue R) :
    ParamError → Prop
  | unknownNode (h : id ∉ g.nodeIds) : ParamFault g id name value (.unknownNode id)
  | unknownParam {n : Node C R} (hn : n ∈ g.nodes) (hid : n.id = id)
    (h : n.layer.params.find? name = none) : ParamFault g id name value (.unknownParam id name)
  | kindMismatch {n : Node C R} {old : ParamValue R} (hn : n ∈ g.nodes) (hid : n.id = id)
    (h : n.layer.params.find? name = some old) (hkind : old.kind ≠ value.kind) :
    ParamFault g id name value (.kindMismatch name old.kind value.kind)

/-- One graph is another one but for a parameter of a node, which has another value of its kind. -/
def SetsParam (g : Graph C R) (id : NodeId) (name : String) (value : ParamValue R)
    (g' : Graph C R) : Prop :=
  ∃ n ∈ g.nodes, n.id = id ∧ ∃ params : Params R, params.kinds = n.layer.params.kinds ∧
    (∀ other, params.find? other =
      if other = name then some value else n.layer.params.find? other) ∧
    g' = g.updateNode id fun n ↦ n.withParams params

theorem updateNode_congr (h : g.nodeIds.Nodup) (hn : n ∈ g.nodes) {f f' : Node C R → Node C R}
    (hf : f n = f' n) : g.updateNode n.id f = g.updateNode n.id f' := by
  unfold updateNode
  congr 1
  refine List.map_congr_left fun m hm ↦ ?_
  split_ifs with hid
  · rw [List.inj_on_of_nodup_map h hm hn hid, hf]
  · rfl

theorem setParam_eq_error_iff (h : g.nodeIds.Nodup) {id : NodeId} {name : String}
    {value : ParamValue R} {fault : ParamError} :
    g.setParam id name value = .error fault ↔ g.ParamFault id name value fault := by
  constructor
  · intro hfault
    unfold setParam at hfault
    cases hnode : g.node? id with
    | none =>
      simp only [hnode, Except.error.injEq] at hfault
      exact hfault ▸ .unknownNode (node?_eq_none_iff.mp hnode)
    | some n =>
      obtain ⟨hn, hid⟩ := (node?_eq_some_iff h).mp hnode
      cases hold : n.layer.params.find? name with
      | none =>
        simp only [hnode, hold, Except.error.injEq] at hfault
        exact hfault ▸ .unknownParam hn hid hold
      | some old =>
        simp only [hnode, hold] at hfault
        split_ifs at hfault with hkind
        cases hfault
        exact .kindMismatch hn hid hold hkind
  · rintro (hid | ⟨hn, hid, hold⟩ | ⟨hn, hid, hold, hkind⟩)
    · simp only [setParam, node?_eq_none_iff.mpr hid]
    · simp only [setParam, (node?_eq_some_iff h).mpr ⟨hn, hid⟩, hold]
    · simp only [setParam, (node?_eq_some_iff h).mpr ⟨hn, hid⟩, hold, ne_eq, hkind,
        not_false_eq_true, if_true]

theorem setsParam_of_setParam (h : g.nodeIds.Nodup) {id : NodeId} {name : String}
    {value : ParamValue R} (hok : g.setParam id name value = .ok g') :
    g.SetsParam id name value g' := by
  obtain ⟨n, hnode, old, hold, hkind, rfl⟩ := setParam_eq_ok_iff.mp hok
  obtain ⟨hn, rfl⟩ := (node?_eq_some_iff h).mp hnode
  exact ⟨n, hn, rfl, n.layer.params.insert name value, Params.kinds_insert hold hkind,
    fun other ↦ Params.find?_insert n.layer.params name other value, updateNode_congr h hn rfl⟩

/-- An edit that is made in place and refused leaves the graph as it is. -/
theorem outcome_setParamInPlace_of_error {id : NodeId} {name : String} {value : ParamValue R}
    {fault : ParamError} (h : g.setParam id name value = .error fault) :
    (setParamInPlace id name value).outcome g = (.error (.param fault), g) := by
  rw [(atomic_setParamInPlace id name value).outcome_eq, result_setParamInPlace, h]
  rfl

/-! ### One call -/

variable [Scalar C] [Scalar R] [Precision C R]

/-- What a call makes of a node that is there before and after it. -/
inductive Follows (g : Graph C R) (call : Call C R) (n m : Node C R) : Prop
  | same (h : m = n)
  | moved {origin : Point C} (hcall : call = .moveNode n.id origin)
    (hok : (g.moveNode? n.id origin).isSome = true) (h : m = { n with origin })
  | tuned {name : String} {value old : ParamValue R} (hcall : call = .setParam n.id name value)
    (hok : g.setParam n.id name value = .ok (g.apply call))
    (hold : n.layer.params.find? name = some old) (hkind : old.kind = value.kind)
    (h : m = n.withParams (n.layer.params.insert name value))

/-- A call that loads nothing and leaves a node where it is. -/
def Keeps (id : NodeId) (g : Graph C R) (call : Call C R) : Prop :=
  ¬ g.Loads call ∧ id ∈ (g.apply call).nodeIds

theorem follows_apply (h : g.WellFormed) {call : Call C R} (hcall : ¬ g.Loads call)
    (hn : n ∈ g.nodes) (hm : m ∈ (g.apply call).nodes) (hid : m.id = n.id) :
    g.Follows call n m := by
  have huniq {k : Node C R} (hk : k ∈ g.nodes) (hkn : k.id = n.id) : k = n :=
    List.inj_on_of_nodup_map h.nodeIds_nodup hk hn hkn
  have hnew : m.id ∈ g.nodeIds := hid ▸ List.mem_map_of_mem hn
  cases g.arises_of_mem call hm with
  | kept hold => exact .same (huniq hold hid)
  | @moved k origin hk hmove hfinite hmk =>
    obtain rfl := huniq hk (by rw [← hid, hmk])
    have hnode := (node?_eq_some_iff h.nodeIds_nodup).mpr ⟨hk, rfl⟩
    exact .moved hmove (by simp [moveNode?, hfinite, hnode]) hmk
  | @tuned k name value hk hset hmk =>
    obtain rfl := huniq hk (by rw [← hid, hmk])
    have hnode := (node?_eq_some_iff h.nodeIds_nodup).mpr ⟨hk, rfl⟩
    cases hres : g.setParam k.id name value with
    | error fault =>
      have hsame : g.apply call = g := by simp [hset, apply, hres, Except.toOption]
      exact .same (huniq (hsame ▸ hm) hid)
    | ok changed =>
      have hchanged : g.apply call = changed := by simp [hset, apply, hres, Except.toOption]
      obtain ⟨k', hk', old, hold, hkind, -⟩ := setParam_eq_ok_iff.mp hres
      obtain rfl : k = k' := Option.some.inj (hnode.symm.trans hk')
      exact .tuned hset (hchanged ▸ hres) hold hkind hmk
  | placed _ hfresh _ => exact absurd hnew hfresh
  | inserted _ hfresh _ => exact absurd hnew hfresh
  | loaded hloads _ => exact absurd hloads hcall

namespace Follows

variable {call : Call C R}

theorem identity (h : g.Follows call n m) : m.identity = n.identity := by
  cases h with
  | same h => rw [h]
  | moved _ _ h =>
    rw [h]
    rfl
  | tuned _ _ hold hkind h =>
    rw [h]
    exact Node.identity_withParams (Params.kinds_insert hold hkind)

theorem origin (h : g.Follows call n m) (hne : m.origin ≠ n.origin) :
    call = .moveNode n.id m.origin ∧ (g.moveNode? n.id m.origin).isSome = true := by
  cases h with
  | same h => exact absurd (congrArg Node.origin h) hne
  | moved hcall hok h =>
    subst h
    exact ⟨hcall, hok⟩
  | tuned _ _ _ _ h => exact absurd (congrArg Node.origin h) hne

theorem params (h : g.Follows call n m) {name : String}
    (hne : m.layer.params.find? name ≠ n.layer.params.find? name) :
    ∃ value, m.layer.params.find? name = some value ∧ call = .setParam n.id name value ∧
      ∃ g', g.setParam n.id name value = .ok g' := by
  cases h with
  | same h => exact absurd (by rw [h]) hne
  | moved _ _ h => exact absurd (by rw [h]) hne
  | @tuned set value _ hcall hok _ _ h =>
    have hfind : m.layer.params.find? name =
        if name = set then some value else n.layer.params.find? name := by
      rw [h]
      exact Params.find?_insert n.layer.params set name value
    by_cases hname : name = set
    · subst hname
      exact ⟨value, hfind.trans (if_pos rfl), hcall, _, hok⟩
    · exact absurd (hfind.trans (if_neg hname)) hne

end Follows

/-! ### The time of a node in the graph -/

/-- What calls make of a node that is there all the time. -/
structure Retains (g : Graph C R) (calls : List (Call C R)) (n m : Node C R) : Prop where
  identity : m.identity = n.identity
  /-- Only an accepted move of the node puts it elsewhere. -/
  origin : m.origin ≠ n.origin → ∃ first last, calls = first ++ .moveNode n.id m.origin :: last ∧
    ((g.applyAll first).moveNode? n.id m.origin).isSome = true
  /-- Only an accepted edit of a parameter gives it another value. -/
  params : ∀ name, m.layer.params.find? name ≠ n.layer.params.find? name →
    ∃ value, m.layer.params.find? name = some value ∧
      ∃ first last, calls = first ++ .setParam n.id name value :: last ∧
        ∃ g', (g.applyAll first).setParam n.id name value = .ok g'

namespace Retains

theorem refl (g : Graph C R) (n : Node C R) : g.Retains [] n n :=
  ⟨rfl, fun h ↦ absurd rfl h, fun _ h ↦ absurd rfl h⟩

theorem cons {call : Call C R} {rest : List (Call C R)} {k : Node C R} (hfirst : g.Follows call n k)
    (hrest : (g.apply call).Retains rest k m) : g.Retains (call :: rest) n m := by
  have hid : k.id = n.id := congrArg Identity.id hfirst.identity
  refine ⟨hrest.identity.trans hfirst.identity, fun hne ↦ ?_, fun name hne ↦ ?_⟩
  · by_cases hlast : m.origin = k.origin
    · obtain ⟨hcall, hok⟩ := hfirst.origin (hlast ▸ hne)
      rw [← hlast] at hcall hok
      exact ⟨[], rest, by rw [hcall, List.nil_append], hok⟩
    · obtain ⟨first, last, rfl, hok⟩ := hrest.origin hlast
      rw [hid] at hok
      exact ⟨call :: first, last, by rw [hid, List.cons_append], hok⟩
  · by_cases hlast : m.layer.params.find? name = k.layer.params.find? name
    · obtain ⟨value, hvalue, hcall, hok⟩ := hfirst.params (hlast ▸ hne)
      exact ⟨value, hlast.trans hvalue, [], rest, by rw [hcall, List.nil_append], hok⟩
    · obtain ⟨value, hvalue, first, last, rfl, hok⟩ := hrest.params name hlast
      rw [hid] at hok
      exact ⟨value, hvalue, call :: first, last, by rw [hid, List.cons_append], hok⟩

end Retains

theorem exists_retains (h : g.WellFormed) (hn : n ∈ g.nodes) {calls : List (Call C R)}
    (hcalls : Along (Keeps n.id) g calls) :
    ∃ m ∈ (g.applyAll calls).nodes, g.Retains calls n m := by
  induction calls generalizing g n with
  | nil => exact ⟨n, hn, .refl g n⟩
  | cons call rest ih =>
    obtain ⟨⟨hload, hmem⟩, hrest⟩ := hcalls
    obtain ⟨k, hk, hid⟩ := List.mem_map.mp hmem
    have hfirst : g.Follows call n k := follows_apply h hload hn hk hid
    obtain ⟨m, hm, hretains⟩ := ih (h.apply call) hk (hid ▸ hrest)
    exact ⟨m, hm, .cons hfirst hretains⟩

/-- For as long as a node is in the graph of a run, it is what it was but for its place and the
values of its parameters, and these change only in accepted moves and edits. An edit of a parameter
changes that value and nothing else, or is refused for the first reason there is and changes nothing
at all. -/
theorem identity_fixed_run (config : EditorConfig C R) (serial : Nat) (before : List (Call C R)) :
    (∀ n ∈ (run config serial before).nodes, ∀ after,
      Along (Keeps n.id) (run config serial before) after →
        ∃ m ∈ (run config serial (before ++ after)).nodes,
          (run config serial before).Retains after n m) ∧
    ∀ id name value,
      (∀ g', (run config serial before).setParam id name value = .ok g' →
        (run config serial before).SetsParam id name value g') ∧
      ∀ fault,
        ((run config serial before).setParam id name value = .error fault ↔
          (run config serial before).ParamFault id name value fault) ∧
        ((run config serial before).setParam id name value = .error fault →
          (setParamInPlace id name value).outcome (run config serial before) =
            (.error (.param fault), run config serial before)) := by
  have h : (run config serial before).WellFormed := wellFormed_run config serial before
  refine ⟨fun n hn after hafter ↦ ?_, fun id name value ↦ ⟨fun g' hok ↦ ?_, fun fault ↦ ⟨?_, ?_⟩⟩⟩
  · rw [run_append]
    exact exists_retains h hn hafter
  · exact setsParam_of_setParam h.nodeIds_nodup hok
  · exact setParam_eq_error_iff h.nodeIds_nodup
  · exact outcome_setParamInPlace_of_error

/-- A connected node that is moved, raised, edited and deleted, and waits for its connection. -/
theorem identity_fixed_run_edited :
    ∃ (before after : List (Call Float32 Float)) (n : Node),
      n ∈ (run .standard 1 before).nodes ∧ Along (Keeps n.id) (run .standard 1 before) after ∧
        (run .standard 1 (before ++ after)).isLeaving n.id = true ∧
          ∃ m ∈ (run .standard 1 (before ++ after)).nodes, m.origin ≠ n.origin ∧
            m.layer.params ≠ n.layer.params ∧ (run .standard 1 before).Retains after n m := by
  let layer : Layer := ⟨"Dropout", "", "", "", .ofList [("p", .number 0)], "", ""⟩
  let n : Node := ⟨⟨"a"⟩, layer, ⟨0, 0⟩, 140, 86⟩
  let before : List (Call Float32 Float) :=
    [.insertNode n, .addNode layer ⟨0, 400⟩, .addConnection ⟨"a"⟩ ⟨"Dropout-1"⟩ ⟨0, 0⟩ ⟨0, 0⟩]
  let after : List (Call Float32 Float) :=
    [.moveNode ⟨"a"⟩ ⟨100, 0⟩, .bringToFront ⟨"a"⟩, .setParam ⟨"a"⟩ "p" (.number 1),
      .setParam ⟨"a"⟩ "p" (.bool true), .tick 0 (.listed _), .deleteNode ⟨"a"⟩]
  have hn : n ∈ (run .standard 1 before).nodes := by decide +kernel
  have hafter : Along (Keeps n.id) (run .standard 1 before) after :=
    ⟨⟨id, by decide +kernel⟩, ⟨id, by decide +kernel⟩, ⟨id, by decide +kernel⟩,
      ⟨id, by decide +kernel⟩, ⟨id, by decide +kernel⟩, ⟨id, by decide +kernel⟩, trivial⟩
  obtain ⟨m, hm, hretains⟩ := (identity_fixed_run .standard 1 before).1 n hn after hafter
  have hchanged : ∀ m ∈ (run .standard 1 (before ++ after)).nodes, m.id = n.id →
      m.origin ≠ n.origin ∧ m.layer.params ≠ n.layer.params := by decide +kernel
  obtain ⟨horigin, hparams⟩ := hchanged m hm (congrArg Identity.id hretains.identity)
  exact ⟨before, after, n, hn, hafter, by decide +kernel, m, hm, horigin, hparams, hretains⟩

end Graph

end LayerCanvas
