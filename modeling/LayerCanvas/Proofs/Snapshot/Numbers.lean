import LayerCanvas.Proofs.Decimal.Digits
import LayerCanvas.Proofs.Graph.Nodes
import LayerCanvas.Proofs.Snapshot.Load
import LayerCanvas.Proofs.Snapshot.RoundTrip

/-!
The double-precision numbers of a graph are those of its parameters. Nothing is computed of them: a
call leaves those that were there and brings those that it was given. What is read of a text is
finite.
-/

set_option autoImplicit false
set_option relaxedAutoImplicit false

namespace LayerCanvas

/-! ### What is read -/

theorem ParamValue.isFinite_of_ofJson? {v : Json} {value : ParamValue}
    (h : ofJson? v = some value) : ∀ x ∈ value.doubles, Scalar.isFinite x = true := by
  cases v with
  | number n =>
    obtain ⟨x, hx, rfl⟩ := Option.map_eq_some_iff.mp h
    intro y hy
    rw [List.mem_singleton.mp hy]
    exact Numeral.isFinite_of_toFloat? hx
  | bool b =>
    cases h
    exact nofun
  | text t =>
    obtain ⟨s, -, rfl⟩ := Option.map_eq_some_iff.mp h
    exact nofun
  | _ => cases h

namespace Params

theorem mem_doubles_insert {ps : Params} {name : String} {value : ParamValue} {x : Float}
    (h : x ∈ (ps.insert name value).doubles) : x ∈ ps.doubles ∨ x ∈ value.doubles := by
  obtain ⟨p, hp, hx⟩ := List.mem_flatMap.mp h
  rcases mem_insertEntry hp with rfl | hp
  · exact Or.inr hx
  · exact Or.inl (List.mem_flatMap.mpr ⟨p, hp, hx⟩)

theorem mem_doubles_foldl_insert {entries : List (String × ParamValue)} {ps : Params} {x : Float}
    (h : x ∈ (entries.foldl (fun ps entry ↦ ps.insert entry.1 entry.2) ps).doubles) :
    x ∈ ps.doubles ∨ ∃ p ∈ entries, x ∈ p.2.doubles := by
  induction entries generalizing ps with
  | nil => exact Or.inl h
  | cons entry entries ih =>
    rcases ih h with hold | ⟨p, hp, hx⟩
    · rcases mem_doubles_insert hold with hold | hx
      · exact Or.inl hold
      · exact Or.inr ⟨entry, List.mem_cons_self, hx⟩
    · exact Or.inr ⟨p, List.mem_cons_of_mem _ hp, hx⟩

theorem isFinite_of_entriesOfJson? {members : List (Option String × Json)}
    {entries : List (String × ParamValue)} (h : entriesOfJson? members = some entries) :
    ∀ p ∈ entries, ∀ x ∈ p.2.doubles, Scalar.isFinite x = true := by
  induction members generalizing entries with
  | nil =>
    cases h
    exact nofun
  | cons m members ih =>
    simp only [entriesOfJson?, Option.bind_eq_bind, Option.bind_eq_some_iff, Option.pure_def,
      Option.some.injEq] at h
    obtain ⟨name, -, value, hvalue, rest, hrest, rfl⟩ := h
    intro p hp
    rcases List.mem_cons.mp hp with rfl | hp
    · exact ParamValue.isFinite_of_ofJson? hvalue
    · exact ih hrest p hp

theorem isFinite_of_ofJson? {v : Json} {ps : Params} (h : ofJson? v = some ps) :
    ∀ x ∈ ps.doubles, Scalar.isFinite x = true := by
  cases v with
  | object members =>
    obtain ⟨entries, hentries, rfl⟩ := Option.map_eq_some_iff.mp h
    intro x hx
    rcases mem_doubles_foldl_insert hx with hx | ⟨p, hp, hx⟩
    · cases hx
    · exact isFinite_of_entriesOfJson? hentries p hp x hx
  | _ => cases h

end Params

theorem Record.eq_or_of_optional {α : Type} {r : Record} {name : String} {read : Json → Option α}
    {value a : α} (h : r.optional name read value = some a) : a = value ∨ ∃ v, read v = some a := by
  unfold Record.optional at h
  cases hfind : r.find? name with
  | none =>
    rw [hfind] at h
    exact Or.inl (Option.some.inj h).symm
  | some v =>
    rw [hfind] at h
    exact Or.inr ⟨v, h⟩

theorem Layer.isFinite_of_ofRecord? {r : Record} {l : Layer} (h : ofRecord? r = some l) :
    ∀ x ∈ l.params.doubles, Scalar.isFinite x = true := by
  simp only [ofRecord?, Option.bind_eq_bind, Option.bind_eq_some_iff, Option.pure_def,
    Option.some.injEq] at h
  obtain ⟨type, -, label, -, iconName, -, color, -, params, hparams, inputShape, -, outputShape, -,
    rfl⟩ := h
  rcases Record.eq_or_of_optional hparams with rfl | ⟨v, hv⟩
  · exact List.forall_mem_nil _
  · exact Params.isFinite_of_ofJson? hv

theorem Layer.isFinite_of_parse? {text : String} {l : Layer} (h : parse? text = some l) :
    ∀ x ∈ l.params.doubles, Scalar.isFinite x = true := by
  obtain ⟨v, -, hv⟩ := Option.bind_eq_some_iff.mp h
  obtain ⟨r, -, hr⟩ := Option.bind_eq_some_iff.mp hv
  exact isFinite_of_ofRecord? hr

theorem Node.isFinite_of_ofJson? {v : Json} {n : Node} (h : ofJson? v = some n) :
    ∀ x ∈ n.layer.params.doubles, Scalar.isFinite x = true := by
  simp only [ofJson?, Option.bind_eq_bind, Option.bind_eq_some_iff, Option.pure_def,
    Option.some.injEq] at h
  obtain ⟨r, -, id, -, layer, hlayer, x, -, y, -, width, -, height, -, rfl⟩ := h
  exact Layer.isFinite_of_ofRecord? hlayer

/-- The parameters of a snapshot that is read are finite. -/
theorem Snapshot.isFinite_of_parse? {text : String} {s : Snapshot} (h : parse? text = some s) :
    ∀ x ∈ s.doubles, Scalar.isFinite x = true := by
  obtain ⟨v, -, hv⟩ := Option.bind_eq_some_iff.mp h
  simp only [ofJson?, Option.bind_eq_bind, Option.bind_eq_some_iff, Option.pure_def,
    Option.some.injEq] at hv
  obtain ⟨r, -, nodes, hnodes, connections, -, rfl⟩ := hv
  intro x hx
  obtain ⟨n, hn, hx⟩ := List.mem_flatMap.mp hx
  rcases Record.eq_or_of_optional hnodes with rfl | ⟨w, hw⟩
  · cases hn
  · cases w with
    | array items =>
      obtain ⟨item, -, hitem⟩ := exists_of_forall₂_right (mapM_eq_some_iff.mp hw) hn
      exact Node.isFinite_of_ofJson? hitem x hx
    | _ => cases hw

/-! ### What a call brings -/

/-- The double-precision numbers that a call is given for parameters. -/
def Call.doubles : Call Float32 Float → List Float
  | .addNode layer _ => layer.params.doubles
  | .insertNode n => n.layer.params.doubles
  | .setParam _ _ value => value.doubles
  | .load s => s.doubles
  | .loadDocument document => (document.map Snapshot.doubles).getD []
  | _ => []

namespace Graph

theorem mem_doubles_save {g : Graph} {x : Float} :
    x ∈ g.save.doubles ↔ ∃ n ∈ g.nodes, x ∈ n.layer.params.doubles :=
  List.mem_flatMap

theorem mem_nodes_of_load {g : Graph} {s : Snapshot} {m : Node}
    (h : m ∈ ((g.load s).toOption.getD g).nodes) : m ∈ g.nodes ∨ m ∈ s.nodes := by
  cases hload : g.load s with
  | error fault =>
    rw [hload] at h
    exact Or.inl h
  | ok loaded =>
    rw [hload] at h
    obtain ⟨-, rfl⟩ := load_eq_ok_iff.mp hload
    exact Or.inr h

/-- The numbers after a call were there before, or the call brought them. -/
theorem doubles_apply_subset (g : Graph) (call : Call Float32 Float) :
    (g.apply call).save.doubles ⊆ g.save.doubles ++ call.doubles := by
  intro x hsaved
  obtain ⟨m, hm, hx⟩ := mem_doubles_save.mp hsaved
  clear hsaved
  have hkept {n : Node} (hn : n ∈ g.nodes) (hx : x ∈ n.layer.params.doubles) :
      x ∈ g.save.doubles ++ call.doubles :=
    List.mem_append_left _ (mem_doubles_save.mpr ⟨n, hn, hx⟩)
  cases g.arises_of_mem call hm with
  | kept hold => exact hkept hold hx
  | moved hn _ _ heq =>
    rw [heq] at hx
    exact hkept hn hx
  | tuned hn hcall heq =>
    rw [heq] at hx
    rcases Params.mem_doubles_insert hx with hx | hx
    · exact hkept hn hx
    · rw [hcall]
      exact List.mem_append_right _ hx
  | placed hcall _ heq =>
    rw [heq] at hx
    rw [hcall]
    exact List.mem_append_right _ hx
  | inserted hcall _ _ =>
    rw [hcall]
    exact List.mem_append_right _ hx
  | loaded hcall _ =>
    -- A load may have been refused, and then the nodes are those that were there.
    cases call with
    | load s =>
      rcases mem_nodes_of_load hm with hold | hnew
      · exact hkept hold hx
      · exact List.mem_append_right _ (List.mem_flatMap.mpr ⟨m, hnew, hx⟩)
    | loadDocument document =>
      cases document with
      | none => exact hkept hm hx
      | some s =>
        rcases mem_nodes_of_load hm with hold | hnew
        · exact hkept hold hx
        · exact List.mem_append_right _ (List.mem_flatMap.mpr ⟨m, hnew, hx⟩)
    | _ => exact hcall.elim

end Graph

end LayerCanvas
