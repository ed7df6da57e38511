import LayerCanvas.Config.Json
import LayerCanvas.Proofs.Config.Check
import LayerCanvas.Proofs.Decimal.Rounded
import LayerCanvas.Proofs.Json.Record

/-!
Numbers that an object gives to settings. It may give one to any of them, in any order and with
other members between, and it leaves the others as they usually are. A view that is left out is a
view all of whose limits are left out, so what is read depends on the given numbers alone.
-/

set_option autoImplicit false
set_option relaxedAutoImplicit false

namespace LayerCanvas

open Float.Model (Format UnpackedFloat)

/-! ### Numbers in either precision -/

namespace Measure

/-- The format that a number is held in. -/
def format : Measure → Format
  | .coarse _ => .binary32
  | .fine _ => .binary64

/-- A number with its significand and exponent. -/
def unpack : Measure → UnpackedFloat
  | .coarse x => x.toModel.unpack
  | .fine x => x.toModel.unpack

end Measure

/-! ### Given numbers -/

/-- Whether the members of an object give these numbers to the settings, each of them once. Those of
the view stand among the members of an object of their own, which may be left out with them. -/
structure Gives (members inner : List (Option String × Json)) (given : Setting → Option Numeral) :
    Prop where
  once : Record.NamesOnce EditorConfig.fieldNames members
  number : ∀ s, s.isOfView = false → members.lookup (some s.name) = (given s).map .number
  view : members.lookup (some "canvas") = some (.object inner) ∨
    members.lookup (some "canvas") = none ∧ inner = []
  onceOfView : Record.NamesOnce ViewConfig.fieldNames inner
  numberOfView : ∀ s, s.isOfView = true → inner.lookup (some s.name) = (given s).map .number

/-- Whether a setting is held in the finer precision. -/
def Setting.isFine : Setting → Bool
  | creationMs | deletionMs => true
  | _ => false

/-- What a numeral is read for in the place of a setting. -/
def Setting.read? (s : Setting) (n : Numeral) : Option Measure :=
  if s.isFine then n.toFloat?.map .fine else n.toFloat32?.map .coarse

/-- A setting that is given, or else as it usually is. -/
def Setting.overlaid? (s : Setting) : Option Numeral → Option Measure
  | none => some (EditorConfig.standard.value s)
  | some n => s.read? n

theorem Setting.read?_coarse {s : Setting} (h : s.isFine = false) (n : Numeral) :
    s.read? n = n.toFloat32?.map .coarse := by
  rw [read?, h]
  rfl

theorem Setting.read?_fine {s : Setting} (h : s.isFine = true) (n : Numeral) :
    s.read? n = n.toFloat?.map .fine := by
  rw [read?, h]
  rfl

theorem Setting.read?_eq_none_iff {s : Setting} {n : Numeral} :
    s.read? n = none ↔ n.toFloat? = none := by
  cases h : s.isFine with
  | true => rw [read?_fine h, Option.map_eq_none_iff]
  | false => rw [read?_coarse h, Option.map_eq_none_iff, Numeral.toFloat32?_eq_none_iff]

theorem Setting.isRounded_of_read? {s : Setting} {n : Numeral} {x : Measure}
    (hread : s.read? n = some x) : n.IsRounded x.format x.unpack := by
  cases h : s.isFine with
  | true =>
    rw [read?_fine h] at hread
    obtain ⟨y, hy, rfl⟩ := Option.map_eq_some_iff.mp hread
    exact Numeral.isRounded_of_toFloat? hy
  | false =>
    rw [read?_coarse h] at hread
    obtain ⟨y, hy, rfl⟩ := Option.map_eq_some_iff.mp hread
    exact Numeral.isRounded_of_toFloat32? hy

/-- An optional field of a record is the setting of its name, put in the place of the usual one. -/
theorem Record.optional_eq_some_iff {α : Type} {wrap : α → Measure}
    (hwrap : Function.Injective wrap) {read : Json → Option α} {s : Setting}
    (hread : ∀ n, s.read? n = (read (.number n)).map wrap) {r : Record} {given : Option Numeral}
    (hfind : r.find? s.name = given.map .number) {usual x : α}
    (husual : (.standard : EditorConfig).value s = wrap usual) :
    r.optional s.name read usual = some x ↔ s.overlaid? given = some (wrap x) := by
  rw [optional, hfind]
  cases given with
  | none => simp [Setting.overlaid?, husual, hwrap.eq_iff]
  | some n => simp [Setting.overlaid?, hread, hwrap.eq_iff]

/-- A setting whose numeral can be read has a value. -/
theorem Setting.exists_overlaid? {α : Type} {wrap : α → Measure} {read : Numeral → Option α}
    {s : Setting} (hread : ∀ n, s.read? n = (read n).map wrap) {given : Option Numeral}
    (hreadable : ∀ n, given = some n → n.toFloat? ≠ none) {usual : α}
    (husual : (.standard : EditorConfig).value s = wrap usual) :
    ∃ x, s.overlaid? given = some (wrap x) := by
  cases given with
  | none => exact ⟨usual, congrArg some husual⟩
  | some n =>
    have hsome : s.read? n ≠ none := mt read?_eq_none_iff.mp (hreadable n rfl)
    rw [hread, Option.ne_none_iff_exists'] at hsome
    obtain ⟨y, hy⟩ := hsome
    obtain ⟨x, -, rfl⟩ := Option.map_eq_some_iff.mp hy
    exact ⟨x, (hread n).trans hy⟩

/-! ### Reading -/

/-- The limits of a view are read from the fields of a record one by one. -/
theorem ViewConfig.ofJson?_eq_some_iff {v : Json} {r : Record}
    (hr : Record.ofJson? fieldNames v = some r) {c : ViewConfig} :
    ofJson? v = some c ↔
      r.optional "minScale" Json.toFloat32? (standard : ViewConfig).minScale = some c.minScale ∧
      r.optional "maxScale" Json.toFloat32? (standard : ViewConfig).maxScale = some c.maxScale ∧
      r.optional "scaleStep" Json.toFloat32? (standard : ViewConfig).scaleStep =
        some c.scaleStep ∧
      r.optional "panSensitivity" Json.toFloat32? (standard : ViewConfig).panSensitivity =
        some c.panSensitivity ∧
      r.optional "fitPadding" Json.toFloat32? (standard : ViewConfig).fitPadding =
        some c.fitPadding ∧
      r.optional "fitMargin" Json.toFloat32? (standard : ViewConfig).fitMargin =
        some c.fitMargin := by
  simp only [ofJson?, hr, Option.bind_eq_bind, Option.bind_some, Option.bind_eq_some_iff,
    Option.pure_def, Option.some.injEq]
  constructor
  · rintro ⟨_, hmin, _, hmax, _, hstep, _, hpan, _, hpadding, _, hmargin, rfl⟩
    exact ⟨hmin, hmax, hstep, hpan, hpadding, hmargin⟩
  · rintro ⟨hmin, hmax, hstep, hpan, hpadding, hmargin⟩
    exact ⟨_, hmin, _, hmax, _, hstep, _, hpan, _, hpadding, _, hmargin, rfl⟩

/-- Settings are read from the fields of a record one by one. -/
theorem EditorConfig.ofJson?_eq_some_iff {v : Json} {r : Record}
    (hr : Record.ofJson? fieldNames v = some r) {c : EditorConfig} :
    ofJson? v = some c ↔
      r.optional "nodeWidth" Json.toFloat32? (standard : EditorConfig).nodeWidth =
        some c.nodeWidth ∧
      r.optional "nodeHeight" Json.toFloat32? (standard : EditorConfig).nodeHeight =
        some c.nodeHeight ∧
      r.optional "creationMs" Json.toFloat? (standard : EditorConfig).creationMs =
        some c.creationMs ∧
      r.optional "deletionMs" Json.toFloat? (standard : EditorConfig).deletionMs =
        some c.deletionMs ∧
      r.optional "pointRadius" Json.toFloat32? (standard : EditorConfig).pointRadius =
        some c.pointRadius ∧
      r.optional "deleteRadius" Json.toFloat32? (standard : EditorConfig).deleteRadius =
        some c.deleteRadius ∧
      r.optional "canvas" ViewConfig.ofJson? (standard : EditorConfig).view = some c.view := by
  simp only [ofJson?, hr, Option.bind_eq_bind, Option.bind_some, Option.bind_eq_some_iff,
    Option.pure_def, Option.some.injEq]
  constructor
  · rintro ⟨_, hwidth, _, hheight, _, hcreation, _, hdeletion, _, hpoint, _, hdelete, _, hview, rfl⟩
    exact ⟨hwidth, hheight, hcreation, hdeletion, hpoint, hdelete, hview⟩
  · rintro ⟨hwidth, hheight, hcreation, hdeletion, hpoint, hdelete, hview⟩
    exact ⟨_, hwidth, _, hheight, _, hcreation, _, hdeletion, _, hpoint, _, hdelete, _, hview, rfl⟩

theorem Setting.name_mem (s : Setting) :
    s.name ∈ if s.isOfView then ViewConfig.fieldNames else EditorConfig.fieldNames := by
  cases s <;> decide

section Read

variable {r : Record} {given : Setting → Option Numeral} {s : Setting} {c : EditorConfig}

theorem Record.optional_coarse (hfind : r.find? s.name = (given s).map .number)
    (hfine : s.isFine = false) {usual x : Float32}
    (husual : (.standard : EditorConfig).value s = .coarse usual) :
    r.optional s.name Json.toFloat32? usual = some x ↔
      s.overlaid? (given s) = some (.coarse x) :=
  optional_eq_some_iff (fun _ _ h ↦ Measure.coarse.inj h) (Setting.read?_coarse hfine) hfind
    husual

theorem Record.optional_fine (hfind : r.find? s.name = (given s).map .number)
    (hfine : s.isFine = true) {usual x : Float}
    (husual : (.standard : EditorConfig).value s = .fine usual) :
    r.optional s.name Json.toFloat? usual = some x ↔
      s.overlaid? (given s) = some (.fine x) :=
  optional_eq_some_iff (fun _ _ h ↦ Measure.fine.inj h) (Setting.read?_fine hfine) hfind
    husual

variable {members inner : List (Option String × Json)} (h : Gives members inner given)
include h

/-- The limits of the view are read as they are given. -/
theorem Gives.ofJson?_view (hkeys : none ∉ inner.map Prod.fst) :
    ViewConfig.ofJson? (.object inner) = some c.view ↔
      ∀ s, s.isOfView = true → s.overlaid? (given s) = some (c.value s) := by
  obtain ⟨r, hmembers, hfields⟩ := Record.exists_ofMembers? hkeys h.onceOfView
  have hr : Record.ofJson? ViewConfig.fieldNames (.object inner) = some r := hmembers
  have hfind (s : Setting) (hs : s.isOfView = true) : r.find? s.name = (given s).map .number := by
    have hmem := s.name_mem
    rw [if_pos hs] at hmem
    exact (hfields s.name hmem).trans (h.numberOfView s hs)
  have hmin := Record.optional_coarse (x := c.view.minScale) (hfind .minScale rfl) rfl rfl
  have hmax := Record.optional_coarse (x := c.view.maxScale) (hfind .maxScale rfl) rfl rfl
  have hstep := Record.optional_coarse (x := c.view.scaleStep) (hfind .scaleStep rfl) rfl rfl
  have hpan :=
    Record.optional_coarse (x := c.view.panSensitivity) (hfind .panSensitivity rfl) rfl rfl
  have hpadding := Record.optional_coarse (x := c.view.fitPadding) (hfind .fitPadding rfl) rfl rfl
  have hmargin := Record.optional_coarse (x := c.view.fitMargin) (hfind .fitMargin rfl) rfl rfl
  refine (ViewConfig.ofJson?_eq_some_iff hr).trans ⟨fun hread s hs ↦ ?_, fun hall ↦ ?_⟩
  · obtain ⟨hmin', hmax', hstep', hpan', hpadding', hmargin'⟩ := hread
    cases s with
    | nodeWidth | nodeHeight | creationMs | deletionMs | pointRadius | deleteRadius => cases hs
    | minScale => exact hmin.mp hmin'
    | maxScale => exact hmax.mp hmax'
    | scaleStep => exact hstep.mp hstep'
    | panSensitivity => exact hpan.mp hpan'
    | fitPadding => exact hpadding.mp hpadding'
    | fitMargin => exact hmargin.mp hmargin'
  · exact ⟨hmin.mpr (hall _ rfl), hmax.mpr (hall _ rfl), hstep.mpr (hall _ rfl),
      hpan.mpr (hall _ rfl), hpadding.mpr (hall _ rfl), hmargin.mpr (hall _ rfl)⟩

/-- Settings are read as they are given. -/
theorem Gives.ofJson?_eq_some_iff (hkeys : none ∉ members.map Prod.fst)
    (hkeysOfView : none ∉ inner.map Prod.fst) :
    EditorConfig.ofJson? (.object members) = some c ↔
      ∀ s, s.overlaid? (given s) = some (c.value s) := by
  obtain ⟨r, hmembers, hfields⟩ := Record.exists_ofMembers? hkeys h.once
  have hr : Record.ofJson? EditorConfig.fieldNames (.object members) = some r := hmembers
  have hfind (s : Setting) (hs : s.isOfView = false) : r.find? s.name = (given s).map .number := by
    have hmem := s.name_mem
    rw [hs, if_neg Bool.false_ne_true] at hmem
    exact (hfields s.name hmem).trans (h.number s hs)
  have hwidth := Record.optional_coarse (x := c.nodeWidth) (hfind .nodeWidth rfl) rfl rfl
  have hheight := Record.optional_coarse (x := c.nodeHeight) (hfind .nodeHeight rfl) rfl rfl
  have hcreation := Record.optional_fine (x := c.creationMs) (hfind .creationMs rfl) rfl rfl
  have hdeletion := Record.optional_fine (x := c.deletionMs) (hfind .deletionMs rfl) rfl rfl
  have hpoint := Record.optional_coarse (x := c.pointRadius) (hfind .pointRadius rfl) rfl rfl
  have hdelete := Record.optional_coarse (x := c.deleteRadius) (hfind .deleteRadius rfl) rfl rfl
  -- A view that is left out is read as one whose limits are all left out.
  have hview : r.optional "canvas" ViewConfig.ofJson? (.standard : EditorConfig).view =
      ViewConfig.ofJson? (.object inner) := by
    rw [Record.optional, hfields "canvas" (by decide)]
    rcases h.view with hobject | ⟨hnone, rfl⟩
    · rw [hobject]
    · rw [hnone]
      rfl
  refine (EditorConfig.ofJson?_eq_some_iff hr).trans ?_
  rw [hview, h.ofJson?_view hkeysOfView]
  constructor
  · rintro ⟨hwidth', hheight', hcreation', hdeletion', hpoint', hdelete', hview'⟩ s
    cases s with
    | nodeWidth => exact hwidth.mp hwidth'
    | nodeHeight => exact hheight.mp hheight'
    | creationMs => exact hcreation.mp hcreation'
    | deletionMs => exact hdeletion.mp hdeletion'
    | pointRadius => exact hpoint.mp hpoint'
    | deleteRadius => exact hdelete.mp hdelete'
    | minScale | maxScale | scaleStep | panSensitivity | fitPadding | fitMargin =>
      exact hview' _ rfl
  · intro hall
    exact ⟨hwidth.mpr (hall _), hheight.mpr (hall _), hcreation.mpr (hall _),
      hdeletion.mpr (hall _), hpoint.mpr (hall _), hdelete.mpr (hall _), fun s _ ↦ hall s⟩

/-- A key that is no text leaves nothing to read. -/
theorem Gives.ofJson?_eq_none (hkeys : none ∈ members.map Prod.fst ∨ none ∈ inner.map Prod.fst) :
    EditorConfig.ofJson? (.object members) = none := by
  by_cases hmembers : none ∈ members.map Prod.fst
  · have hrecord : Record.ofJson? EditorConfig.fieldNames (.object members) = none :=
      Record.ofMembers?_eq_none hmembers
    simp [EditorConfig.ofJson?, hrecord]
  · have hinner := hkeys.resolve_left hmembers
    obtain ⟨r, hr, hfields⟩ := Record.exists_ofMembers? hmembers h.once
    have hrecord : Record.ofJson? EditorConfig.fieldNames (.object members) = some r := hr
    have hview : ViewConfig.ofJson? (.object inner) = none := by
      have hnone : Record.ofJson? ViewConfig.fieldNames (.object inner) = none :=
        Record.ofMembers?_eq_none hinner
      simp [ViewConfig.ofJson?, hnone]
    have hcanvas : r.optional "canvas" ViewConfig.ofJson? (.standard : EditorConfig).view =
        none := by
      rcases h.view with hobject | ⟨-, rfl⟩
      · rw [Record.optional, hfields "canvas" (by decide), hobject]
        exact hview
      · cases hinner
    rw [Option.eq_none_iff_forall_ne_some]
    intro c hc
    rw [EditorConfig.ofJson?_eq_some_iff hrecord, hcanvas] at hc
    obtain ⟨-, -, -, -, -, -, hnone⟩ := hc
    cases hnone

omit h in
/-- Numbers that can be read all have a place in settings. -/
theorem exists_overlaid (hreadable : ∀ s n, given s = some n → n.toFloat? ≠ none) :
    ∃ c : EditorConfig, ∀ s, s.overlaid? (given s) = some (c.value s) := by
  have hcoarse (s : Setting) (hs : s.isFine = false) {usual : Float32}
      (husual : (.standard : EditorConfig).value s = .coarse usual) :
      ∃ x, s.overlaid? (given s) = some (.coarse x) :=
    Setting.exists_overlaid? (Setting.read?_coarse hs) (hreadable s) husual
  have hfine (s : Setting) (hs : s.isFine = true) {usual : Float}
      (husual : (.standard : EditorConfig).value s = .fine usual) :
      ∃ x, s.overlaid? (given s) = some (.fine x) :=
    Setting.exists_overlaid? (Setting.read?_fine hs) (hreadable s) husual
  obtain ⟨nodeWidth, hwidth⟩ := hcoarse .nodeWidth rfl rfl
  obtain ⟨nodeHeight, hheight⟩ := hcoarse .nodeHeight rfl rfl
  obtain ⟨creationMs, hcreation⟩ := hfine .creationMs rfl rfl
  obtain ⟨deletionMs, hdeletion⟩ := hfine .deletionMs rfl rfl
  obtain ⟨pointRadius, hpoint⟩ := hcoarse .pointRadius rfl rfl
  obtain ⟨deleteRadius, hdelete⟩ := hcoarse .deleteRadius rfl rfl
  obtain ⟨minScale, hmin⟩ := hcoarse .minScale rfl rfl
  obtain ⟨maxScale, hmax⟩ := hcoarse .maxScale rfl rfl
  obtain ⟨scaleStep, hstep⟩ := hcoarse .scaleStep rfl rfl
  obtain ⟨panSensitivity, hpan⟩ := hcoarse .panSensitivity rfl rfl
  obtain ⟨fitPadding, hpadding⟩ := hcoarse .fitPadding rfl rfl
  obtain ⟨fitMargin, hmargin⟩ := hcoarse .fitMargin rfl rfl
  let view : ViewConfig := ⟨minScale, maxScale, scaleStep, panSensitivity, fitPadding, fitMargin⟩
  refine ⟨⟨nodeWidth, nodeHeight, creationMs, deletionMs, pointRadius, deleteRadius, view⟩,
    fun s ↦ ?_⟩
  cases s <;> assumption

end Read

namespace EditorConfig

/-- Whether settings are the usual ones with the given numbers in their places, rounded to the
precision of the setting. -/
structure IsOverlay (given : Setting → Option Numeral) (c : EditorConfig) : Prop where
  usual : ∀ s, given s = none → c.value s = (standard : EditorConfig).value s
  rounded : ∀ s n, given s = some n → n.IsRounded (c.value s).format (c.value s).unpack

theorem isOverlay_of_overlaid {given : Setting → Option Numeral} {c : EditorConfig}
    (h : ∀ s, s.overlaid? (given s) = some (c.value s)) : c.IsOverlay given where
  usual s hgiven := by
    have hs := h s
    rw [hgiven] at hs
    exact (Option.some.inj hs).symm
  rounded s n hgiven := by
    have hs := h s
    rw [hgiven] at hs
    exact Setting.isRounded_of_read? hs

end EditorConfig

end LayerCanvas
