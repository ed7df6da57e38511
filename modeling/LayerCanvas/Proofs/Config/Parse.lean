import LayerCanvas.Proofs.Config.Overlay
import LayerCanvas.Widget

/-!
Settings that are read from a text. What an object gives is put in the place of the usual settings,
and what comes out is checked as a whole, so an editor never starts with settings that it would
reject.
-/

set_option autoImplicit false
set_option relaxedAutoImplicit false

namespace LayerCanvas

open Binary
open Float.Model (Format UnpackedFloat)

/-! ### Sound settings -/

namespace Measure

/-- What a number stands for. -/
def size (x : Measure) : ℚ := sizeIn x.format x.unpack

theorem isPositive_widen_iff {x : Measure} :
    Scalar.isPositive x.widen = true ↔ x.unpack.isFinite = true ∧ 0 < x.size := by
  cases x with
  | fine x => exact isPositive_iff_size
  | coarse x =>
    rw [widen]
    exact Iff.trans ⟨isPositive_of_widen, isPositive_widen⟩ isPositive_single_iff_size

end Measure

namespace EditorConfig

/-- Settings that no check rejects: all of them are finite and positive, the space around fitted
content may be zero too, and the limits of the scale are in order. -/
structure IsSound (c : EditorConfig) : Prop where
  positive : ∀ s, s ≠ .fitPadding → (c.value s).unpack.isFinite = true ∧ 0 < (c.value s).size
  padding : (c.value .fitPadding).unpack.isFinite = true ∧ 0 ≤ (c.value .fitPadding).size
  scales : (c.value .minScale).size ≤ (c.value .maxScale).size

theorem passes_positive_iff {c : EditorConfig} {s : Setting} :
    Check.passes c (.positive s) = true ↔
      (c.value s).unpack.isFinite = true ∧ 0 < (c.value s).size := Measure.isPositive_widen_iff

theorem passes_padding_iff {c : EditorConfig} :
    Check.passes c .padding = true ↔
      (c.value .fitPadding).unpack.isFinite = true ∧ 0 ≤ (c.value .fitPadding).size := by
  have hfinite : (c.value .fitPadding).unpack.isFinite = Scalar.isFinite c.view.fitPadding :=
    (isFinite_single_eq _).symm
  rw [hfinite, Check.passes, Bool.and_eq_true_iff, Bool.not_eq_true', decide_eq_false_iff_not]
  refine and_congr_right fun h ↦ ?_
  have hzero : IsNumberIn .binary32 (Scalar.ofNat 0 : Float32).toModel.unpack := .zero .positive
  rw [← not_lt, ← sizeIn_zero .binary32 .positive]
  exact not_congr (lt_single_iff_size (isNumberIn_of_isFinite h) hzero)

theorem passes_scales_iff {c : EditorConfig} (hmin : (c.value .minScale).unpack.isFinite = true)
    (hmax : (c.value .maxScale).unpack.isFinite = true) :
    Check.passes c .scales = true ↔ (c.value .minScale).size ≤ (c.value .maxScale).size := by
  have hnumber {x : Float32} (h : x.toModel.unpack.isFinite = true) :
      IsNumberIn .binary32 x.toModel.unpack :=
    isNumberIn_of_isFinite ((isFinite_single_eq x).trans h)
  rw [Check.passes, Bool.not_eq_true', decide_eq_false_iff_not, ← not_lt]
  exact not_congr (lt_single_iff_size (hnumber hmax) (hnumber hmin))

/-- Settings are sound when they pass every check. -/
theorem isSound_iff {c : EditorConfig} :
    c.IsSound ↔ ∀ check ∈ Check.order, check.passes c = true := by
  constructor
  · intro h check hcheck
    cases check with
    | positive s =>
      refine passes_positive_iff.mpr (h.positive s ?_)
      rintro rfl
      simp [Check.order] at hcheck
    | scales =>
      exact (passes_scales_iff (h.positive .minScale nofun).1
        (h.positive .maxScale nofun).1).mpr h.scales
    | padding => exact passes_padding_iff.mpr h.padding
  · intro h
    have hpositive (s : Setting) (hs : s ≠ .fitPadding) :
        (c.value s).unpack.isFinite = true ∧ 0 < (c.value s).size := by
      refine passes_positive_iff.mp (h _ ?_)
      cases s <;> first | exact absurd rfl hs | simp [Check.order]
    exact ⟨hpositive, passes_padding_iff.mp (h _ (by simp [Check.order])),
      (passes_scales_iff (hpositive .minScale nofun).1 (hpositive .maxScale nofun).1).mp
        (h _ (by simp [Check.order]))⟩

end EditorConfig

/-! ### The settings of a text -/

namespace EditorConfig

theorem decode?_of_isText {v : Json} {text : String} (h : v.IsText text) :
    decode? text = ofJson? v := by
  rw [decode?, Json.parse?_of_isText h, Option.bind_some]

/-- The settings of a text are checked as a whole. -/
theorem parse_of_decode? {text : String} {c : EditorConfig} (h : decode? text = some c) :
    (parse text = .ok c ↔ c.IsSound) ∧
      (¬ c.IsSound → ∃ check, Check.order.find? (fun check ↦ !check.passes c) = some check ∧
        parse text = .error (.rejected (check.error c))) := by
  have hsound : c.IsSound ↔ Check.order.find? (fun check ↦ !check.passes c) = none := by
    rw [isSound_iff, List.find?_eq_none]
    simp
  have hvalidate := validate_eq c
  rw [hsound]
  cases hfind : Check.order.find? fun check ↦ !check.passes c with
  | none =>
    rw [hfind] at hvalidate
    have hparse : parse text = .ok c := by simp [parse, h, hvalidate]
    exact ⟨iff_of_true hparse rfl, fun hnot ↦ absurd rfl hnot⟩
  | some check =>
    rw [hfind] at hvalidate
    have hparse : parse text = .error (.rejected (check.error c)) := by simp [parse, h, hvalidate]
    exact ⟨by simp [hparse], fun _ ↦ ⟨check, rfl, hparse⟩⟩

theorem validate_standard : (standard : EditorConfig).validate = .ok () := by decide +kernel

/-- An editor has settings that pass every check, whatever the text is. -/
theorem validate_withConfig (text : String) (width height : Float) :
    (Widget.withConfig text width height).session.config.validate = .ok () := by
  unfold Widget.withConfig
  cases hparse : parse text with
  | error cause => exact validate_standard
  | ok c =>
    have hvalid : c.validate = .ok () := by
      unfold parse at hparse
      split at hparse
      · cases hparse
      · split at hparse
        · obtain rfl := Except.ok.inj hparse
          assumption
        · cases hparse
    exact hvalid

/-- What keeps the numbers that an object gives from being read: a key that is no text, or a number
without a finite double in its place. -/
def Spoils (members inner : List (Option String × Json)) (given : Setting → Option Numeral) :
    Prop :=
  none ∈ members.map Prod.fst ∨ none ∈ inner.map Prod.fst ∨
    ∃ s n, given s = some n ∧ n.toFloat? = none

/-- A text that gives numbers to some settings is read as the usual settings with these numbers in
their places, and accepted when the whole is sound. Otherwise the error is that of the first check
that fails. The text is not read when one of its keys is no text or one of the numbers is too large.
An editor has settings that pass every check, whatever the text is. -/
theorem parse_overlay {members inner : List (Option String × Json)} {text : String}
    {given : Setting → Option Numeral} (htext : (Json.object members).IsText text)
    (hgives : Gives members inner given) :
    (Spoils members inner given → parse text = .error .unreadable) ∧
    (¬ Spoils members inner given → ∃ c, decode? text = some c ∧ c.IsOverlay given ∧
      (parse text = .ok c ↔ c.IsSound) ∧
      (¬ c.IsSound → ∃ check, Check.order.find? (fun check ↦ !check.passes c) = some check ∧
        parse text = .error (.rejected (check.error c)))) ∧
    (∀ s n, given s = some n → n.toFloat? = none → n.IsTooLarge) ∧
    ∀ (other : String) (width height : Float),
      (Widget.withConfig other width height).session.config.validate = .ok () := by
  have hdecode := decode?_of_isText htext
  refine ⟨fun hspoils ↦ ?_, fun hspoils ↦ ?_, fun _ _ _ ↦ Numeral.isTooLarge_of_toFloat?,
    validate_withConfig⟩
  · have hnone : ofJson? (.object members) = none := by
      by_cases hkeys : none ∈ members.map Prod.fst ∨ none ∈ inner.map Prod.fst
      · exact hgives.ofJson?_eq_none hkeys
      · obtain ⟨s, n, hgiven, hlarge⟩ := (or_assoc.mpr hspoils).resolve_left hkeys
        obtain ⟨hkeys, hkeysOfView⟩ := not_or.mp hkeys
        refine Option.eq_none_iff_forall_ne_some.mpr fun c hc ↦ ?_
        have hs := (hgives.ofJson?_eq_some_iff hkeys hkeysOfView).mp hc s
        rw [hgiven, Setting.overlaid?, Setting.read?_eq_none_iff.mpr hlarge] at hs
        cases hs
    rw [parse, hdecode, hnone]
  · obtain ⟨hkeys, hspoils⟩ := not_or.mp hspoils
    obtain ⟨hkeysOfView, hspoils⟩ := not_or.mp hspoils
    obtain ⟨c, hc⟩ := exists_overlaid fun s n hgiven hlarge ↦ hspoils ⟨s, n, hgiven, hlarge⟩
    have hread : decode? text = some c :=
      hdecode.trans ((hgives.ofJson?_eq_some_iff hkeys hkeysOfView).mpr hc)
    exact ⟨c, hread, isOverlay_of_overlaid hc, parse_of_decode? hread⟩

/-- A text gives two settings, one of the view, and has another member between them. -/
theorem parse_overlay_two :
    ∃ (members inner : List (Option String × Json)) (text : String)
      (given : Setting → Option Numeral) (c : EditorConfig),
      (Json.object members).IsText text ∧ Gives members inner given ∧ parse text = .ok c ∧
        c.IsOverlay given ∧ c.IsSound := by
  let duration : Numeral := ⟨false, [2, 5, 0], [], none⟩
  let least : Numeral := ⟨false, [2], [], none⟩
  let inner : List (Option String × Json) := [(some "minScale", .number least)]
  let members : List (Option String × Json) :=
    [(some "creationMs", .number duration), (some "note", .null), (some "canvas", .object inner)]
  let given : Setting → Option Numeral
    | .creationMs => some duration
    | .minScale => some least
    | _ => none
  let text : String :=
    "\x7b\"creationMs\":250,\"note\":null,\"canvas\":\x7b\"minScale\":2\x7d\x7d"
  have hgives : Gives members inner given := by
    refine ⟨?_, fun s hs ↦ ?_, Or.inl rfl, ?_, fun s hs ↦ ?_⟩
    · unfold Record.NamesOnce
      decide
    · cases s <;> first | rfl | cases hs
    · unfold Record.NamesOnce
      decide
    · cases s <;> first | rfl | cases hs
  have hduration : duration.WellFormed := ⟨by decide, by decide, by decide⟩
  have hleast : least.WellFormed := ⟨by decide, by decide, by decide⟩
  have hinner : (Json.object inner).WellFormed :=
    .object (List.forall_mem_singleton.mpr (.number hleast))
  have hmembers : (Json.object members).WellFormed :=
    .object (List.forall_mem_cons.mpr ⟨.number hduration,
      List.forall_mem_cons.mpr ⟨.null, List.forall_mem_singleton.mpr hinner⟩⟩)
  have htext : (Json.object members).IsText text := by
    have hrender : (Json.object members).render = text := by rfl
    rw [← hrender]
    exact Json.isText_render hmembers
  have hreadable : ¬ Spoils members inner given := by
    rintro (hkey | hkey | ⟨s, n, hgiven, hlarge⟩)
    · revert hkey
      decide
    · revert hkey
      decide
    · cases s with
      | creationMs =>
        obtain rfl := Option.some.inj hgiven
        revert hlarge
        decide +kernel
      | minScale =>
        obtain rfl := Option.some.inj hgiven
        revert hlarge
        decide +kernel
      | _ => cases hgiven
  have haccepted : (parse text).isOk = true := by decide +kernel
  obtain ⟨-, hread, -⟩ := parse_overlay htext hgives
  obtain ⟨c, -, hoverlay, hok, hrejected⟩ := hread hreadable
  have hsound : c.IsSound := by
    by_contra hnot
    obtain ⟨check, -, herror⟩ := hrejected hnot
    rw [herror] at haccepted
    cases haccepted
  exact ⟨members, inner, text, given, c, htext, hgives, hok.mpr hsound, hoverlay, hsound⟩

/-- Not every number that is given to a setting is read, or read as the nearest one. A number
without a finite double is not read, a setting in single precision is rounded twice, a long numeral
is rounded on the way to a double, and an object with half a surrogate pair for a key is not read.
-/
theorem parse_inexact :
    (∃ n, Json.parse? "\x7b\"nodeWidth\":1e400\x7d" =
        some (.object [(some "nodeWidth", .number n)]) ∧
      parse "\x7b\"nodeWidth\":1e400\x7d" = .error .unreadable) ∧
    (∃ n c, Json.parse? "\x7b\"nodeWidth\":16777217.000000001\x7d" =
        some (.object [(some "nodeWidth", .number n)]) ∧
      parse "\x7b\"nodeWidth\":16777217.000000001\x7d" = .ok c ∧
        ¬ IsNearest .binary32 (c.value .nodeWidth).unpack n.amount) ∧
    (∃ n c, Json.parse? "\x7b\"creationMs\":0.09090909090909091\x7d" =
        some (.object [(some "creationMs", .number n)]) ∧
      parse "\x7b\"creationMs\":0.09090909090909091\x7d" = .ok c ∧
        ¬ IsNearest .binary64 (c.value .creationMs).unpack n.amount) ∧
    (∃ n, Json.parse? "\x7b\"\\ud800\":1\x7d" = some (.object [(none, .number n)]) ∧
      parse "\x7b\"\\ud800\":1\x7d" = .error .unreadable) := by
  let usual : EditorConfig := .standard
  let long : Numeral := ⟨false, [1, 6, 7, 7, 7, 2, 1, 7], [0, 0, 0, 0, 0, 0, 0, 0, 1], none⟩
  let part : Numeral := ⟨false, [0], [0, 9, 0, 9, 0, 9, 0, 9, 0, 9, 0, 9, 0, 9, 0, 9, 1], none⟩
  have hlong : long.amount = 16777217000000001 / 10 ^ 9 := by
    norm_num [long, Numeral.amount, Numeral.size, Numeral.power, Digit.value]
  have hpart : part.amount = 9090909090909091 / 10 ^ 17 := by
    norm_num [part, Numeral.amount, Numeral.size, Numeral.power, Digit.value]
  refine ⟨⟨⟨false, [1], [], some ⟨false, [4, 0, 0]⟩⟩, by rfl, by decide +kernel⟩,
    ⟨long, { usual with nodeWidth := 16777216 }, by rfl, by decide +kernel, ?_⟩,
    ⟨part, { usual with creationMs := .ofBits 4591215111030249287 }, by rfl, by decide +kernel, ?_⟩,
    ⟨⟨false, [1], [], none⟩, by rfl, by decide +kernel⟩⟩
  · have hread : Fits .binary32 (2 ^ 23) 1 := ⟨by decide, by decide, by decide, Or.inl le_rfl⟩
    have hnext : Fits .binary32 (2 ^ 23 + 1) 1 :=
      ⟨by decide, by decide, by decide, Or.inl (by decide)⟩
    have hvalue : (16777216 : Float32).toModel.unpack = .finite .positive _ _ hread.pos := rfl
    show ¬ IsNearest .binary32 (16777216 : Float32).toModel.unpack _
    rw [hvalue, hlong]
    refine hread.not_isNearest hnext (by decide) ?_
    norm_num [quantity, abs_of_neg, abs_of_pos]
  · have hread : Fits .binary64 6550690367084359 (-56) :=
      ⟨by decide, by decide, by decide, Or.inl (by decide)⟩
    have hnext : Fits .binary64 6550690367084358 (-56) :=
      ⟨by decide, by decide, by decide, Or.inl (by decide)⟩
    have hvalue : (Float.ofBits 4591215111030249287).toModel.unpack =
        .finite .positive _ _ hread.pos := rfl
    show ¬ IsNearest .binary64 (Float.ofBits 4591215111030249287).toModel.unpack _
    rw [hvalue, hpart]
    refine hread.not_isNearest hnext (by decide) ?_
    norm_num [quantity, abs_of_neg, abs_of_pos]

end EditorConfig

end LayerCanvas
