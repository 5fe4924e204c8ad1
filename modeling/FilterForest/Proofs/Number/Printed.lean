import FilterForest.Json.Printer
import FilterForest.Proofs.Json.Layout
import FilterForest.Proofs.Number.Same
import FilterForest.Proofs.Number.Shortest

/-!
# A number in query text and in JSON

Query text and JSON write a finite number each in its own way. Query text has no exponent, and a
point only in front of places of a number that is not whole; JSON has integers beside reals, and the
integers are the whole numbers up to the greatest safe one. The digits need not be the same, because
a tie goes to different decimals, but the two texts always read as one number: the number that is
written, and zero without its sign.
-/
namespace FilterForest

namespace Json
namespace Numeral

open Decimal

theorem text_ofInt (k : ℤ) : (ofInt k).text = Decimal.integer k := by
  rw [text_eq, ofInt, Decimal.integer]
  by_cases hk : k < 0 <;> simp [hk, signText, placesText, exponentText]

/-- A decimal with every place written, and no point without places. -/
def withoutExponent (negative : Bool) (d : Decimal) : Numeral :=
  ⟨negative, d.wholeDigits, if d.placeDigits = [] then none else some d.placeDigits, none⟩

theorem text_withoutExponent (negative : Bool) (d : Decimal) :
    (withoutExponent negative d).text = signText negative ++ d.plain := by
  rw [text_eq, withoutExponent, Decimal.plain]
  cases hplaces : d.placeDigits <;> simp [placesText, exponentText]

theorem wellFormed_withoutExponent (negative : Bool) {d : Decimal}
    (h : d.coefficient = 0 → d.exponent = 0) : (withoutExponent negative d).WellFormed where
  whole := ⟨d.wholeDigits_ne_nil, fun _ => d.isDigit_of_mem_wholeDigits⟩
  leading := fun _ => leading_wholeDigits h
  places := by
    intro digits hplaces
    simp only [withoutExponent] at hplaces
    split at hplaces
    · contradiction
    · next hne =>
      obtain rfl := Option.some.inj hplaces
      exact ⟨hne, fun _ => d.isDigit_of_mem_placeDigits⟩
  exponent := fun _ h => nomatch h

theorem places_withoutExponent (negative : Bool) {d : Decimal} (h : 0 ≤ d.exponent) :
    (withoutExponent negative d).places = none := by
  obtain ⟨c, e⟩ := d
  cases e with
  | ofNat e => rfl
  | negSucc e => exact absurd h (Int.negSucc_not_nonneg e).mp

theorem IsDigits.natural? {s : List Char} (h : IsDigits s) :
    natural? s = some (Nat.ofDigitChars 10 s 0) := by
  have hall : s.all Char.isDigit = true := List.all_eq_true.mpr h.digit
  simp [Decimal.natural?, h.nonempty, hall]

theorem exponent?_exponentText {n : Numeral} (h : ∀ part ∈ n.exponent, IsDigits part.2) :
    exponent? (exponentText n.exponent) = some n.writtenExponent := by
  rw [writtenExponent]
  cases hpart : n.exponent with
  | none => rfl
  | some part =>
    obtain ⟨negative, digits⟩ := part
    simp [exponentText, exponent?, takeSign_exponent, (h _ hpart).natural?]

theorem isDigit_head?_exponentText {exponent : Option (Bool × List Char)} :
    ∀ c ∈ (exponentText exponent).head?, c.isDigit = false := by
  intro c hc
  have hends : ∀ c ∈ (exponentText exponent ++ []).head?, c.isDigit = false ∧ c ≠ '.' :=
    ends_exponent (by simp [Ends])
  rw [List.append_nil] at hends
  exact (hends c hc).1

theorem takePlaces_placesText {places : Option (List Char)} {exponent : Option (Bool × List Char)}
    (h : ∀ digits ∈ places, IsDigits digits) :
    takePlaces (placesText places ++ exponentText exponent) =
      (places.getD [], exponentText exponent) := by
  cases places with
  | some digits =>
    have hdigits := (h digits rfl).digit
    simp [placesText, takePlaces, Text.takeWhile_append_of_head hdigits isDigit_head?_exponentText,
      Text.dropWhile_append_of_head hdigits isDigit_head?_exponentText]
  | none => cases exponent <;> rfl

theorem ofText?_text {n : Numeral} (h : n.WellFormed) :
    Binary64.ofText? n.text = some (n.decimal.toBinary64 n.negative) := by
  obtain ⟨c, tail, hwhole, hdigit⟩ :=
    h.whole.head (placesText n.places ++ exponentText n.exponent)
  have hends : ∀ c ∈ (placesText n.places ++ (exponentText n.exponent ++ [])).head?,
      c.isDigit = false := ends_places (by simp [Ends])
  rw [List.append_nil] at hends
  have hsize : Decimal.ofText? (n.whole ++ (placesText n.places ++ exponentText n.exponent)) =
      some n.decimal := by
    simp [Decimal.ofText?, Text.takeWhile_append_of_head h.whole.digit hends,
      Text.dropWhile_append_of_head h.whole.digit hends, takePlaces_placesText h.places,
      h.whole.nonempty, exponent?_exponentText h.exponent, decimal]
  have hsign : takeSign n.text =
      (n.negative, n.whole ++ (placesText n.places ++ exponentText n.exponent)) := by
    rw [text_eq, List.append_assoc, List.append_assoc]
    cases n.negative with
    | true => rfl
    | false => exact takeSign_of_isDigit (by simp [signText, hwhole, hdigit])
  exact Binary64.ofText?_of_takeSign hsign hsize

end Numeral
end Json

namespace Binary64

open Json (Numeral)
open Magnitude (unit)

/-- The value of a finite number. -/
def value? : Binary64 → Option ℚ
  | finite negative m => some (signedUnits negative m / unit)
  | infinite _ | nan => none

section
variable {negative : Bool} {m : Magnitude} {k : ℤ}

theorem natAbs_signedUnits (negative : Bool) (m : Magnitude) :
    (signedUnits negative m).natAbs = m.units := by
  cases negative <;> simp [signedUnits]

theorem units_of_signedUnits (h : signedUnits negative m = k * unit) :
    m.units = k.natAbs * unit := by
  have habs := congrArg Int.natAbs h
  rwa [natAbs_signedUnits, Int.natAbs_mul, Int.natAbs_natCast] at habs

theorem signedUnits_whole (negative : Bool) {whole : ℕ} (h : m.units = whole * unit) :
    signedUnits negative m = (if negative then -(whole : ℤ) else whole) * unit := by
  rw [signedUnits, h]
  split <;> push_cast <;> ring

theorem safeInt?_eq_some_iff : (finite negative m).safeInt? = some k ↔
    signedUnits negative m = k * unit ∧ k.natAbs ≤ greatestSafe := by
  constructor
  · intro h
    simp only [safeInt?] at h
    split at h
    · next hwhole =>
      have hunits : m.units / unit * unit = m.units :=
        Nat.div_mul_cancel (Nat.dvd_of_mod_eq_zero hwhole.1)
      generalize m.units / unit = whole at h hwhole hunits
      obtain rfl := Option.some.inj h
      refine ⟨signedUnits_whole negative hunits.symm, ?_⟩
      cases negative <;> simp [hwhole.2]
    · contradiction
  · rintro ⟨hvalue, hle⟩
    have hunit := Magnitude.unit_pos
    have hunits := units_of_signedUnits hvalue
    have hwhole : m.units / unit = k.natAbs := by rw [hunits, Nat.mul_div_cancel _ hunit]
    have hrest : m.units % unit = 0 := by rw [hunits, Nat.mul_mod_left]
    simp only [safeInt?, hwhole, hrest, hle, and_self, if_true]
    rw [signedUnits_whole negative hunits] at hvalue
    exact congrArg some (Int.eq_of_mul_eq_mul_right (Int.natCast_ne_zero.mpr hunit.ne') hvalue)

theorem value_eq_intCast_iff :
    (signedUnits negative m / unit : ℚ) = k ↔ signedUnits negative m = k * unit := by
  have hunit : (unit : ℚ) ≠ 0 := Nat.cast_ne_zero.mpr Magnitude.unit_pos.ne'
  rw [div_eq_iff hunit]
  exact_mod_cast Iff.rfl

end

theorem natAbs_le_greatestSafe_iff {k : ℤ} :
    k.natAbs ≤ greatestSafe ↔ |(k : ℚ)| ≤ 9007199254740991 := by
  have hgreatest : greatestSafe = 9007199254740991 := by decide +kernel
  rw [hgreatest, ← Int.cast_abs, Int.abs_eq_natAbs]
  norm_cast

variable {x : Binary64} {v : ℚ} {k : ℤ}

theorem exists_finite_of_value? (h : x.value? = some v) :
    ∃ negative m, x = finite negative m ∧ v = signedUnits negative m / unit := by
  cases x with
  | finite negative m => exact ⟨negative, m, rfl, (Option.some.inj h).symm⟩
  | infinite negative => contradiction
  | nan => contradiction

theorem isFinite_iff_value? : x.isFinite = true ↔ ∃ v, x.value? = some v := by
  cases x with
  | finite negative m => exact iff_of_true rfl ⟨_, rfl⟩
  | infinite negative => exact iff_of_false nofun fun ⟨_, h⟩ => nomatch h
  | nan => exact iff_of_false nofun fun ⟨_, h⟩ => nomatch h

theorem safeInt?_iff_value (h : x.value? = some v) :
    x.safeInt? = some k ↔ v = k ∧ |v| ≤ 9007199254740991 := by
  obtain ⟨negative, m, rfl, hv⟩ := exists_finite_of_value? h
  rw [safeInt?_eq_some_iff, ← value_eq_intCast_iff, ← hv, natAbs_le_greatestSafe_iff]
  constructor
  · rintro ⟨rfl, hle⟩
    exact ⟨rfl, hle⟩
  · rintro ⟨rfl, hle⟩
    exact ⟨rfl, hle⟩

theorem safeInt?_zero_of_value? (h : x.value? = some 0) : x.safeInt? = some 0 :=
  (safeInt?_iff_value h).mpr (by simp)

/-- Query text writes a numeral without exponent, and whole numbers without a point. -/
theorem exists_numeral_plain (h : x.value? = some v) : ∃ n : Numeral, x.plain = n.text ∧
    n.WellFormed ∧ n.exponent = none ∧ ((∃ k : ℤ, v = k) → n.places = none) := by
  cases hsafe : x.safeInt? with
  | some k =>
    refine ⟨.ofInt k, ?_, Numeral.wellFormed_ofInt k, rfl, fun _ => rfl⟩
    rw [plain_of_safeInt? hsafe, Numeral.text_ofInt]
  | none =>
    obtain ⟨negative, m, rfl, rfl⟩ := exists_finite_of_value? h
    refine ⟨.withoutExponent negative (plainDecimal m), ?_,
      Numeral.wellFormed_withoutExponent negative Decimal.exponent_shortest, rfl, ?_⟩
    · rw [plain, hsafe, Numeral.text_withoutExponent, Numeral.signText]
    · rintro ⟨k, hk⟩
      have hunits := units_of_signedUnits (value_eq_intCast_iff.mp hk)
      exact Numeral.places_withoutExponent negative (Decimal.exponent_shortest_whole .upper hunits)

/-- A finite number reads back from its text, and zero without its sign. -/
theorem ofText?_plain_eq (h : x.value? = some v) :
    ofText? x.plain = some (if v = 0 then zero else x) := by
  split
  · next hzero =>
    rw [plain_of_safeInt? (safeInt?_zero_of_value? (hzero ▸ h))]
    decide
  · next hne =>
    obtain ⟨y, hread, hsame⟩ := ofText?_plain (isFinite_iff_value?.mpr ⟨v, h⟩)
    rcases eq_or_zero_of_same hsame with rfl | ⟨-, hsafe⟩
    · exact hread
    · exact absurd ((safeInt?_iff_value h).mp hsafe).1 (by simpa using hne)

end Binary64

namespace Json

open Binary64

/-- The value of a number, none for what is not a number. -/
def value? : Json → Option ℚ
  | integer k => some k
  | real x => x.value?
  | _ => none

variable {x : Binary64} {v : ℚ}

theorem value?_number (h : x.value? = some v) : (number x).value? = some v := by
  cases hsafe : x.safeInt? with
  | some k =>
    rw [number_of_safeInt? hsafe, ((safeInt?_iff_value h).mp hsafe).1, value?]
  | none => rw [number_of_not_safe (isFinite_iff_value?.mpr ⟨v, h⟩) hsafe, value?, h]

theorem number_eq_integer_iff (hx : x.isFinite = true) {k : ℤ} :
    number x = integer k ↔ x.safeInt? = some k := by
  cases hsafe : x.safeInt? with
  | some k' => rw [number_of_safeInt? hsafe, Json.integer.injEq, Option.some.injEq]
  | none => simp [number_of_not_safe hx hsafe]

/-- The text of a number in JSON is a numeral of the grammar, and reads back. -/
theorem exists_numeral_number (h : x.value? = some v) : ∃ n : Numeral,
    (number x).compact = n.text ∧ n.WellFormed ∧
      Binary64.ofText? (number x).compact = some (if v = 0 then .zero else x) := by
  cases hsafe : x.safeInt? with
  | some k =>
    -- Safe integers have one text in both languages.
    have htext : (number x).compact = (Numeral.ofInt k).text := by
      simp [number_of_safeInt? hsafe, compact, tokens, Token.text]
    refine ⟨.ofInt k, htext, Numeral.wellFormed_ofInt k, ?_⟩
    rw [htext, Numeral.text_ofInt, ← plain_of_safeInt? hsafe, ofText?_plain_eq h]
  | none =>
    have hne : v ≠ 0 := by
      rintro rfl
      rw [safeInt?_zero_of_value? h] at hsafe
      contradiction
    obtain ⟨negative, m, rfl, -⟩ := exists_finite_of_value? h
    have htext : (number (finite negative m)).compact = (Numeral.ofFinite negative m).text := by
      simp [number_of_not_safe rfl hsafe, compact, tokens, Token.text]
    have hformed := Numeral.wellFormed_ofFinite negative m
    refine ⟨.ofFinite negative m, htext, hformed, ?_⟩
    rw [htext, Numeral.ofText?_text hformed,
      toBinary64_of_magnitude? (Numeral.magnitude?_ofFinite negative m), Numeral.negative_ofFinite,
      if_neg hne]

end Json

namespace Binary64

open Json (Numeral number)

/-- A finite number is written in query text without exponent, without places if it is whole, and
reads back from there, zero without its sign. In JSON it has the same value, as an integer exactly
if it is whole and of safe size, and the two texts read as the same number. -/
theorem plain_and_number_same {x : Binary64} (hx : x.isFinite = true) :
    ∃ v : ℚ, x.value? = some v ∧
      (∃ n : Numeral, x.plain = n.text ∧ n.WellFormed ∧ n.exponent = none ∧
        ((∃ k : ℤ, v = k) → n.places = none)) ∧
      ofText? x.plain = some (if v = 0 then zero else x) ∧
      (number x).value? = some v ∧
      (∀ k : ℤ, number x = .integer k ↔ v = k ∧ |v| ≤ 9007199254740991) ∧
      (∃ n : Numeral, (number x).compact = n.text ∧ n.WellFormed) ∧
      ofText? (number x).compact = ofText? x.plain := by
  obtain ⟨v, hv⟩ := isFinite_iff_value?.mp hx
  have hplain := ofText?_plain_eq hv
  obtain ⟨n, htext, hformed, hread⟩ := Json.exists_numeral_number hv
  refine ⟨v, hv, exists_numeral_plain hv, hplain, Json.value?_number hv, fun k => ?_,
    ⟨n, htext, hformed⟩, hread.trans hplain.symm⟩
  rw [Json.number_eq_integer_iff hx, safeInt?_iff_value hv]

/-- Half way between two decimals query text has the greater one and JSON the even one. -/
theorem plain_and_number_same_tie :
    let x := ofInt 4503599627370497 / ofInt 4
    x.isFinite = true ∧ x.plain = "1125899906842624.3".toList ∧
      (number x).compact = "1125899906842624.2".toList ∧
      ofText? (number x).compact = ofText? x.plain := by
  intro x
  have hx : x.isFinite = true := by decide +kernel
  obtain ⟨v, -, -, -, -, -, -, hread⟩ := plain_and_number_same hx
  exact ⟨hx, by decide +kernel, by decide +kernel, hread⟩

end Binary64
end FilterForest
