import FilterForest.Proofs.Json.Numeral

/-!
# The numerals of numbers

The numerals that integers and finite numbers are written with are of the grammar. The decimal that
such a numeral writes rounds to the number again, so different numbers have different numerals, and
no integer shares its numeral with a real.
-/
namespace FilterForest
namespace Decimal

theorem digitChar_ne_zero : ∀ n < 10, n ≠ 0 → n.digitChar ≠ '0' := by decide

theorem digits_ne_zero_cons {n : ℕ} (hn : n ≠ 0) (rest : List Char) : digits n ≠ '0' :: rest := by
  induction n using Nat.strong_induction_on generalizing rest with
  | _ n ih =>
    intro hzero
    rw [digits, Nat.toDigits_eq_if (by decide)] at hzero
    split at hzero
    · next hlt => exact digitChar_ne_zero n hlt hn (List.cons.inj hzero).1
    · next hge =>
      obtain ⟨c, tail, hdigits⟩ := List.exists_cons_of_ne_nil (digits_ne_nil (n / 10))
      have hhead : c = '0' := by
        rw [show Nat.toDigits 10 (n / 10) = c :: tail from hdigits] at hzero
        exact (List.cons.inj hzero).1
      exact ih (n / 10) (by omega) (by omega) tail (hhead ▸ hdigits)

theorem digits_zero : digits 0 = ['0'] := rfl

theorem leading_digits {n : ℕ} {rest : List Char} (h : digits n = '0' :: rest) : rest = [] := by
  by_cases hn : n = 0
  · rw [hn, digits_zero] at h
    exact (List.cons.inj h).2.symm
  · exact absurd h (digits_ne_zero_cons hn rest)

theorem leading_append {s t rest : List Char} {n : ℕ} (hn : n ≠ 0) (hs : s ++ t = digits n) :
    s ≠ '0' :: rest := by
  intro hzero
  rw [hzero, List.cons_append] at hs
  exact digits_ne_zero_cons hn _ hs.symm

theorem paddedDigits_of_le (d : Decimal) {places : ℕ}
    (h : places + 1 ≤ (digits d.coefficient).length) :
    d.paddedDigits places = digits d.coefficient := by
  rw [paddedDigits, Nat.sub_eq_zero_of_le h, List.replicate_zero, List.nil_append]

theorem length_paddedDigits_of_le (d : Decimal) {places : ℕ}
    (h : (digits d.coefficient).length ≤ places + 1) :
    (d.paddedDigits places).length = places + 1 := by
  rw [paddedDigits, List.length_append, List.length_replicate]
  omega

theorem leading_wholeDigits {d : Decimal} (h : d.coefficient = 0 → d.exponent = 0)
    {rest : List Char} (hzero : d.wholeDigits = '0' :: rest) : rest = [] := by
  obtain ⟨c, e⟩ := d
  cases e with
  | ofNat e =>
    simp only [wholeDigits] at hzero
    by_cases hc : c = 0
    · obtain rfl : e = 0 := Int.ofNat.inj (h hc)
      rw [List.replicate_zero, List.append_nil] at hzero
      exact leading_digits hzero
    · obtain ⟨first, tail, hdigits⟩ := List.exists_cons_of_ne_nil (digits_ne_nil c)
      rw [hdigits, List.cons_append] at hzero
      obtain rfl := (List.cons.inj hzero).1
      exact absurd hdigits (digits_ne_zero_cons hc tail)
  | negSucc e =>
    have hc : c ≠ 0 := fun hc => absurd (h hc) (Int.negSucc_ne_zero e)
    simp only [wholeDigits] at hzero
    rcases Nat.le_total (digits c).length (e + 2) with hshort | hlong
    · have hlength := length_paddedDigits_of_le ⟨c, .negSucc e⟩ hshort
      have hone := congrArg List.length hzero
      rw [List.length_take, hlength, List.length_cons] at hone
      exact List.length_eq_zero_iff.mp (by omega)
    · rw [paddedDigits_of_le _ hlong] at hzero
      exact absurd hzero (leading_append hc (List.take_append_drop _ _))

theorem magnitude?_of_coefficient {d : Decimal} (h : d.coefficient = 0) :
    d.magnitude? = some .zero := by
  simp [magnitude?, h]

/-- The digits chosen for a magnitude are zero only for zero, and then with no power of ten. -/
theorem exponent_shortest {tie : Tie} {m : Magnitude} (h : (shortest tie m).coefficient = 0) :
    (shortest tie m).exponent = 0 := by
  have hzero := magnitude?_of_coefficient h
  rw [magnitude?_shortest] at hzero
  simp [shortest, Option.some.inj hzero]

end Decimal

namespace Json
namespace Numeral

open Decimal

theorem isDigits_digits (n : ℕ) : IsDigits (digits n) :=
  ⟨digits_ne_nil n, fun _ => isDigit_of_mem_digits⟩

theorem wellFormed_ofInt (n : ℤ) : (ofInt n).WellFormed where
  whole := isDigits_digits _
  leading := fun _ => leading_digits
  places := fun _ h => nomatch h
  exponent := fun _ h => nomatch h

theorem wellFormed_positional (negative : Bool) {d : Decimal}
    (h : d.coefficient = 0 → d.exponent = 0) : (positional negative d).WellFormed where
  whole := ⟨d.wholeDigits_ne_nil, fun _ => d.isDigit_of_mem_wholeDigits⟩
  leading := fun _ => leading_wholeDigits h
  places := by
    intro digits hplaces
    obtain rfl := Option.some.inj hplaces
    split
    · exact ⟨List.cons_ne_nil _ _, by simp⟩
    · next hne => exact ⟨hne, fun _ => d.isDigit_of_mem_placeDigits⟩
  exponent := fun _ h => nomatch h

theorem wellFormed_scientific (negative : Bool) (d : Decimal) :
    (scientific negative d).WellFormed where
  whole := by
    refine ⟨?_, fun c hc => isDigit_of_mem_digits (List.mem_of_mem_take hc)⟩
    intro hnil
    rw [scientific, List.take_eq_nil_iff] at hnil
    exact hnil.elim (by decide) (digits_ne_nil _)
  leading := by
    intro rest hzero
    have hone := congrArg List.length hzero
    rw [scientific, List.length_take, List.length_cons] at hone
    exact List.length_eq_zero_iff.mp (by omega)
  places := by
    intro places hplaces
    simp only [scientific] at hplaces
    split at hplaces
    · contradiction
    · next hne =>
      obtain rfl := Option.some.inj hplaces
      exact ⟨hne, fun c hc => isDigit_of_mem_digits (List.mem_of_mem_drop hc)⟩
  exponent := by
    intro part hpart
    obtain rfl := Option.some.inj hpart
    exact isDigits_digits _

theorem wellFormed_ofFinite (negative : Bool) (m : Magnitude) :
    (ofFinite negative m).WellFormed := by
  unfold ofFinite ofDecimal
  dsimp only
  split
  · exact wellFormed_positional negative exponent_shortest
  · exact wellFormed_scientific negative _

def decimal (n : Numeral) : Decimal :=
  ⟨Nat.ofDigitChars 10 (n.whole ++ n.places.getD []) 0,
    n.writtenExponent - (n.places.getD []).length⟩

theorem magnitude?_positional (negative : Bool) (d : Decimal) :
    (positional negative d).decimal.magnitude? = d.magnitude? := by
  rw [← d.sameValue_written.magnitude?_eq]
  unfold positional decimal
  dsimp only [Option.getD_some]
  split
  · next hnone =>
    have hpoint (c : ℕ) : (⟨10 * c, -1⟩ : Decimal).SameValue ⟨c, 0⟩ := sameValue_shift c (-1)
    rw [Nat.ofDigitChars_append, written, hnone, List.append_nil]
    exact (hpoint _).magnitude?_eq
  · rw [written, writtenExponent, zero_sub]

theorem decimal_scientific (negative : Bool) (d : Decimal) :
    (scientific negative d).decimal = d := by
  have hexponent : (scientific negative d).writtenExponent = d.leadingExponent := by
    simp only [scientific, writtenExponent, ofDigitChars_digits, decide_eq_true_eq]
    split <;> omega
  have hplaces : (scientific negative d).places.getD [] = (digits d.coefficient).drop 1 := by
    simp only [scientific]
    split
    · next hnil => exact hnil.symm
    · rfl
  rw [decimal, hexponent, hplaces, scientific, List.take_append_drop, ofDigitChars_digits,
    List.length_drop, leadingExponent, Int.add_sub_cancel]

/-- The decimal of a finite number's numeral rounds to the number. -/
theorem magnitude?_ofFinite (negative : Bool) (m : Magnitude) :
    (ofFinite negative m).decimal.magnitude? = some m := by
  unfold ofFinite ofDecimal
  dsimp only
  split
  · rw [magnitude?_positional, magnitude?_shortest]
  · rw [decimal_scientific, magnitude?_shortest]

theorem negative_ofFinite (negative : Bool) (m : Magnitude) :
    (ofFinite negative m).negative = negative := by
  unfold ofFinite ofDecimal
  dsimp only
  split <;> rfl

theorem ofFinite_inj {negative negative' : Bool} {m m' : Magnitude}
    (h : ofFinite negative m = ofFinite negative' m') : negative = negative' ∧ m = m' := by
  have hsign := congrArg Numeral.negative h
  have hvalue := congrArg (fun n => n.decimal.magnitude?) h
  simp only [negative_ofFinite, magnitude?_ofFinite] at hsign hvalue
  exact ⟨hsign, Option.some.inj hvalue⟩

theorem ofInt_inj {n n' : ℤ} (h : ofInt n = ofInt n') : n = n' := by
  have hsign : decide (n < 0) = decide (n' < 0) := congrArg Numeral.negative h
  have habs : n.natAbs = n'.natAbs := digits_inj (congrArg Numeral.whole h)
  have hiff := decide_eq_decide.mp hsign
  omega

theorem ofInt_ne_ofFinite (n : ℤ) (negative : Bool) (m : Magnitude) :
    ofInt n ≠ ofFinite negative m := by
  intro h
  unfold ofFinite ofDecimal at h
  dsimp only at h
  split at h
  · exact nomatch congrArg Numeral.places h
  · exact nomatch congrArg Numeral.exponent h

end Numeral
end Json
end FilterForest
