import FilterForest.Proofs.Json.Layout

/-!
# Numerals that are read exactly

A numeral is read in two steps, each of which rounds: its digits as a whole number, and the product
with a power of ten or the quotient by one. Up to `2 ^ 53` whole numbers are exact, and so are the
powers of ten up to `10 ^ 22`. Then only the last step rounds, and the numeral of a number is read
as the number.
-/
namespace FilterForest

namespace Magnitude

theorem representable_mul_unit {n s : ℕ} (hn : n ≤ twoTo 53) (hs : s ≤ 970) :
    Representable (n * twoTo s * unit) := by
  have hlt : n * twoTo s < twoTo 1024 := by
    calc n * twoTo s ≤ twoTo 53 * twoTo 970 := Nat.mul_le_mul hn (twoTo_le_twoTo hs)
      _ = twoTo 1023 := (twoTo_add _ _).symm
      _ < 2 * twoTo 1023 := by
        have hpos := twoTo_pos 1023
        omega
      _ = twoTo 1024 := (twoTo_succ _).symm
  have hbelow : n * twoTo s * unit < ceiling := by
    rw [ceiling_eq]
    exact Nat.mul_lt_mul_of_pos_right hlt unit_pos
  rw [unit, Nat.mul_assoc, ← twoTo_add] at hbelow ⊢
  exact representable_mul_twoTo hn hbelow

theorem representable_whole {n : ℕ} (hn : n ≤ twoTo 53) : Representable (n * unit) := by
  have h := representable_mul_unit hn (Nat.zero_le 970)
  rwa [show twoTo 0 = 1 from rfl, Nat.mul_one] at h

theorem representable_tenTo {e : ℕ} (he : e ≤ 22) : Representable (tenTo e * unit) := by
  have hfive : Nat.pow 5 e ≤ twoTo 53 :=
    (Nat.pow_le_pow_right (by decide) he).trans (by decide)
  rw [← Decimal.fivePow_mul_twoTo]
  exact representable_mul_unit hfive (he.trans (by decide))

end Magnitude

namespace Binary64

theorem mul_of_nearest? {m m' product : Magnitude}
    (h : Magnitude.nearest? (m.units * m'.units) Magnitude.unit = some product) :
    finite false m * finite false m' = finite false product := by
  show mul _ _ = _
  rw [mul, ofQuotient_of_nearest? h]
  rfl

theorem div_of_nearest? {m m' quotient : Magnitude} (hpos : 0 < m'.units)
    (h : Magnitude.nearest? (m.units * Magnitude.unit) m'.units = some quotient) :
    finite false m / finite false m' = finite false quotient := by
  have hne : m' ≠ .zero := by
    rintro rfl
    exact Nat.lt_irrefl 0 hpos
  have hdiv : finite false m / finite false m' =
      if m' = .zero then (if m = .zero then nan else infinite false)
      else ofQuotient false (m.units * Magnitude.unit) m'.units := rfl
  rw [hdiv, if_neg hne, ofQuotient_of_nearest? h]

theorem ofInt_of_le {n : ℕ} (hn : n ≤ twoTo 53) :
    ofInt n = finite false ⟨n * Magnitude.unit, Magnitude.representable_whole hn⟩ := by
  have hsign : decide ((n : ℤ) < 0) = false := decide_eq_false (by omega)
  unfold ofInt
  rw [Int.natAbs_natCast, hsign]
  exact ofQuotient_of_nearest?
    (Magnitude.nearest?_units ⟨_, Magnitude.representable_whole hn⟩) false

end Binary64

namespace Json.Numeral

open Magnitude

theorem le_ofDigitChars (s : List Char) (start : ℕ) : start ≤ Nat.ofDigitChars 10 s start := by
  induction s generalizing start with
  | nil => exact le_rfl
  | cons c rest ih =>
    rw [Nat.ofDigitChars_cons]
    exact le_trans (by omega) (ih _)

theorem gather_of_lt {s : List Char} {start : ℕ} (h : Nat.ofDigitChars 10 s start < twoTo 64) :
    gather start s = (Nat.ofDigitChars 10 s start, []) := by
  induction s generalizing start with
  | nil => rfl
  | cons c rest ih =>
    rw [← List.singleton_append, Nat.ofDigitChars_append] at h ⊢
    rw [List.singleton_append, gather, if_pos ((le_ofDigitChars _ _).trans_lt h)]
    exact ih h

theorem powerOfTen_of_le {e : ℕ} (he : e ≤ 22) :
    powerOfTen e = .finite false ⟨tenTo e * unit, representable_tenTo he⟩ := by
  apply Binary64.toBinary64_of_magnitude?
  rw [Decimal.magnitude?_eq_nearest?, ← nearest?_units]
  apply nearest?_congr (Decimal.denominator_pos _) Nat.one_pos
  show 1 * tenTo e * unit * 1 = tenTo e * unit * 1
  rw [Nat.one_mul]

/-- Few digits and a small power of ten are scaled to the number nearest to the decimal. -/
theorem scale_of_le {c : ℕ} {e : ℤ} (hc : c ≤ twoTo 53) (he : e.natAbs ≤ 22) {m : Magnitude}
    (h : (⟨c, e⟩ : Decimal).magnitude? = some m) : scale c e = .finite false m := by
  unfold scale
  rw [Binary64.ofInt_of_le hc]
  by_cases hzero : c = 0
  · subst hzero
    rw [Decimal.magnitude?_of_coefficient rfl] at h
    obtain rfl := Option.some.inj h
    rw [if_pos rfl]
    exact congrArg _ (eq_zero_of_units (Nat.zero_mul _))
  · rw [Decimal.magnitude?_eq_nearest?] at h
    rw [if_neg hzero]
    cases e with
    | ofNat e =>
      have hsmall : e ≤ 22 := he
      have hproduct : nearest? (c * unit * (tenTo e * unit)) unit =
          nearest? (c * tenTo e * unit) 1 := nearest?_congr unit_pos Nat.one_pos (by ring)
      dsimp only
      rw [if_pos (hsmall.trans (by decide)), powerOfTen_of_le hsmall]
      exact Binary64.mul_of_nearest? (hproduct.trans h)
    | negSucc e =>
      have hsmall : e + 1 ≤ 22 := he
      have hpos : 0 < tenTo (e + 1) * unit := Nat.mul_pos (tenTo_pos _) unit_pos
      have hquotient : nearest? (c * unit * unit) (tenTo (e + 1) * unit) =
          nearest? (c * unit) (tenTo (e + 1)) := nearest?_congr hpos (tenTo_pos _) (by ring)
      dsimp only
      rw [if_pos (hsmall.trans (by decide)), powerOfTen_of_le hsmall]
      exact Binary64.div_of_nearest? hpos (hquotient.trans h)

theorem real?_of_le {n : Numeral} (hc : n.decimal.coefficient ≤ twoTo 53)
    (he : n.decimal.exponent.natAbs ≤ 22) {m : Magnitude} (h : n.decimal.magnitude? = some m) :
    n.real? = some (.finite n.negative m) := by
  have hcoefficient : n.decimal.coefficient < twoTo 64 := hc.trans_lt (by decide)
  rw [decimal, Nat.ofDigitChars_append] at hcoefficient
  have hwhole := gather_of_lt ((le_ofDigitChars _ _).trans_lt hcoefficient)
  have hplaces := gather_of_lt hcoefficient
  have hscale := scale_of_le hc he h
  rw [decimal, Nat.ofDigitChars_append] at hscale
  unfold real?
  simp only [hwhole, hplaces, List.length_nil, Nat.sub_zero, Int.natCast_zero, add_zero, hscale]
  cases n.negative <;> rfl

/-- The numeral of a number is read as the number, if it has few digits and a small exponent. -/
theorem real?_ofFinite {negative : Bool} {m : Magnitude}
    (hc : (ofFinite negative m).decimal.coefficient ≤ twoTo 53)
    (he : (ofFinite negative m).decimal.exponent.natAbs ≤ 22) :
    (ofFinite negative m).real? = some (.finite negative m) := by
  rw [real?_of_le hc he (magnitude?_ofFinite negative m), negative_ofFinite]

end Json.Numeral
end FilterForest
