import FilterForest.Number.Decimal.Shortest
import Mathlib.Data.Nat.Log
import Mathlib.Tactic

/-!
# Rounding by value

The magnitude nearest to a fraction depends on the value of the fraction alone, and a magnitude is
the nearest to itself. A decimal is such a fraction: what is settled first for exponents of great
size agrees with the rounding of the fraction. So decimals of one value round alike, and the digits
chosen for a magnitude round back to it.
-/
namespace FilterForest

theorem twoTo_eq_pow (n : ℕ) : twoTo n = 2 ^ n := rfl

theorem tenTo_eq_pow (n : ℕ) : tenTo n = 10 ^ n := rfl

theorem twoTo_succ (n : ℕ) : twoTo (n + 1) = 2 * twoTo n := pow_succ' 2 n

theorem le_log2_iff {n k : ℕ} (h : n ≠ 0) : k ≤ n.log2 ↔ twoTo k ≤ n := Nat.le_log2 h

namespace Magnitude

theorem ceiling_eq : ceiling = twoTo 1024 * unit := by
  rw [unit, ← twoTo_add, ceiling]

theorem roundQuotient_mul (num den : ℕ) {k : ℕ} (hk : 0 < k) :
    roundQuotient (num * k) (den * k) = roundQuotient num den := by
  have hscale : ∀ a b : ℕ, 2 * (a * k) < b * k ↔ 2 * a < b := by
    intro a b
    rw [← Nat.mul_assoc]
    exact Nat.mul_lt_mul_right hk
  have heq : ∀ a b : ℕ, 2 * (a * k) = b * k ↔ 2 * a = b := by
    intro a b
    rw [← Nat.mul_assoc]
    exact Nat.mul_left_inj hk.ne'
  simp only [roundQuotient, Nat.mul_div_mul_right _ _ hk, Nat.mul_mod_mul_right, hscale, heq]

theorem nearest?_mul (num den : ℕ) {k : ℕ} (hk : 0 < k) :
    nearest? (num * k) (den * k) = nearest? num den := by
  have hround : ∀ s, roundQuotient (num * k) (den * k * twoTo s) =
      roundQuotient num (den * twoTo s) := by
    intro s
    rw [Nat.mul_right_comm, roundQuotient_mul _ _ hk]
  simp only [nearest?, Nat.mul_div_mul_right _ _ hk, hround]

theorem nearest?_congr {num den num' den' : ℕ} (hden : 0 < den) (hden' : 0 < den')
    (h : num * den' = num' * den) : nearest? num den = nearest? num' den' := by
  rw [← nearest?_mul num den hden', h, ← nearest?_mul num' den' hden, Nat.mul_comm den den']

theorem roundQuotient_one (n : ℕ) : roundQuotient n 1 = n := by
  simp [roundQuotient, Nat.mod_one]

theorem nearest?_units (m : Magnitude) : nearest? m.units 1 = some m := by
  have hround : ∀ q s, m.units = twoTo s * q → roundQuotient m.units (1 * twoTo s) = q := by
    intro q s hs
    rw [hs, Nat.mul_comm (twoTo s), roundQuotient_mul q 1 (twoTo_pos s), roundQuotient_one]
  obtain ⟨q, hq⟩ := m.representable.2
  have hkept : q * twoTo (m.units.log2 - 52) = m.units := by
    rw [Nat.mul_comm]
    exact hq.symm
  simp only [nearest?, Nat.div_one, hround q _ hq, hkept]
  rw [dif_pos m.representable.1]

theorem nearest?_units_mul (m : Magnitude) {k : ℕ} (hk : 0 < k) :
    nearest? (m.units * k) k = some m := by
  rw [← nearest?_units m, nearest?_congr hk Nat.one_pos]
  ring

/-- What is less than half of the least positive number rounds to zero. -/
theorem nearest?_eq_zero {num den : ℕ} (h : 2 * num < den) : nearest? num den = some .zero := by
  have hquot : num / den = 0 := Nat.div_eq_of_lt (by omega)
  have hround : roundQuotient num (den * twoTo 0) = 0 := by
    have hmod : num % den = num := Nat.mod_eq_of_lt (by omega)
    have hone : den * twoTo 0 = den := Nat.mul_one den
    simp [roundQuotient, hone, hquot, hmod, h]
  have hlog : (num / den).log2 - 52 = 0 := by
    rw [hquot]
    decide
  simp only [nearest?, hlog, hround]
  rw [dif_pos (by simpa using ceiling_pos)]
  simp [Magnitude.zero]

theorem div_le_roundQuotient (num den : ℕ) : num / den ≤ roundQuotient num den := by
  unfold roundQuotient
  dsimp only
  split
  · exact le_rfl
  · exact Nat.le_succ _

/-- What is not below the end of the format has no magnitude. -/
theorem nearest?_eq_none {num den : ℕ} (hden : 0 < den) (h : ceiling * den ≤ num) :
    nearest? num den = none := by
  have hquot : ceiling ≤ num / den := (Nat.le_div_iff_mul_le hden).mpr h
  have hne : num / den ≠ 0 := by
    have := ceiling_pos
    omega
  have hlog : 2098 ≤ (num / den).log2 := (le_log2_iff hne).mpr hquot
  have hpow : twoTo (num / den).log2 ≤ num / den := Nat.log2_self_le hne
  have hsplit : twoTo (num / den).log2 = twoTo 52 * twoTo ((num / den).log2 - 52) := by
    rw [← twoTo_add]
    congr 1
    omega
  have hkept : twoTo 52 ≤ roundQuotient num (den * twoTo ((num / den).log2 - 52)) := by
    refine le_trans ?_ (div_le_roundQuotient _ _)
    rw [← Nat.div_div_eq_div_mul, Nat.le_div_iff_mul_le (twoTo_pos _), ← hsplit]
    exact hpow
  have hlarge : ceiling ≤ roundQuotient num (den * twoTo ((num / den).log2 - 52)) *
      twoTo ((num / den).log2 - 52) := by
    calc ceiling ≤ twoTo (num / den).log2 := twoTo_le_twoTo hlog
      _ = twoTo 52 * twoTo ((num / den).log2 - 52) := hsplit
      _ ≤ _ := Nat.mul_le_mul_right _ hkept
  simp only [nearest?]
  rw [dif_neg (Nat.not_lt.mpr hlarge)]

/-- What is below half of the end of the format has a nearest magnitude. -/
theorem exists_nearest? {num den : ℕ} (h : 2 * (num / den) + 1 < ceiling) :
    ∃ m, nearest? num den = some m := by
  obtain ⟨s, hs⟩ : ∃ s, s = (num / den).log2 - 52 := ⟨_, rfl⟩
  have hpow : twoTo s ≤ num / den + 1 := by
    by_cases hzero : num / den = 0
    · rw [hs, hzero]
      decide
    · refine le_trans (twoTo_le_twoTo ?_) ((Nat.log2_self_le hzero).trans (Nat.le_succ _))
      omega
  have hkept : roundQuotient num (den * twoTo s) * twoTo s ≤ 2 * (num / den) + 1 := by
    calc roundQuotient num (den * twoTo s) * twoTo s
        ≤ (num / (den * twoTo s) + 1) * twoTo s :=
          Nat.mul_le_mul_right _ (roundQuotient_le_succ _ _)
      _ = num / den / twoTo s * twoTo s + twoTo s := by rw [Nat.div_div_eq_div_mul, Nat.succ_mul]
      _ ≤ num / den + (num / den + 1) := Nat.add_le_add (Nat.div_mul_le_self _ _) hpow
      _ = 2 * (num / den) + 1 := by omega
  have hbelow := hkept.trans_lt h
  rw [hs] at hbelow
  unfold nearest?
  simp only [dif_pos hbelow, Option.some.injEq, exists_eq']

end Magnitude

theorem Binary64.ofQuotient_of_nearest? {num den : ℕ} {m : Magnitude}
    (h : Magnitude.nearest? num den = some m) (negative : Bool) :
    ofQuotient negative num den = finite negative m := by
  unfold ofQuotient
  rw [h]

namespace Decimal

variable (d : Decimal)

def numerator : ℕ :=
  match d.exponent with
  | .ofNat e => d.coefficient * tenTo e
  | .negSucc _ => d.coefficient

def denominator : ℕ :=
  match d.exponent with
  | .ofNat _ => 1
  | .negSucc e => tenTo (e + 1)

theorem denominator_pos : 0 < d.denominator := by
  unfold denominator
  split
  · exact Nat.one_pos
  · exact tenTo_pos _

theorem numerator_negSucc (c e : ℕ) : (⟨c, .negSucc e⟩ : Decimal).numerator = c := rfl

theorem denominator_negSucc (c e : ℕ) : (⟨c, .negSucc e⟩ : Decimal).denominator = tenTo (e + 1) :=
  rfl

/-- Equality of the values of two decimals. -/
def SameValue (d d' : Decimal) : Prop :=
  d.numerator * d'.denominator = d'.numerator * d.denominator

theorem twoTo_le_tenTo (e : ℕ) : twoTo (3 * e) ≤ tenTo e := by
  calc twoTo (3 * e) = 8 ^ e := by rw [twoTo_eq_pow, pow_mul]; norm_num
    _ ≤ tenTo e := Nat.pow_le_pow_left (by decide) e

theorem ceiling_le_of_large {c e : ℕ} (hc : c ≠ 0) (he : 400 < e) :
    Magnitude.ceiling ≤ c * tenTo e * Magnitude.unit := by
  rw [Magnitude.ceiling_eq]
  apply Nat.mul_le_mul_right
  calc twoTo 1024 ≤ twoTo (3 * e) := twoTo_le_twoTo (by omega)
    _ ≤ tenTo e := twoTo_le_tenTo e
    _ ≤ c * tenTo e := Nat.le_mul_of_pos_left _ (Nat.pos_of_ne_zero hc)

theorem half_lt_of_small {c e : ℕ} (he : 401 + c.log2 ≤ e) :
    2 * (c * Magnitude.unit) < tenTo (e + 1) := by
  have hunit : twoTo 1075 = 2 * Magnitude.unit := by
    rw [Magnitude.unit, ← twoTo_succ]
  calc 2 * (c * Magnitude.unit) = c * twoTo 1075 := by rw [hunit]; ring
    _ < twoTo (c.log2 + 1) * twoTo 1075 :=
      Nat.mul_lt_mul_of_pos_right (lt_twoTo_log2_succ c) (twoTo_pos _)
    _ = twoTo (c.log2 + 1 + 1075) := (twoTo_add _ _).symm
    _ ≤ twoTo (3 * (e + 1)) := twoTo_le_twoTo (by omega)
    _ ≤ tenTo (e + 1) := twoTo_le_tenTo _

/-- A decimal rounds as the fraction that it is, whatever the size of its exponent. -/
theorem magnitude?_eq_nearest? :
    d.magnitude? = Magnitude.nearest? (d.numerator * Magnitude.unit) d.denominator := by
  obtain ⟨c, e⟩ := d
  by_cases hc : c = 0
  · subst hc
    have hnum : (⟨0, e⟩ : Decimal).numerator = 0 := by
      cases e <;> simp [numerator]
    rw [hnum, Nat.zero_mul, Magnitude.nearest?_eq_zero (by simpa using denominator_pos _)]
    simp [magnitude?]
  · cases e with
    | ofNat e =>
      by_cases hlarge : 400 < e
      · rw [Magnitude.nearest?_eq_none (denominator_pos _)]
        · have hint : (400 : ℤ) < Int.ofNat e := by simpa using hlarge
          simp only [magnitude?, hc, hint, if_false, if_true]
        · simpa [numerator, denominator] using ceiling_le_of_large hc hlarge
      · have hle : ¬ (400 : ℤ) < Int.ofNat e := by simpa using hlarge
        have hge : ¬ (Int.ofNat e < -(400 + (c.log2 + 1 : ℕ) : ℤ)) := by
          simp only [Int.ofNat_eq_natCast]
          omega
        simp only [magnitude?, hc, hle, hge, if_false, numerator, denominator]
    | negSucc e =>
      have hle : ¬ (400 : ℤ) < Int.negSucc e := by omega
      by_cases hsmall : Int.negSucc e < -(400 + (c.log2 + 1 : ℕ) : ℤ)
      · have he : 401 + c.log2 ≤ e := by omega
        simp only [magnitude?, hc, hle, hsmall, if_false, if_true, numerator, denominator]
        exact (Magnitude.nearest?_eq_zero (half_lt_of_small he)).symm
      · simp only [magnitude?, hc, hle, hsmall, if_false, numerator, denominator]

variable {d} {d' : Decimal}

theorem SameValue.magnitude?_eq (h : d.SameValue d') : d.magnitude? = d'.magnitude? := by
  rw [magnitude?_eq_nearest?, magnitude?_eq_nearest?]
  apply Magnitude.nearest?_congr d.denominator_pos d'.denominator_pos
  rw [Nat.mul_right_comm, h, Nat.mul_right_comm]

theorem sameValue_shift (c : ℕ) (e : ℤ) : (⟨10 * c, e⟩ : Decimal).SameValue ⟨c, e + 1⟩ := by
  have hten : ∀ n, tenTo (n + 1) = 10 * tenTo n := fun n => pow_succ' 10 n
  cases e with
  | ofNat e =>
    show 10 * c * tenTo e * 1 = c * tenTo (e + 1) * 1
    rw [hten]
    ring
  | negSucc e =>
    cases e with
    | zero =>
      show 10 * c * 1 = c * 1 * 10
      omega
    | succ e =>
      show 10 * c * tenTo (e + 1) = c * tenTo (e + 1 + 1)
      rw [hten (e + 1)]
      ring

theorem magnitude?_whole (m : Magnitude) (whole : ℕ) (h : m.units = whole * Magnitude.unit) :
    (⟨whole, 0⟩ : Decimal).magnitude? = some m := by
  rw [magnitude?_eq_nearest?, ← Magnitude.nearest?_units m, h]
  simp [numerator, denominator, tenTo]

theorem fivePow_mul_twoTo (n : ℕ) : Nat.pow 5 n * twoTo n = tenTo n := (mul_pow 5 2 n).symm

theorem magnitude?_exact (m : Magnitude) : (exact m).magnitude? = some m := by
  -- The exponent stays a variable, so that no step evaluates the powers.
  obtain ⟨e, he⟩ : ∃ e : ℕ, 1074 = e + 1 := ⟨1073, rfl⟩
  have hexponent : (-1074 : ℤ) = Int.negSucc e := by omega
  have hunit : Magnitude.unit = twoTo (e + 1) := by rw [← he, Magnitude.unit]
  rw [exact, hexponent, he, magnitude?_eq_nearest?, numerator_negSucc, denominator_negSucc, hunit,
    Nat.mul_assoc, fivePow_mul_twoTo]
  exact Magnitude.nearest?_units_mul m (tenTo_pos _)

/-- The digits chosen for a magnitude round back to it. -/
theorem magnitude?_shortest (tie : Tie) (m : Magnitude) : (shortest tie m).magnitude? = some m := by
  unfold shortest
  split
  · next hzero =>
    subst hzero
    rfl
  · cases hsearch : search? tie m with
    | none => exact magnitude?_exact m
    | some d => exact of_decide_eq_true (roundsTo_of_search? hsearch)

end Decimal
end FilterForest
