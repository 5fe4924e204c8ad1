import FilterForest.Proofs.Number.Plain

/-!
# The shortest digits

Seventeen digits are always enough: of the two decimals of seventeen digits next to a magnitude one
misses it by less than its `2 ^ 54`th part, and such a decimal rounds back to it. So the search for
the shortest digits has an answer, and for a whole number it has one without places.
-/
namespace FilterForest

namespace Magnitude

theorem roundQuotient_eq {num den q : ℕ} (hup : 2 * num < 2 * (q * den) + den)
    (hlow : 2 * (q * den) < 2 * num + den) : roundQuotient num den = q := by
  have hden : 0 < den := by
    by_contra hzero
    obtain rfl : den = 0 := by omega
    omega
  have hsplit : num / den * den + num % den = num := Nat.div_add_mod' num den
  have hrest : num % den < den := Nat.mod_lt _ hden
  have hle : num / den ≤ q := by
    by_contra hgt
    have hmul := Nat.mul_le_mul_right den (Nat.succ_le_of_lt (Nat.not_le.mp hgt))
    rw [Nat.succ_mul] at hmul
    omega
  have hge : q ≤ num / den + 1 := by
    by_contra hlt
    have hmul := Nat.mul_le_mul_right den (Nat.succ_le_of_lt (Nat.not_le.mp hlt))
    rw [Nat.succ_mul, Nat.succ_mul] at hmul
    omega
  unfold roundQuotient
  rcases Nat.lt_or_eq_of_le hle with hlt | heq
  · obtain rfl : q = num / den + 1 := by omega
    rw [Nat.succ_mul (num / den)] at hup hlow
    simp only
    rw [if_neg (by omega)]
  · rw [heq] at hsplit
    simp only [heq]
    rw [if_pos (.inl (by omega))]

/-- What a fraction is rounded to, if it is known how many bits are spared and what is kept. -/
theorem nearest?_of_kept {m : Magnitude} {num den q s : ℕ} (hunits : q * twoTo s = m.units)
    (hspare : (num / den).log2 - 52 = s) (hkept : roundQuotient num (den * twoTo s) = q) :
    nearest? num den = some m := by
  simp only [nearest?, hspare, hkept, hunits]
  rw [dif_pos m.representable.1]

theorem spare_eq {n s : ℕ} (hlow : 2 ^ (52 + s) ≤ n) (hup : n < 2 ^ (53 + s)) :
    n.log2 - 52 = s := by
  have hne : n ≠ 0 := by
    have hpos := Nat.two_pow_pos (52 + s)
    omega
  have hle : 52 + s ≤ n.log2 := (Nat.le_log2 hne).mpr hlow
  have hlt : n.log2 < 53 + s := (Nat.log2_lt hne).mpr hup
  omega

/-- The significant bits of a magnitude, at least 53 unless none are spared. -/
theorem exists_significand (m : Magnitude) : ∃ q s, q * twoTo s = m.units ∧ q < 2 ^ 53 ∧
    (s ≠ 0 → 2 ^ 52 ≤ q) := by
  obtain ⟨q, hq⟩ := m.representable.2
  refine ⟨q, m.units.log2 - 52, (Nat.mul_comm _ _).trans hq.symm, ?_, fun hs => ?_⟩
  · refine Nat.lt_of_mul_lt_mul_left (a := twoTo (m.units.log2 - 52)) ?_
    rw [← hq, ← twoTo_eq_pow, ← twoTo_add]
    exact (lt_twoTo_log2_succ _).trans_le (twoTo_le_twoTo (by omega))
  · refine Nat.le_of_mul_le_mul_left ?_ (twoTo_pos (m.units.log2 - 52))
    have hne : m.units ≠ 0 := by
      intro hzero
      rw [hzero] at hs
      exact hs rfl
    rw [← hq, ← twoTo_eq_pow, ← twoTo_add, ← le_log2_iff hne]
    omega

theorem div_lt_two_pow_iff {num den k s : ℕ} (hden : 0 < den) :
    num / den < 2 ^ (k + s) ↔ num < 2 ^ k * (den * twoTo s) := by
  rw [Nat.div_lt_iff_lt_mul hden, pow_add, Nat.mul_assoc, Nat.mul_comm _ den, ← twoTo_eq_pow s]

/-- A fraction that misses a magnitude by less than its `2 ^ 54`th part rounds to it. -/
theorem nearest?_of_close {m : Magnitude} {num den : ℕ}
    (hlow : 2 ^ 54 * (m.units * den) < 2 ^ 54 * num + m.units * den)
    (hup : 2 ^ 54 * num < 2 ^ 54 * (m.units * den) + m.units * den) :
    nearest? num den = some m := by
  obtain ⟨q, s, hunits, hq, hnormal⟩ := m.exists_significand
  have hden : 0 < den := by
    by_contra hzero
    obtain rfl : den = 0 := by omega
    omega
  obtain ⟨step, hstep⟩ : ∃ step, step = den * twoTo s := ⟨_, rfl⟩
  have hvalue : m.units * den = q * step := by
    rw [← hunits, hstep]
    ring
  rw [hvalue] at hlow hup
  have hbits : q * step + step ≤ 2 ^ 53 * step := by
    rw [← Nat.succ_mul]
    exact Nat.mul_le_mul_right step hq
  have hbelow : num / den < 2 ^ (53 + s) := by
    rw [div_lt_two_pow_iff hden, ← hstep]
    omega
  by_cases hsame : s = 0 ∨ 2 ^ (52 + s) ≤ num / den
  · refine nearest?_of_kept hunits ?_ (roundQuotient_eq ?_ ?_)
    · rcases hsame with rfl | habove
      · have hlog : (num / den).log2 < 53 := by
          by_cases hzero : num / den = 0
          · rw [hzero]
            decide
          · exact (Nat.log2_lt hzero).mpr hbelow
        omega
      · exact spare_eq habove hbelow
    · rw [← hstep]
      omega
    · rw [← hstep]
      omega
  · -- The fraction is below a power of two, where the numbers are twice as dense.
    obtain ⟨hs, habove⟩ := not_or.mp hsame
    obtain ⟨s, rfl⟩ := Nat.exists_eq_succ_of_ne_zero hs
    obtain ⟨half, hhalf⟩ : ∃ half, half = den * twoTo s := ⟨_, rfl⟩
    have hdouble : step = 2 * half := by
      rw [hstep, hhalf, twoTo_succ]
      ring
    have hnum : num < 2 ^ 52 * step := by
      rwa [Nat.not_le, div_lt_two_pow_iff hden, ← hstep] at habove
    obtain rfl : q = 2 ^ 52 := by
      refine Nat.le_antisymm ?_ (hnormal hs)
      by_contra hgt
      have hmul := Nat.mul_le_mul_right step (Nat.succ_le_of_lt (Nat.not_le.mp hgt))
      rw [Nat.succ_mul] at hmul
      omega
    have hunits' : 2 ^ 53 * twoTo s = m.units := by
      rw [← hunits, twoTo_succ]
      ring
    refine nearest?_of_kept hunits' (spare_eq ?_ ?_) (roundQuotient_eq ?_ ?_)
    · rw [← Nat.not_lt, div_lt_two_pow_iff hden, ← hhalf]
      omega
    · rw [div_lt_two_pow_iff hden, ← hhalf]
      omega
    · rw [← hhalf]
      omega
    · rw [← hhalf]
      omega

end Magnitude

namespace Decimal

open Magnitude (unit)

theorem magnitude?_dropZeros (fuel : ℕ) (d : Decimal) :
    (dropZeros fuel d).magnitude? = d.magnitude? := by
  induction fuel generalizing d with
  | zero => rfl
  | succ fuel ih =>
    rw [dropZeros]
    split
    · next hzero =>
      have hcoefficient : 10 * (d.coefficient / 10) = d.coefficient := by omega
      have hsame := sameValue_shift (d.coefficient / 10) d.exponent
      rw [hcoefficient] at hsame
      rw [ih, ← hsame.magnitude?_eq]
    · rfl

theorem exponent_le_dropZeros (fuel : ℕ) (d : Decimal) :
    d.exponent ≤ (dropZeros fuel d).exponent := by
  induction fuel generalizing d with
  | zero => exact le_rfl
  | succ fuel ih =>
    rw [dropZeros]
    split
    · have hrest := ih ⟨d.coefficient / 10, d.exponent + 1⟩
      simp only at hrest
      omega
    · exact le_rfl

theorem magnitude?_onGrid (c cut : ℕ) : (⟨c, (cut : ℤ) - shift⟩ : Decimal).normal.magnitude? =
    Magnitude.nearest? (c * tenTo cut * unit) (tenTo shift) := by
  rw [normal, magnitude?_dropZeros, magnitude?_eq_nearest?]
  refine Magnitude.nearest?_congr (denominator_pos _) (tenTo_pos _) ?_
  obtain ⟨e, he⟩ : ∃ e, e = (cut : ℤ) - shift := ⟨_, rfl⟩
  rw [← he]
  cases e with
  | ofNat e =>
    obtain rfl : cut = shift + e := by
      simp only [Int.ofNat_eq_natCast] at he
      omega
    simp only [numerator, denominator, tenTo_add]
    ring
  | negSucc e =>
    have hshift : shift = cut + (e + 1) := by omega
    rw [hshift, tenTo_add]
    simp only [numerator, denominator]
    ring

theorem tenTo_le_tenTo {m n : ℕ} (h : m ≤ n) : tenTo m ≤ tenTo n :=
  Nat.pow_le_pow_right (by decide) h

theorem tenTo_le_iff {n k : ℕ} (h : k = 0 → 0 < n) : tenTo k ≤ n ↔ k < (digits n).length := by
  rcases Nat.eq_zero_or_pos k with rfl | hk
  · exact iff_of_true (h rfl) (List.length_pos_iff.mpr (digits_ne_nil n))
  · rw [← Nat.not_lt, tenTo_eq_pow, ← Nat.length_toDigits_le_iff (by decide) hk, ← digits,
      Nat.not_le]

variable {m : Magnitude} {tie : Tie}

theorem units_pos (hm : m ≠ .zero) : 0 < m.units :=
  Nat.pos_of_ne_zero fun hzero => hm (Magnitude.eq_zero_of_units hzero)

theorem seventeen_le_length (hm : m ≠ .zero) : 17 ≤ (digits (shifted m)).length := by
  rw [Nat.succ_le_iff, ← tenTo_le_iff (by omega), shifted,
    Nat.le_div_iff_mul_le Magnitude.unit_pos]
  have hunit : unit ≤ tenTo 358 := twoTo_le_tenTo 358
  calc tenTo 16 * unit ≤ tenTo 16 * tenTo 358 := Nat.mul_le_mul_left _ hunit
    _ = tenTo (16 + 358) := (tenTo_add 16 358).symm
    _ ≤ tenTo shift := tenTo_le_tenTo (by decide)
    _ ≤ m.units * tenTo shift := Nat.le_mul_of_pos_left _ (units_pos hm)

/-- The grid on which the digits of a magnitude are cut, below it and above it. -/
theorem grid_bounds (m : Magnitude) (cut : ℕ) :
    shifted m / tenTo cut * tenTo cut * unit ≤ m.units * tenTo shift ∧
      m.units * tenTo shift < (shifted m / tenTo cut + 1) * tenTo cut * unit := by
  constructor
  · calc shifted m / tenTo cut * tenTo cut * unit ≤ shifted m * unit :=
          Nat.mul_le_mul_right _ (Nat.div_mul_le_self _ _)
      _ ≤ m.units * tenTo shift := Nat.div_mul_le_self _ _
  · have hgrid : shifted m < (shifted m / tenTo cut + 1) * tenTo cut :=
      Nat.lt_mul_of_div_lt (Nat.lt_succ_self _) (tenTo_pos cut)
    calc m.units * tenTo shift < (shifted m + 1) * unit :=
          Nat.lt_mul_of_div_lt (Nat.lt_succ_self _) Magnitude.unit_pos
      _ ≤ (shifted m / tenTo cut + 1) * tenTo cut * unit := Nat.mul_le_mul_right _ hgrid

/-- The grid of seventeen digits is finer than the `2 ^ 53`th part of a magnitude. -/
theorem fine_grid (hm : m ≠ .zero) :
    2 ^ 53 * (tenTo ((digits (shifted m)).length - 17) * unit) < m.units * tenTo shift := by
  obtain ⟨cut, hcut⟩ : ∃ cut, (digits (shifted m)).length = 16 + cut + 1 := by
    have hlength := seventeen_le_length hm
    exact ⟨(digits (shifted m)).length - 17, by omega⟩
  have hdigits : tenTo (16 + cut) ≤ shifted m := by
    rw [tenTo_le_iff (by omega)]
    omega
  have hfine : 2 ^ 53 < tenTo 16 := by decide
  rw [hcut, show 16 + cut + 1 - 17 = cut by omega]
  calc 2 ^ 53 * (tenTo cut * unit) < tenTo 16 * (tenTo cut * unit) :=
        Nat.mul_lt_mul_of_pos_right hfine (Nat.mul_pos (tenTo_pos _) Magnitude.unit_pos)
    _ = tenTo (16 + cut) * unit := by rw [tenTo_add, Nat.mul_assoc]
    _ ≤ shifted m * unit := Nat.mul_le_mul_right _ hdigits
    _ ≤ m.units * tenTo shift := Nat.div_mul_le_self _ _

theorem exists_nearer? {cut lower : ℕ}
    (h : (⟨lower, (cut : ℤ) - shift⟩ : Decimal).normal.magnitude? = some m ∨
      (⟨lower + 1, (cut : ℤ) - shift⟩ : Decimal).normal.magnitude? = some m) :
    ∃ d, nearer? tie m cut lower = some d := by
  simp only [nearer?]
  split
  · split
    · exact ⟨_, rfl⟩
    · exact ⟨_, rfl⟩
  · exact ⟨_, rfl⟩
  · exact ⟨_, rfl⟩
  · next hbelow habove =>
    rcases h with h | h
    · rw [roundsTo, h] at hbelow
      simp at hbelow
    · rw [roundsTo, h] at habove
      simp at habove

theorem exponent_of_nearer? {cut lower : ℕ} {d : Decimal} (h : nearer? tie m cut lower = some d) :
    (cut : ℤ) - shift ≤ d.exponent := by
  have hnormal : ∀ c, (cut : ℤ) - shift ≤ (⟨c, (cut : ℤ) - shift⟩ : Decimal).normal.exponent :=
    fun c => exponent_le_dropZeros _ _
  simp only [nearer?] at h
  split at h
  · split at h
    · exact Option.some.inj h ▸ hnormal lower
    · exact Option.some.inj h ▸ hnormal (lower + 1)
  · exact Option.some.inj h ▸ hnormal lower
  · exact Option.some.inj h ▸ hnormal (lower + 1)
  · contradiction

/-- Seventeen digits are enough: one of the two decimals next to a magnitude rounds back to it. -/
theorem exists_nearer?_seventeen (tie : Tie) (hm : m ≠ .zero) :
    ∃ d, nearer? tie m ((digits (shifted m)).length - 17)
      (shifted m / tenTo ((digits (shifted m)).length - 17)) = some d := by
  have hfine := fine_grid hm
  obtain ⟨cut, hcut⟩ : ∃ cut, cut = (digits (shifted m)).length - 17 := ⟨_, rfl⟩
  obtain ⟨hbelow, habove⟩ := grid_bounds m cut
  rw [← hcut] at hfine ⊢
  refine exists_nearer? ?_
  rw [magnitude?_onGrid, magnitude?_onGrid]
  have hstep : (shifted m / tenTo cut + 1) * tenTo cut * unit =
      shifted m / tenTo cut * tenTo cut * unit + tenTo cut * unit := by
    ring
  rw [hstep] at habove ⊢
  by_cases hlow : 2 ^ 54 * (m.units * tenTo shift) <
      2 ^ 54 * (shifted m / tenTo cut * tenTo cut * unit) + m.units * tenTo shift
  · exact .inl (Magnitude.nearest?_of_close hlow (by omega))
  · exact .inr (Magnitude.nearest?_of_close (by omega) (by omega))

/-- The search ends at the first number of digits with an answer. -/
theorem exists_search? {count : ℕ} (hpos : 1 ≤ count) (hle : count ≤ 17)
    (h : ∃ d, nearer? tie m ((digits (shifted m)).length - count)
      (shifted m / tenTo ((digits (shifted m)).length - count)) = some d) :
    ∃ d, search? tie m = some d ∧
      ((digits (shifted m)).length - count : ℕ) - (shift : ℤ) ≤ d.exponent := by
  obtain ⟨d, hd⟩ := h
  have hmem : count ∈ List.range' 1 17 := List.mem_range'_1.mpr ⟨hpos, by omega⟩
  cases hsearch : search? tie m with
  | none =>
    rw [search?] at hsearch
    have hnone := List.findSome?_eq_none_iff.mp hsearch count hmem
    rw [hd] at hnone
    contradiction
  | some found =>
    refine ⟨found, rfl, ?_⟩
    rw [search?] at hsearch
    obtain ⟨before, first, after, hlist, hfound, hbefore⟩ := List.findSome?_eq_some_iff.mp hsearch
    have hfirst : first ≤ count := by
      have hsorted : (List.range' 1 17).Pairwise (· < ·) := List.pairwise_lt_range'
      rw [hlist] at hmem hsorted
      have hafter := List.pairwise_cons.mp (List.pairwise_append.mp hsorted).2.1
      rcases List.mem_append.mp hmem with hearly | hlate
      · rw [hbefore count hearly] at hd
        contradiction
      · rcases List.mem_cons.mp hlate with rfl | hlater
        · exact le_rfl
        · exact (hafter.1 count hlater).le
    have hexponent := exponent_of_nearer? hfound
    omega

/-- The shortest digits of a magnitude are found among those of at most seventeen digits. -/
theorem exists_search?_shortest (tie : Tie) (hm : m ≠ .zero) :
    search? tie m = some (shortest tie m) := by
  obtain ⟨d, hsearch, -⟩ := exists_search? (by decide) le_rfl (exists_nearer?_seventeen tie hm)
  rw [shortest, if_neg hm, hsearch, Option.getD_some]

theorem shifted_whole {whole : ℕ} (h : m.units = whole * unit) :
    shifted m = whole * tenTo shift := by
  rw [shifted, h, Nat.mul_right_comm, Nat.mul_div_cancel _ Magnitude.unit_pos]

theorem length_shifted_whole {whole : ℕ} (hm : m ≠ .zero) (h : m.units = whole * unit) :
    (digits (shifted m)).length = (digits whole).length + shift := by
  have hwhole : 0 < whole := by
    have hpos := h ▸ units_pos hm
    exact Nat.pos_of_mul_pos_right hpos
  obtain ⟨count, hcount⟩ : ∃ count, (digits whole).length = count + 1 :=
    Nat.exists_eq_succ_of_ne_zero (List.length_pos_iff.mpr (digits_ne_nil whole)).ne'
  have hlow : tenTo count ≤ whole := (tenTo_le_iff fun _ => hwhole).mpr (by omega)
  have hup : whole < tenTo (count + 1) := by
    rw [← Nat.not_le, tenTo_le_iff fun _ => hwhole]
    omega
  have hlow' : tenTo (count + shift) ≤ shifted m := by
    rw [shifted_whole h, tenTo_add]
    exact Nat.mul_le_mul_right _ hlow
  have hup' : shifted m < tenTo (count + 1 + shift) := by
    rw [shifted_whole h, tenTo_add]
    exact Nat.mul_lt_mul_of_pos_right hup (tenTo_pos _)
  have hshift : 0 < shift := by decide
  rw [tenTo_le_iff (by omega)] at hlow'
  rw [← Nat.not_le, tenTo_le_iff (by omega)] at hup'
  omega

/-- The shortest digits of a whole number have no places. -/
theorem exponent_shortest_whole (tie : Tie) {whole : ℕ} (h : m.units = whole * unit) :
    0 ≤ (shortest tie m).exponent := by
  by_cases hm : m = .zero
  · rw [shortest, if_pos hm]
  · have hfound := exists_search?_shortest tie hm
    have hlength := length_shifted_whole hm h
    have hdigits : 1 ≤ (digits whole).length := List.length_pos_iff.mpr (digits_ne_nil whole)
    rcases Nat.le_total (digits whole).length 17 with hshort | hlong
    · -- Cut behind the point, the digits are exact.
      have hcut : (digits (shifted m)).length - (digits whole).length = shift := by omega
      have hexact : shifted m / tenTo shift = whole := by
        rw [shifted_whole h, Nat.mul_div_cancel _ (tenTo_pos _)]
      have hnear : ∃ d, nearer? tie m ((digits (shifted m)).length - (digits whole).length)
          (shifted m / tenTo ((digits (shifted m)).length - (digits whole).length)) = some d := by
        rw [hcut, hexact]
        refine exists_nearer? (.inl ?_)
        rw [magnitude?_onGrid, Nat.mul_right_comm, ← h]
        exact Magnitude.nearest?_units_mul m (tenTo_pos _)
      obtain ⟨d, hsearch, hexponent⟩ := exists_search? hdigits hshort hnear
      rw [hfound] at hsearch
      obtain rfl := Option.some.inj hsearch
      omega
    · obtain ⟨d, hsearch, hexponent⟩ :=
        exists_search? (by decide) le_rfl (exists_nearer?_seventeen tie hm)
      rw [hfound] at hsearch
      obtain rfl := Option.some.inj hsearch
      omega

end Decimal
end FilterForest
