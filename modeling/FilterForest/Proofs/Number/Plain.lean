import FilterForest.Number.Decimal.Reader
import FilterForest.Number.Plain
import FilterForest.Proofs.Number.Rounding
import FilterForest.Proofs.Text.Unambiguous

/-!
# Plain numbers read back

The text of a decimal with every place written reads as a decimal of the same value, and the text of
a finite number in a query reads as a number of the same value. So equal texts stand for equal
numbers.
-/
namespace FilterForest
namespace Decimal

open Text

variable (d : Decimal)

theorem isDigit_of_mem_zeros {n : ℕ} {c : Char} (h : c ∈ List.replicate n '0') :
    c.isDigit = true := by
  rw [(List.mem_replicate.mp h).2]
  decide

theorem isDigit_of_mem_paddedDigits {places : ℕ} {c : Char} (h : c ∈ d.paddedDigits places) :
    c.isDigit = true := by
  rcases List.mem_append.mp h with hzero | hdigit
  · exact isDigit_of_mem_zeros hzero
  · exact isDigit_of_mem_digits hdigit

theorem isDigit_of_mem_wholeDigits {c : Char} (h : c ∈ d.wholeDigits) : c.isDigit = true := by
  unfold wholeDigits at h
  split at h
  · rcases List.mem_append.mp h with hdigit | hzero
    · exact isDigit_of_mem_digits hdigit
    · exact isDigit_of_mem_zeros hzero
  · exact d.isDigit_of_mem_paddedDigits (List.mem_of_mem_take h)

theorem isDigit_of_mem_placeDigits {c : Char} (h : c ∈ d.placeDigits) : c.isDigit = true := by
  unfold placeDigits at h
  split at h
  · simp at h
  · exact d.isDigit_of_mem_paddedDigits (List.mem_of_mem_drop h)

theorem lt_length_paddedDigits (places : ℕ) : places < (d.paddedDigits places).length := by
  rw [paddedDigits, List.length_append, List.length_replicate]
  omega

theorem ofDigitChars_paddedDigits (places : ℕ) :
    Nat.ofDigitChars 10 (d.paddedDigits places) 0 = d.coefficient := by
  rw [paddedDigits, Nat.ofDigitChars_append, Nat.ofDigitChars_replicate_zero, Nat.mul_zero,
    ofDigitChars_digits]

theorem wholeDigits_ne_nil : d.wholeDigits ≠ [] := by
  unfold wholeDigits
  split
  · exact List.append_ne_nil_of_left_ne_nil (digits_ne_nil _) _
  · next e _ =>
    have hlength := d.lt_length_paddedDigits (e + 1)
    intro hnil
    have hzero := congrArg List.length hnil
    rw [List.length_take, List.length_nil] at hzero
    omega

/-- The decimal that the digits of a decimal write when every place is written. -/
def written : Decimal :=
  ⟨Nat.ofDigitChars 10 (d.wholeDigits ++ d.placeDigits) 0, -(d.placeDigits.length : ℤ)⟩

theorem written_ofNat (c e : ℕ) : (⟨c, .ofNat e⟩ : Decimal).written = ⟨c * tenTo e, 0⟩ := by
  simp only [written, wholeDigits, placeDigits, List.append_nil, Nat.ofDigitChars_append,
    Nat.ofDigitChars_replicate_zero, ofDigitChars_digits, tenTo_eq_pow, Nat.mul_comm c,
    List.length_nil, Nat.cast_zero, neg_zero]

theorem written_negSucc (c e : ℕ) :
    (⟨c, .negSucc e⟩ : Decimal).written = ⟨c, .negSucc e⟩ := by
  have hlength := (⟨c, .negSucc e⟩ : Decimal).lt_length_paddedDigits (e + 1)
  simp only [written, wholeDigits, placeDigits, List.take_append_drop, ofDigitChars_paddedDigits,
    List.length_drop]
  congr 1
  omega

theorem sameValue_written : d.written.SameValue d := by
  obtain ⟨c, e⟩ := d
  cases e with
  | ofNat e =>
    rw [written_ofNat]
    show c * tenTo e * tenTo 0 * 1 = c * tenTo e * 1
    simp [tenTo_eq_pow]
  | negSucc e =>
    rw [written_negSucc]
    exact rfl

theorem ofText?_of_digits {s : List Char} (hs : ∀ c ∈ s, c.isDigit = true) (hne : s ≠ []) :
    ofText? s = some ⟨Nat.ofDigitChars 10 s 0, 0⟩ := by
  have htake : (s ++ []).takeWhile Char.isDigit = s := takeWhile_append_of_head hs (by simp)
  have hdrop : (s ++ []).dropWhile Char.isDigit = [] := dropWhile_append_of_head hs (by simp)
  rw [List.append_nil] at htake hdrop
  simp [ofText?, htake, hdrop, takePlaces, exponent?, hne]

theorem ofText?_of_places {s places : List Char} (hs : ∀ c ∈ s, c.isDigit = true) (hne : s ≠ [])
    (hplaces : ∀ c ∈ places, c.isDigit = true) :
    ofText? (s ++ '.' :: places) =
      some ⟨Nat.ofDigitChars 10 (s ++ places) 0, -(places.length : ℤ)⟩ := by
  have hpoint : ∀ c ∈ ('.' :: places).head?, c.isDigit = false := by
    simp
  have htake : (places ++ []).takeWhile Char.isDigit = places :=
    takeWhile_append_of_head hplaces (by simp)
  have hdrop : (places ++ []).dropWhile Char.isDigit = [] :=
    dropWhile_append_of_head hplaces (by simp)
  rw [List.append_nil] at htake hdrop
  simp [ofText?, takeWhile_append_of_head hs hpoint, dropWhile_append_of_head hs hpoint, takePlaces,
    htake, hdrop, exponent?, hne]

/-- The plain text of a decimal reads as the digits that it shows. -/
theorem ofText?_plain : ofText? d.plain = some d.written := by
  unfold plain
  split
  · next hnone =>
    rw [ofText?_of_digits (fun _ => d.isDigit_of_mem_wholeDigits) d.wholeDigits_ne_nil, written,
      hnone]
    simp
  · exact ofText?_of_places (fun _ => d.isDigit_of_mem_wholeDigits) d.wholeDigits_ne_nil
      (fun _ => d.isDigit_of_mem_placeDigits)

theorem ofText?_digits (n : ℕ) : ofText? (digits n) = some ⟨n, 0⟩ := by
  rw [ofText?_of_digits (fun _ => isDigit_of_mem_digits) (digits_ne_nil n), ofDigitChars_digits]

theorem digits_inj {m n : ℕ} (h : digits m = digits n) : m = n := by
  rw [← ofDigitChars_digits m, h, ofDigitChars_digits]

theorem mem_integer {n : ℤ} {c : Char} (h : c ∈ integer n) : c = '-' ∨ c.isDigit = true := by
  unfold integer at h
  split at h
  · exact (List.mem_cons.mp h).imp_right isDigit_of_mem_digits
  · exact .inr (isDigit_of_mem_digits h)

theorem digits_ne_minus_cons (n : ℕ) (s : List Char) : digits n ≠ '-' :: s := by
  intro h
  have hminus : '-' ∈ digits n := h ▸ List.mem_cons_self
  exact absurd (isDigit_of_mem_digits hminus) (by decide)

theorem integer_inj {n n' : ℤ} (h : integer n = integer n') : n = n' := by
  unfold integer at h
  split at h
  · split at h
    · have habs := digits_inj (List.cons.inj h).2
      omega
    · exact absurd h.symm (digits_ne_minus_cons _ _)
  · split at h
    · exact absurd h (digits_ne_minus_cons _ _)
    · have habs := digits_inj h
      omega

theorem takeSign_of_isDigit {s : List Char} (h : ∀ c ∈ s.head?, c.isDigit = true) :
    takeSign s = (false, s) := by
  unfold takeSign
  split
  · simp at h
  · simp at h
  · rfl

theorem isDigit_head?_plain : ∀ c ∈ d.plain.head?, c.isDigit = true := by
  obtain ⟨first, rest, hwhole⟩ := List.exists_cons_of_ne_nil d.wholeDigits_ne_nil
  have hfirst := d.isDigit_of_mem_wholeDigits (hwhole ▸ List.mem_cons_self)
  unfold plain
  split <;> simp [hwhole, hfirst]

theorem isDigit_head?_digits (n : ℕ) : ∀ c ∈ (digits n).head?, c.isDigit = true :=
  fun _ hc => isDigit_of_mem_digits (List.mem_of_mem_head? hc)

end Decimal

theorem Magnitude.eq_zero_of_units {m : Magnitude} (h : m.units = 0) : m = .zero := by
  cases m with
  | mk units representable =>
    obtain rfl : units = 0 := h
    rfl

namespace Binary64

theorem same_iff_of_finite {negative negative' : Bool} {m m' : Magnitude} :
    (finite negative m).same (finite negative' m') = true ↔
      m = m' ∧ (negative = negative' ∨ m = .zero) := by
  simp [same]

theorem same_symm {x y : Binary64} (h : x.same y = true) : y.same x = true := by
  cases x with
  | finite negative m =>
    cases y with
    | finite negative' m' =>
      obtain ⟨rfl, hsign⟩ := same_iff_of_finite.mp h
      exact same_iff_of_finite.mpr ⟨rfl, hsign.imp_left Eq.symm⟩
    | infinite negative' => contradiction
    | nan => contradiction
  | infinite negative =>
    cases y with
    | finite negative' m' => contradiction
    | infinite negative' =>
      obtain rfl := of_decide_eq_true h
      exact h
    | nan => contradiction
  | nan => cases y <;> contradiction

theorem same_trans {x y z : Binary64} (hxy : x.same y = true) (hyz : y.same z = true) :
    x.same z = true := by
  cases x with
  | finite negative m =>
    cases y with
    | finite negative' m' =>
      cases z with
      | finite negative'' m'' =>
        obtain ⟨rfl, hsign⟩ := same_iff_of_finite.mp hxy
        obtain ⟨rfl, hsign'⟩ := same_iff_of_finite.mp hyz
        refine same_iff_of_finite.mpr ⟨rfl, ?_⟩
        rcases hsign with rfl | hzero
        · exact hsign'
        · exact .inr hzero
      | infinite negative'' => contradiction
      | nan => contradiction
    | infinite negative' => contradiction
    | nan => contradiction
  | infinite negative =>
    cases y with
    | finite negative' m' => contradiction
    | infinite negative' =>
      obtain rfl := of_decide_eq_true hxy
      exact hyz
    | nan => contradiction
  | nan => cases y <;> contradiction

theorem same_self {x : Binary64} (h : x.isFinite = true) : x.same x = true := by
  cases x with
  | finite negative m => exact same_iff_of_finite.mpr ⟨rfl, .inl rfl⟩
  | infinite negative => contradiction
  | nan => contradiction

theorem ofText?_of_takeSign {s size : List Char} {negative : Bool} {d : Decimal}
    (hsign : Decimal.takeSign s = (negative, size)) (hsize : Decimal.ofText? size = some d) :
    ofText? s = some (d.toBinary64 negative) := by
  simp [ofText?, hsign, hsize]

theorem toBinary64_of_magnitude? {d : Decimal} {m : Magnitude} (h : d.magnitude? = some m)
    (negative : Bool) : d.toBinary64 negative = finite negative m := by
  simp [Decimal.toBinary64, h]

theorem takeSign_minus (s : List Char) : Decimal.takeSign ('-' :: s) = (true, s) := rfl

theorem ofText?_integer (n : ℤ) :
    ofText? (Decimal.integer n) = some ((⟨n.natAbs, 0⟩ : Decimal).toBinary64 (n < 0)) := by
  unfold Decimal.integer
  split
  · next hneg =>
    rw [ofText?_of_takeSign (takeSign_minus _) (Decimal.ofText?_digits _), decide_eq_true hneg]
  · next hneg =>
    rw [ofText?_of_takeSign (Decimal.takeSign_of_isDigit (Decimal.isDigit_head?_digits _))
      (Decimal.ofText?_digits _), decide_eq_false hneg]

theorem units_of_safeInt? {negative : Bool} {m : Magnitude} {n : ℤ}
    (h : (finite negative m).safeInt? = some n) : m.units = n.natAbs * Magnitude.unit ∧
      (n ≠ 0 → decide (n < 0) = negative) := by
  simp only [safeInt?] at h
  split at h
  · next hwhole =>
    have hn := Option.some.inj h
    have hunits : m.units / Magnitude.unit * Magnitude.unit = m.units :=
      Nat.div_mul_cancel (Nat.dvd_of_mod_eq_zero hwhole.1)
    generalize m.units / Magnitude.unit = whole at hn hunits
    have habs : n.natAbs = whole := by
      cases negative <;> simp at hn <;> omega
    refine ⟨by rw [habs, hunits], fun hne => ?_⟩
    cases negative <;> simp at hn ⊢ <;> omega
  · contradiction

theorem ofText?_signed {d : Decimal} {m : Magnitude} (h : d.magnitude? = some m) (negative : Bool)
    {size : List Char} (hdigit : ∀ c ∈ size.head?, c.isDigit = true)
    (hsize : Decimal.ofText? size = some d) :
    ofText? ((if negative then ['-'] else []) ++ size) = some (finite negative m) := by
  rw [← toBinary64_of_magnitude? h]
  cases negative with
  | true => exact ofText?_of_takeSign (takeSign_minus size) hsize
  | false => exact ofText?_of_takeSign (Decimal.takeSign_of_isDigit hdigit) hsize

theorem magnitude?_written (m : Magnitude) : (plainDecimal m).written.magnitude? = some m :=
  (Decimal.sameValue_written _).magnitude?_eq.trans (Decimal.magnitude?_shortest .upper m)

/-- A finite number reads back from its text, up to the sign of zero. -/
theorem ofText?_plain {x : Binary64} (h : x.isFinite = true) :
    ∃ y, ofText? x.plain = some y ∧ y.same x = true := by
  cases x with
  | infinite negative => contradiction
  | nan => contradiction
  | finite negative m =>
    unfold plain
    split
    · next n hn =>
      obtain ⟨hunits, hsign⟩ := units_of_safeInt? hn
      refine ⟨finite (n < 0) m, ?_, same_iff_of_finite.mpr ⟨rfl, ?_⟩⟩
      · rw [ofText?_integer, toBinary64_of_magnitude? (Decimal.magnitude?_whole m _ hunits)]
      · by_cases hzero : n = 0
        · rw [hzero, Int.natAbs_zero, Nat.zero_mul] at hunits
          exact .inr (Magnitude.eq_zero_of_units hunits)
        · exact .inl (hsign hzero)
    · exact ⟨finite negative m, ofText?_signed (magnitude?_written m) negative
        (Decimal.isDigit_head?_plain _) (Decimal.ofText?_plain _), same_self h⟩

/-- Finite numbers with the same text are equal. -/
theorem same_of_plain_eq {x y : Binary64} (hx : x.isFinite = true) (hy : y.isFinite = true)
    (h : x.plain = y.plain) : x.same y = true := by
  obtain ⟨x', hx', hsame⟩ := ofText?_plain hx
  obtain ⟨y', hy', hsame'⟩ := ofText?_plain hy
  rw [h, hy'] at hx'
  obtain rfl := Option.some.inj hx'
  exact same_trans (same_symm hsame) hsame'

end Binary64
end FilterForest
