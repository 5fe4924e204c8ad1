import FilterForest.Number.Decimal.Reader

/-!
# The characters of numbers

A text that reads as a finite number is made of digits, signs, points and the letter of an exponent.
So it has no blank in it, and none of the characters that stand between the parts of a geometry.
-/
namespace FilterForest

/-- The characters that finite numbers are written in. -/
def isNumberChar (c : Char) : Bool :=
  c.isDigit || c = '.' || c = '+' || c = '-' || c = 'e' || c = 'E'

theorem isNumberChar_of_isDigit {c : Char} (h : c.isDigit = true) : isNumberChar c = true := by
  simp [isNumberChar, h]

namespace Decimal

variable {s : List Char}

theorem isNumberChar_of_takeSign (h : ∀ c ∈ (takeSign s).2, isNumberChar c = true) :
    ∀ c ∈ s, isNumberChar c = true := by
  unfold takeSign at h
  split at h
  · exact List.forall_mem_cons.mpr ⟨rfl, h⟩
  · exact List.forall_mem_cons.mpr ⟨rfl, h⟩
  · exact h

theorem isNumberChar_of_natural? {n : Nat} (h : natural? s = some n) :
    ∀ c ∈ s, isNumberChar c = true := by
  unfold natural? at h
  split at h
  · next hdigits =>
    have hall : s.all Char.isDigit = true := (Bool.and_eq_true_iff.mp hdigits).2
    exact fun c hc => isNumberChar_of_isDigit (List.all_eq_true.mp hall c hc)
  · contradiction

theorem isNumberChar_of_exponent? {e : Int} (h : exponent? s = some e) :
    ∀ c ∈ s, isNumberChar c = true := by
  cases s with
  | nil => simp
  | cons mark rest =>
    rw [exponent?] at h
    split at h
    · next hmark =>
      have hletter : isNumberChar mark = true := by
        rcases hmark with rfl | rfl <;> rfl
      cases hn : natural? (takeSign rest).2 with
      | none => simp [hn] at h
      | some n =>
        exact List.forall_mem_cons.mpr
          ⟨hletter, isNumberChar_of_takeSign (isNumberChar_of_natural? hn)⟩
    · contradiction

theorem isNumberChar_of_takePlaces (h : ∀ c ∈ (takePlaces s).2, isNumberChar c = true) :
    ∀ c ∈ s, isNumberChar c = true := by
  unfold takePlaces at h
  split at h
  · next rest =>
    refine List.forall_mem_cons.mpr ⟨rfl, ?_⟩
    rw [← List.takeWhile_append_dropWhile (p := Char.isDigit) (l := rest)]
    refine List.forall_mem_append.mpr ⟨fun c hc => ?_, h⟩
    exact isNumberChar_of_isDigit (List.all_eq_true.mp List.all_takeWhile c hc)
  · exact h

theorem isNumberChar_of_ofText? {d : Decimal} (h : ofText? s = some d) :
    ∀ c ∈ s, isNumberChar c = true := by
  have hrest : ∀ c ∈ s.dropWhile Char.isDigit, isNumberChar c = true := by
    unfold ofText? at h
    simp only at h
    split at h
    · contradiction
    · obtain ⟨e, he, -⟩ := Option.map_eq_some_iff.mp h
      exact isNumberChar_of_takePlaces (isNumberChar_of_exponent? he)
  rw [← List.takeWhile_append_dropWhile (p := Char.isDigit) (l := s)]
  refine List.forall_mem_append.mpr ⟨fun c hc => ?_, hrest⟩
  exact isNumberChar_of_isDigit (List.all_eq_true.mp List.all_takeWhile c hc)

end Decimal

namespace Binary64

variable {s : List Char} {x : Binary64}

/-- The values with a name are not finite, so a finite one is read from its digits. -/
theorem isFinite_of_ofName? {negative : Bool} (h : ofName? negative s = some x) :
    x.isFinite = false := by
  unfold ofName? at h
  split at h
  · obtain rfl := Option.some.inj h
    rfl
  · split at h
    · obtain rfl := Option.some.inj h
      rfl
    · contradiction

theorem isNumberChar_of_ofFiniteText? (h : ofFiniteText? s = some x) :
    ∀ c ∈ s, isNumberChar c = true := by
  obtain ⟨hread, hfinite⟩ := Option.filter_eq_some_iff.mp h
  apply Decimal.isNumberChar_of_takeSign
  unfold ofText? at hread
  simp only at hread
  split at hread
  · next d hd => exact Decimal.isNumberChar_of_ofText? hd
  · rw [isFinite_of_ofName? hread] at hfinite
    contradiction

theorem ne_nil_of_ofFiniteText? (h : ofFiniteText? s = some x) : s ≠ [] := by
  rintro rfl
  contradiction

end Binary64
end FilterForest
