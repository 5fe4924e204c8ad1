import FilterForest.Json
import FilterForest.Proofs.Number.Plain

/-!
# Equal numbers

Finite numbers are equal exactly if they have the same text, and exactly if they have the same form
in JSON. The two zeros are equal, and both are written as the integer zero.
-/
namespace FilterForest

namespace Binary64

theorem safeInt?_zero (negative : Bool) : (finite negative .zero).safeInt? = some 0 := by
  simp only [safeInt?, Magnitude.zero, Nat.zero_mod, Nat.zero_div, Nat.zero_le, and_self, if_true]
  cases negative <;> rfl

theorem eq_or_zero_of_same {x y : Binary64} (h : x.same y = true) :
    x = y ∨ (x.safeInt? = some 0 ∧ y.safeInt? = some 0) := by
  cases x with
  | finite negative m =>
    cases y with
    | finite negative' m' =>
      obtain ⟨rfl, rfl | rfl⟩ := same_iff_of_finite.mp h
      · exact .inl rfl
      · exact .inr ⟨safeInt?_zero _, safeInt?_zero _⟩
    | infinite negative' => contradiction
    | nan => contradiction
  | infinite negative =>
    cases y with
    | finite negative' m' => contradiction
    | infinite negative' => exact .inl (congrArg infinite (of_decide_eq_true h))
    | nan => contradiction
  | nan => cases y <;> contradiction

variable {x y : Binary64}

theorem plain_of_safeInt? {n : ℤ} (h : x.safeInt? = some n) : x.plain = Decimal.integer n := by
  unfold plain
  rw [h]

theorem plain_eq_of_same (h : x.same y = true) : x.plain = y.plain := by
  rcases eq_or_zero_of_same h with rfl | ⟨hx, hy⟩
  · rfl
  · rw [plain_of_safeInt? hx, plain_of_safeInt? hy]

end Binary64

namespace Json

open Binary64

variable {x y : Binary64}

theorem number_of_safeInt? {n : ℤ} (h : x.safeInt? = some n) : number x = integer n := by
  rw [number, h]

theorem number_of_not_safe (hx : x.isFinite = true) (h : x.safeInt? = none) :
    number x = real x := by
  rw [number, h]
  exact if_pos hx

theorem number_eq_of_same (h : x.same y = true) : number x = number y := by
  rcases eq_or_zero_of_same h with rfl | ⟨hx, hy⟩
  · rfl
  · rw [number_of_safeInt? hx, number_of_safeInt? hy]

theorem same_of_number_eq (hx : x.isFinite = true) (hy : y.isFinite = true)
    (h : number x = number y) : x.same y = true := by
  cases hsafe : x.safeInt? with
  | some n =>
    cases hsafe' : y.safeInt? with
    | some n' =>
      rw [number_of_safeInt? hsafe, number_of_safeInt? hsafe'] at h
      apply same_of_plain_eq hx hy
      rw [plain_of_safeInt? hsafe, plain_of_safeInt? hsafe', Json.integer.inj h]
    | none =>
      rw [number_of_safeInt? hsafe, number_of_not_safe hy hsafe'] at h
      contradiction
  | none =>
    cases hsafe' : y.safeInt? with
    | some n' =>
      rw [number_of_not_safe hx hsafe, number_of_safeInt? hsafe'] at h
      contradiction
    | none =>
      rw [number_of_not_safe hx hsafe, number_of_not_safe hy hsafe'] at h
      obtain rfl := Json.real.inj h
      exact same_self hx

theorem number_eq_iff_same (hx : x.isFinite = true) (hy : y.isFinite = true) :
    number x = number y ↔ x.same y = true :=
  ⟨same_of_number_eq hx hy, number_eq_of_same⟩

end Json
end FilterForest
