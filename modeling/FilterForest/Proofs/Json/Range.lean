import FilterForest.Json.Reader
import FilterForest.Proofs.Number.Rounding
import FilterForest.Proofs.Text.Recovers

/-!
# The numbers of a text

A value that is read from a text holds no number out of range: its integers have 64 bits, so that
the nearest binary64 numbers are finite, and its reals are finite.
-/
namespace FilterForest

theorem Binary64.isFinite_ofQuotient {negative : Bool} {num den : ℕ}
    (h : 2 * (num / den) + 1 < Magnitude.ceiling) :
    (ofQuotient negative num den).isFinite = true := by
  obtain ⟨m, hm⟩ := Magnitude.exists_nearest? h
  rw [ofQuotient_of_nearest? hm]
  rfl

theorem Magnitude.double_lt_ceiling {n : ℕ} (h : n ≤ twoTo 64) : 2 * (n * unit) + 1 < ceiling := by
  have hfour : 2 * n + 2 ≤ twoTo 66 := by
    have hpow : twoTo 66 = 4 * twoTo 64 := by decide +kernel
    have hone := twoTo_pos 64
    omega
  have hlarge : (2 * n + 2) * unit ≤ ceiling := by
    rw [ceiling_eq]
    exact Nat.mul_le_mul_right _ (hfour.trans (twoTo_le_twoTo (by decide)))
  have hunit := unit_pos
  rw [Nat.add_mul, Nat.mul_assoc] at hlarge
  omega

/-- An integer of 64 bits is far from the end of the format. -/
theorem Binary64.isFinite_ofInt {n : ℤ} (h : n.natAbs ≤ twoTo 64) : (ofInt n).isFinite = true := by
  apply isFinite_ofQuotient
  rw [Nat.div_one]
  exact Magnitude.double_lt_ceiling h

theorem Binary64.isFinite_neg (x : Binary64) : (-x).isFinite = x.isFinite := by
  cases x <;> rfl

namespace Json

/-- The values whose numbers are in the range of binary64. -/
inductive IsInRange : Json → Prop
  | null : IsInRange null
  | bool (value : Bool) : IsInRange (bool value)
  | integer {value : ℤ} (h : value.natAbs ≤ twoTo 64) : IsInRange (integer value)
  | real {x : Binary64} (h : x.isFinite = true) : IsInRange (real x)
  | string (value : String) : IsInRange (string value)
  | array {items : List Json} (h : ∀ item ∈ items, IsInRange item) : IsInRange (array items)
  | object {members : List (String × Json)} (h : ∀ member ∈ members, IsInRange member.2) :
    IsInRange (object members)
  | unreadable : IsInRange unreadable

theorem Numeral.isFinite_of_real? {n : Numeral} {x : Binary64} (h : n.real? = some x) :
    x.isFinite = true := by
  simp only [real?] at h
  split at h
  · next hfinite =>
    obtain rfl := Option.some.inj h
    split
    · rw [Binary64.isFinite_neg]
      exact hfinite
    · exact hfinite
  · contradiction

theorem Numeral.natAbs_le_of_integer? {n : Numeral} {value : ℤ} (h : n.integer? = some value) :
    value.natAbs ≤ twoTo 64 := by
  have hhalf : twoTo 63 ≤ twoTo 64 := twoTo_le_twoTo (by decide)
  simp only [integer?] at h
  split at h
  · contradiction
  · split at h
    all_goals
      split at h
      · obtain rfl := Option.some.inj h
        omega
      · contradiction

theorem isInRange_numeral (n : Numeral) : n.toJson.IsInRange := by
  unfold Numeral.toJson
  split
  · next hinteger => exact .integer (Numeral.natAbs_le_of_integer? hinteger)
  · split
    · next hreal => exact .real (Numeral.isFinite_of_real? hreal)
    · exact .unreadable

theorem isInRange_ofPieces (pieces : List Piece) : (ofPieces pieces).IsInRange := by
  unfold ofPieces
  split
  · exact .string _
  · exact .unreadable

theorem isInRange_ofMembers {members : List (Json × Json)}
    (h : ∀ member ∈ members, member.2.IsInRange) : (ofMembers members).IsInRange := by
  unfold ofMembers
  split
  · next named hnamed =>
    refine .object fun member hmember => ?_
    obtain ⟨pair, hpair, heq⟩ := exists_of_mem_mapM hnamed hmember
    split at heq
    · obtain rfl := Option.some.inj heq
      exact h _ hpair
    · contradiction
  · exact .unreadable

theorem isInRange_take? (fuel : ℕ) :
    (∀ ts value rest, takeValue? fuel ts = some (value, rest) → value.IsInRange) ∧
    (∀ ts items rest, takeItems? fuel ts = some (items, rest) → ∀ item ∈ items, item.IsInRange) ∧
    (∀ ts members rest, takeMembers? fuel ts = some (members, rest) →
      ∀ member ∈ members, member.2.IsInRange) := by
  induction fuel with
  | zero =>
    refine ⟨?_, ?_, ?_⟩
    all_goals
      intro ts _ rest h
      contradiction
  | succ fuel ih =>
    obtain ⟨hvalue, hitems, hmembers⟩ := ih
    refine ⟨?_, ?_, ?_⟩
    · intro ts value rest h
      unfold takeValue? at h
      split at h
      · obtain ⟨rfl, _⟩ := Prod.mk.inj (Option.some.inj h)
        exact .null
      · obtain ⟨rfl, _⟩ := Prod.mk.inj (Option.some.inj h)
        exact .bool _
      · obtain ⟨rfl, _⟩ := Prod.mk.inj (Option.some.inj h)
        exact isInRange_numeral _
      · obtain ⟨rfl, _⟩ := Prod.mk.inj (Option.some.inj h)
        exact isInRange_ofPieces _
      · obtain ⟨rfl, _⟩ := Prod.mk.inj (Option.some.inj h)
        exact .array (by simp)
      · obtain ⟨⟨items, rest'⟩, hrest, heq⟩ := Option.map_eq_some_iff.mp h
        obtain ⟨rfl, _⟩ := Prod.mk.inj heq
        exact .array (hitems _ _ _ hrest)
      · obtain ⟨rfl, _⟩ := Prod.mk.inj (Option.some.inj h)
        exact .object (by simp)
      · obtain ⟨⟨members, rest'⟩, hrest, heq⟩ := Option.map_eq_some_iff.mp h
        obtain ⟨rfl, _⟩ := Prod.mk.inj heq
        exact isInRange_ofMembers (hmembers _ _ _ hrest)
      · contradiction
    · intro ts items rest h
      unfold takeItems? at h
      split at h
      · next item _ hitem =>
        obtain ⟨rfl, rfl⟩ := Prod.mk.inj (Option.some.inj h)
        exact List.forall_mem_singleton.mpr (hvalue _ _ _ hitem)
      · next item others hitem =>
        obtain ⟨⟨rest, ts'⟩, hrest, heq⟩ := Option.map_eq_some_iff.mp h
        obtain ⟨rfl, rfl⟩ := Prod.mk.inj heq
        exact List.forall_mem_cons.mpr ⟨hvalue _ _ _ hitem, hitems _ _ _ hrest⟩
      · contradiction
    · intro ts members rest h
      unfold takeMembers? at h
      split at h
      · next pieces others =>
        split at h
        · next value _ hmember =>
          obtain ⟨rfl, _⟩ := Prod.mk.inj (Option.some.inj h)
          exact List.forall_mem_singleton.mpr (hvalue _ _ _ hmember)
        · next value others hmember =>
          obtain ⟨⟨rest, ts'⟩, hrest, heq⟩ := Option.map_eq_some_iff.mp h
          obtain ⟨rfl, _⟩ := Prod.mk.inj heq
          exact List.forall_mem_cons.mpr ⟨hvalue _ _ _ hmember, hmembers _ _ _ hrest⟩
        · contradiction
      · contradiction

/-- A value that is read from a text holds numbers in range only. -/
theorem isInRange_of_ofText? {s : List Char} {value : Json} (h : ofText? s = some value) :
    value.IsInRange := by
  obtain ⟨tokens, _, htokens⟩ := Option.bind_eq_some_iff.mp h
  unfold ofTokens? at htokens
  split at htokens
  · next hread =>
    obtain rfl := Option.some.inj htokens
    exact (isInRange_take? _).1 _ _ _ hread
  · contradiction

end Json
end FilterForest
