import FilterForest.Json.Reader
import FilterForest.Proofs.Json.Injective
import FilterForest.Proofs.Text.Recovers

/-!
# Values read back

A value whose integers fit in 64 bits and whose reals are read from their numerals as they are reads
back from its compact text. The text gives back the tokens; the descent over the tokens takes each
value from the front of them and leaves the rest, as long as it may take two steps for a token.
-/
namespace FilterForest
namespace Json

/-- The values that are read from their tokens as what they are. Whether a real is one of them is
up to the reader of numerals, which rounds twice and can miss a last place. -/
inductive IsRecoverable : Json → Prop
  | null : IsRecoverable null
  | bool (value : Bool) : IsRecoverable (bool value)
  | integer {value : ℤ} (least : -twoTo 63 ≤ value) (greatest : value < twoTo 64) :
    IsRecoverable (integer value)
  | real {negative : Bool} {m : Magnitude}
    (h : (Numeral.ofFinite negative m).real? = some (.finite negative m)) :
    IsRecoverable (real (.finite negative m))
  | string (value : String) : IsRecoverable (string value)
  | array {items : List Json} (h : ∀ item ∈ items, IsRecoverable item) :
    IsRecoverable (array items)
  | object {members : List (String × Json)} (h : ∀ member ∈ members, IsRecoverable member.2) :
    IsRecoverable (object members)

theorem IsRecoverable.isWritable {value : Json} (h : value.IsRecoverable) : value.IsWritable := by
  induction h with
  | null => exact .null
  | bool value => exact .bool value
  | integer => exact .integer _
  | real => exact .real _ _
  | string value => exact .string value
  | array _ ih => exact .array ih
  | object _ ih => exact .object ih

namespace Numeral

theorem toJson_ofInt {n : ℤ} (least : -twoTo 63 ≤ n) (greatest : n < twoTo 64) :
    (ofInt n).toJson = .integer n := by
  have hinteger : (ofInt n).integer? = some n := by
    simp only [ofInt, integer?, Option.isSome_none, Bool.or_self, Bool.false_eq_true, if_false,
      Decimal.ofDigitChars_digits, decide_eq_true_eq]
    by_cases hn : n < 0
    · rw [if_pos hn, if_pos (by omega)]
      exact congrArg some (by omega)
    · rw [if_neg hn, if_pos (by omega)]
      exact congrArg some (by omega)
  rw [toJson, hinteger]

theorem integer?_ofFinite (negative : Bool) (m : Magnitude) :
    (ofFinite negative m).integer? = none := by
  unfold ofFinite ofDecimal
  dsimp only
  split
  · rfl
  · simp [integer?, scientific]

theorem toJson_ofFinite {negative : Bool} {m : Magnitude}
    (h : (ofFinite negative m).real? = some (.finite negative m)) :
    (ofFinite negative m).toJson = .real (.finite negative m) := by
  rw [toJson, integer?_ofFinite, h]

end Numeral

namespace Piece

theorem characters?_ofChar (c : Char) (rest : List Piece) :
    characters? (ofChar c :: rest) = (characters? rest).map (c :: ·) := by
  unfold ofChar
  split
  · next hcontrol =>
    have hlt : c.toNat < 32 := hcontrol.1
    have hlow : isLowSurrogate c.toNat = false :=
      Bool.and_eq_false_imp.mpr fun hle => absurd (of_decide_eq_true hle) (by omega)
    have hhigh : isHighSurrogate c.toNat = false :=
      Bool.and_eq_false_imp.mpr fun hle => absurd (of_decide_eq_true hle) (by omega)
    rw [characters?.eq_def]
    simp [hlow, hhigh]
  · rfl

theorem characters?_written (s : List Char) : characters? (s.map ofChar) = some s := by
  induction s with
  | nil => rfl
  | cons c s ih => rw [List.map_cons, characters?_ofChar, ih, Option.map_some]

end Piece

theorem ofPieces_written (s : String) : ofPieces (s.toList.map Piece.ofChar) = string s := by
  rw [ofPieces, Piece.characters?_written]
  simp

def memberOfPair? : Json × Json → Option (String × Json)
  | (string name, value) => some (name, value)
  | _ => none

theorem ofMembers_written (members : List (String × Json)) :
    ofMembers (members.map fun member => (string member.1, member.2)) = object members := by
  have hmembers : (members.map fun member => (string member.1, member.2)).mapM memberOfPair? =
      some members := mapM_map_eq_some fun _ _ => rfl
  unfold ofMembers
  split
  · next heq => exact congrArg object (Option.some.inj (heq.symm.trans hmembers))
  · next heq => exact nomatch heq.symm.trans hmembers

/-- A value is what its reader takes from the front of its tokens, with two steps for a token. -/
def ReadsBack (value : Json) : Prop :=
  ∀ (rest : List Token) (fuel : ℕ), 2 * value.tokens.length ≤ fuel →
    takeValue? fuel (value.tokens ++ rest) = some (value, rest)

theorem ReadsBack.takeItems? {items : List Json} (hne : items ≠ [])
    (h : ∀ item ∈ items, item.ReadsBack) (rest : List Token) (fuel : ℕ)
    (hfuel : 2 * ([Token.comma].intercalate (items.map tokens)).length < fuel) :
    Json.takeItems? fuel ([Token.comma].intercalate (items.map tokens) ++ .closeBracket :: rest) =
      some (items, rest) := by
  induction items generalizing fuel with
  | nil => contradiction
  | cons item items ih =>
    obtain ⟨hitem, hitems⟩ := List.forall_mem_cons.mp h
    obtain ⟨fuel, rfl⟩ : ∃ k, fuel = k + 1 := ⟨fuel - 1, by omega⟩
    cases items with
    | nil =>
      rw [List.map_singleton, List.intercalate_singleton] at hfuel ⊢
      rw [Json.takeItems?, hitem _ fuel (by omega)]
    | cons next items =>
      rw [List.map_cons, List.map_cons, List.intercalate_cons_cons, ← List.map_cons] at hfuel ⊢
      simp only [List.length_append, List.length_singleton] at hfuel
      have hrest := ih (List.cons_ne_nil _ _) hitems fuel (by omega)
      rw [List.append_assoc, List.append_assoc, List.singleton_append, Json.takeItems?,
        hitem _ fuel (by omega)]
      simp only [hrest, Option.map_some]

theorem ReadsBack.takeMembers? {members : List (String × Json)} (hne : members ≠ [])
    (h : ∀ member ∈ members, member.2.ReadsBack) (rest : List Token) (fuel : ℕ)
    (hfuel : 2 * ([Token.comma].intercalate (members.map memberToken)).length < fuel) :
    Json.takeMembers? fuel
        ([Token.comma].intercalate (members.map memberToken) ++ .closeBrace :: rest) =
      some (members.map fun member => (string member.1, member.2), rest) := by
  induction members generalizing fuel with
  | nil => contradiction
  | cons member members ih =>
    obtain ⟨hmember, hmembers⟩ := List.forall_mem_cons.mp h
    obtain ⟨fuel, rfl⟩ : ∃ k, fuel = k + 1 := ⟨fuel - 1, by omega⟩
    cases members with
    | nil =>
      rw [List.map_singleton, List.intercalate_singleton] at hfuel ⊢
      simp only [memberToken, List.length_cons] at hfuel
      rw [memberToken, List.cons_append, List.cons_append, Token.ofString, Json.takeMembers?,
        hmember _ fuel (by omega), ofPieces_written]
      rfl
    | cons next members =>
      rw [List.map_cons, List.map_cons, List.intercalate_cons_cons, ← List.map_cons] at hfuel ⊢
      simp only [memberToken, List.length_append, List.length_cons] at hfuel
      have hrest := ih (List.cons_ne_nil _ _) hmembers fuel (by omega)
      rw [List.append_assoc, List.append_assoc, List.singleton_append, memberToken,
        List.cons_append, List.cons_append, Token.ofString, Json.takeMembers?,
        hmember _ fuel (by omega), ofPieces_written]
      simp only [hrest, Option.map_some]
      rfl

theorem ReadsBack.array {items : List Json} (h : ∀ item ∈ items, item.ReadsBack) :
    (array items).ReadsBack := by
  intro rest fuel hfuel
  rw [tokens_array] at hfuel ⊢
  simp only [List.length_cons, List.length_append] at hfuel
  obtain ⟨fuel, rfl⟩ : ∃ k, fuel = k + 1 := ⟨fuel - 1, by omega⟩
  cases items with
  | nil => rfl
  | cons item items =>
    have hitems := ReadsBack.takeItems? (List.cons_ne_nil item items) h rest fuel (by omega)
    rw [List.cons_append, List.append_assoc, List.singleton_append, takeValue?, hitems]
    · rfl
    · intro others heq
      rw [List.map_cons, Text.intercalate_cons, List.append_assoc] at heq
      exact tokens_append_ne item _ _ heq

theorem ReadsBack.object {members : List (String × Json)}
    (h : ∀ member ∈ members, member.2.ReadsBack) : (object members).ReadsBack := by
  intro rest fuel hfuel
  rw [tokens_object] at hfuel ⊢
  simp only [List.length_cons, List.length_append] at hfuel
  obtain ⟨fuel, rfl⟩ : ∃ k, fuel = k + 1 := ⟨fuel - 1, by omega⟩
  cases members with
  | nil => rfl
  | cons member members =>
    have hmembers := ReadsBack.takeMembers? (List.cons_ne_nil member members) h rest fuel (by omega)
    rw [List.cons_append, List.append_assoc, List.singleton_append, takeValue?, hmembers]
    · exact congrArg (fun value => some (value, rest)) (ofMembers_written _)
    · intro others heq
      rw [List.map_cons, Text.intercalate_cons, List.append_assoc] at heq
      exact memberToken_append_ne member _ _ heq

theorem ReadsBack.of_token {value : Json} {token : Token} (htokens : value.tokens = [token])
    (h : ∀ fuel rest, takeValue? (fuel + 1) (token :: rest) = some (value, rest)) :
    value.ReadsBack := by
  intro rest fuel hfuel
  rw [htokens] at hfuel ⊢
  obtain ⟨fuel, rfl⟩ : ∃ k, fuel = k + 1 := ⟨fuel - 1, by simp at hfuel; omega⟩
  exact h fuel rest

theorem IsRecoverable.readsBack {value : Json} (h : value.IsRecoverable) : value.ReadsBack := by
  induction h with
  | null => exact .of_token rfl fun _ _ => rfl
  | bool value => exact .of_token rfl fun _ _ => rfl
  | integer least greatest =>
    refine .of_token rfl fun fuel rest => ?_
    rw [takeValue?, Numeral.toJson_ofInt least greatest]
  | real h =>
    refine .of_token rfl fun fuel rest => ?_
    rw [takeValue?, Numeral.toJson_ofFinite h]
  | string value =>
    refine .of_token rfl fun fuel rest => ?_
    rw [Token.ofString, takeValue?, ofPieces_written]
  | array _ ih => exact .array ih
  | object _ ih => exact .object ih

/-- A recoverable value reads back from its compact text. -/
theorem ofText?_compact_of_isRecoverable {value : Json} (h : value.IsRecoverable) :
    ofText? value.compact = some value := by
  have hread := h.readsBack [] (2 * value.tokens.length) le_rfl
  rw [List.append_nil] at hread
  rw [ofText?, ofText?_compact h.isWritable, Option.bind_some, ofTokens?, hread]

end Json
end FilterForest
