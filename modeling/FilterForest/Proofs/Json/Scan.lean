import FilterForest.Json.Token
import FilterForest.Proofs.Json.Numeral

/-!
# Tokens read back

A list of tokens is read back from its text, as long as no two numerals stand side by side. So the
text determines the tokens.
-/
namespace FilterForest
namespace Json

namespace Piece

theorem unhex?_hex : ∀ n < 32,
    unhex? (n / 4096 % 16).digitChar (n / 256 % 16).digitChar (n / 16 % 16).digitChar
      (n % 16).digitChar = some n := by
  decide

/-- The reader of a string takes one written character at a time. -/
theorem take?_ofChar (c : Char) (rest : List Char) :
    take? ((ofChar c).text ++ rest) =
      (take? rest).map fun parts => (ofChar c :: parts.1, parts.2) := by
  by_cases hcontrol : c < ' ' ∧ escape? c = none
  · have hlt : c.toNat < 32 := hcontrol.1
    simp only [ofChar, if_pos hcontrol, text, hex, List.map_cons, List.map_nil, List.cons_append,
      List.nil_append, take?, unhex?_hex _ hlt]
    cases take? rest <;> rfl
  · rw [ofChar, if_neg hcontrol]
    cases hescape : escape? c with
    | none =>
      have hlarge : ¬ c < ' ' := fun hlt => hcontrol ⟨hlt, hescape⟩
      have hquote : c ≠ '"' := by
        rintro rfl
        contradiction
      have hslash : c ≠ '\\' := by
        rintro rfl
        contradiction
      simp only [text, hescape, List.cons_append, List.nil_append]
      rw [take?]
      · simp [hlarge]
      all_goals simp_all
    | some letter =>
      simp only [text, hescape, List.cons_append, List.nil_append]
      unfold escape? at hescape
      split at hescape
      all_goals
        first
        | contradiction
        | obtain rfl := Option.some.inj hescape
          simp [take?, escaped?]
          cases take? rest <;> rfl

theorem take?_written (s rest : List Char) :
    take? ((s.map ofChar).flatMap text ++ '"' :: rest) = some (s.map ofChar, rest) := by
  induction s with
  | nil => rfl
  | cons c s ih =>
    rw [List.map_cons, List.flatMap_cons, List.append_assoc, take?_ofChar, ih]
    rfl

end Piece

namespace Token

def isNumeral : Token → Bool
  | numeral _ => true
  | _ => false

def IsWritten : Token → Prop
  | numeral n => n.WellFormed
  | string pieces => ∃ s : List Char, pieces = s.map Piece.ofChar
  | _ => True

/-- Tokens that may stand side by side. -/
def Apart (a b : Token) : Prop := a.isNumeral = true → b.isNumeral = false

theorem head_numeral {n : Numeral} (h : n.WellFormed) (rest : List Char) :
    ∃ c tail, n.text ++ rest = c :: tail ∧ (c = '-' ∨ c.isDigit = true) := by
  obtain ⟨c, tail, heq, hc⟩ :=
    h.whole.head (Numeral.placesText n.places ++ (Numeral.exponentText n.exponent ++ rest))
  rw [Numeral.text_eq, Numeral.signText, List.append_assoc, List.append_assoc, List.append_assoc]
  cases n.negative with
  | true => exact ⟨'-', _, rfl, .inl rfl⟩
  | false => exact ⟨c, tail, heq, .inr hc⟩

theorem take?_numeral {n : Numeral} (h : n.WellFormed) {rest : List Char}
    (hrest : Numeral.Ends rest) : take? (n.text ++ rest) = some (numeral n, rest) := by
  have hread := Numeral.take?_text h hrest
  obtain ⟨c, tail, heq, hc⟩ := head_numeral h rest
  rw [heq] at hread ⊢
  unfold take?
  split
  all_goals
    first
    | next hcons =>
      obtain rfl := (List.cons.inj hcons).1
      exact absurd hc (by decide)
    | rw [hread]
      rfl

theorem take?_text {token : Token} (h : token.IsWritten) {rest : List Char}
    (hrest : token.isNumeral = true → Numeral.Ends rest) :
    take? (token.text ++ rest) = some (token, rest) := by
  cases token with
  | numeral n => exact take?_numeral h (hrest rfl)
  | string pieces =>
    obtain ⟨s, rfl⟩ := h
    simp only [text, List.cons_append, List.append_assoc, List.nil_append, take?,
      Piece.take?_written, Option.map_some]
  | bool value => cases value <;> rfl
  | _ => rfl

theorem ends_text {token : Token} (h : token.isNumeral = false) (rest : List Char) :
    Numeral.Ends (token.text ++ rest) := by
  intro c hc
  cases token with
  | numeral n => contradiction
  | bool value =>
    cases value with
    | true =>
      obtain rfl : 't' = c := Option.some.inj hc
      decide
    | false =>
      obtain rfl : 'f' = c := Option.some.inj hc
      decide
  | _ =>
    obtain rfl := Option.some.inj hc
    decide

theorem head_text {token : Token} (h : token.IsWritten) (rest : List Char) :
    ∃ c tail, token.text ++ rest = c :: tail ∧ isSpace c = false := by
  cases token with
  | numeral n =>
    obtain ⟨c, tail, heq, hc⟩ := head_numeral h rest
    refine ⟨c, tail, heq, ?_⟩
    by_contra hspace
    simp only [isSpace, Bool.or_eq_true, decide_eq_true_eq, Bool.not_eq_false] at hspace
    rcases hspace with ((rfl | rfl) | rfl) | rfl
    all_goals exact absurd hc (by decide)
  | bool value =>
    cases value with
    | true => exact ⟨'t', _, rfl, rfl⟩
    | false => exact ⟨'f', _, rfl, rfl⟩
  | _ => exact ⟨_, _, rfl, rfl⟩

theorem scan?_text {tokens : List Token} (hwritten : ∀ token ∈ tokens, token.IsWritten)
    (hapart : tokens.IsChain Apart) {fuel : ℕ} (hfuel : (tokens.flatMap text).length ≤ fuel) :
    scan? fuel (tokens.flatMap text) = some tokens := by
  induction tokens generalizing fuel with
  | nil => cases fuel <;> rfl
  | cons token tokens ih =>
    obtain ⟨hfirst, hothers⟩ := List.forall_mem_cons.mp hwritten
    have hends : token.isNumeral = true → Numeral.Ends (tokens.flatMap text) := by
      intro hnumeral
      cases tokens with
      | nil => exact fun c hc => nomatch hc
      | cons next tokens =>
        exact ends_text ((List.isChain_cons_cons.mp hapart).1 hnumeral) _
    have hread := take?_text hfirst hends
    obtain ⟨c, tail, heq, hspace⟩ := head_text hfirst (tokens.flatMap text)
    rw [List.flatMap_cons] at hfuel ⊢
    have hlength : 1 ≤ token.text.length := by
      obtain ⟨c, tail, hne, _⟩ := head_text hfirst []
      rw [List.append_nil] at hne
      simp [hne]
    rw [List.length_append] at hfuel
    cases fuel with
    | zero => omega
    | succ fuel =>
      have hrest := ih hothers hapart.tail (by omega : (tokens.flatMap text).length ≤ fuel)
      rw [heq] at hread ⊢
      rw [scan?, hspace, hread]
      simp [hrest]

/-- Written tokens with no two numerals side by side read back from their text. -/
theorem ofText?_text {tokens : List Token} (hwritten : ∀ token ∈ tokens, token.IsWritten)
    (hapart : tokens.IsChain Apart) : ofText? (tokens.flatMap text) = some tokens :=
  scan?_text hwritten hapart le_rfl

end Token
end Json
end FilterForest
