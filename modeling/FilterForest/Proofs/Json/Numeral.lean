import FilterForest.Json.Numeral.Layout
import FilterForest.Json.Numeral.Value
import FilterForest.Proofs.Number.Plain

/-!
# Numerals read back

A numeral of the grammar is what its reader takes from the start of its text. The numerals that are
chosen for integers and for finite numbers are of the grammar, and different numbers have different
numerals.
-/
namespace FilterForest
namespace Json
namespace Numeral

structure IsDigits (s : List Char) : Prop where
  nonempty : s ≠ []
  digit : ∀ c ∈ s, c.isDigit = true

/-- The numerals of the grammar. -/
structure WellFormed (n : Numeral) : Prop where
  whole : IsDigits n.whole
  leading : ∀ rest, n.whole = '0' :: rest → rest = []
  places : ∀ digits ∈ n.places, IsDigits digits
  exponent : ∀ part ∈ n.exponent, IsDigits part.2

/-- Whether a numeral ends where a text begins. -/
def Ends (rest : List Char) : Prop :=
  ∀ c ∈ rest.head?, c.isDigit = false ∧ c ≠ '.' ∧ c ≠ 'e' ∧ c ≠ 'E'

def signText (negative : Bool) : List Char := if negative then ['-'] else []

def placesText : Option (List Char) → List Char
  | some digits => '.' :: digits
  | none => []

def exponentText : Option (Bool × List Char) → List Char
  | some (negative, digits) => 'e' :: (if negative then '-' else '+') :: digits
  | none => []

theorem text_eq (n : Numeral) : n.text =
    signText n.negative ++ n.whole ++ placesText n.places ++ exponentText n.exponent := rfl

theorem IsDigits.head {s : List Char} (h : IsDigits s) (rest : List Char) :
    ∃ c tail, s ++ rest = c :: tail ∧ c.isDigit = true := by
  obtain ⟨c, tail, rfl⟩ := List.exists_cons_of_ne_nil h.nonempty
  exact ⟨c, tail ++ rest, rfl, h.digit c List.mem_cons_self⟩

theorem takeDigits?_append {s rest : List Char} (hs : IsDigits s)
    (hrest : ∀ c ∈ rest.head?, c.isDigit = false) :
    takeDigits? (s ++ rest) = some (s, rest) := by
  unfold takeDigits?
  rw [Text.takeWhile_append_of_head hs.digit hrest, Text.dropWhile_append_of_head hs.digit hrest]
  split
  · exact absurd rfl hs.nonempty
  · rfl

theorem takeWhole?_append {s rest : List Char} (hs : IsDigits s)
    (hleading : ∀ tail, s = '0' :: tail → tail = []) (hrest : ∀ c ∈ rest.head?, c.isDigit = false) :
    takeWhole? (s ++ rest) = some (s, rest) := by
  unfold takeWhole?
  rw [takeDigits?_append hs hrest]
  split
  · next heq =>
    obtain ⟨hzero, _⟩ := Prod.mk.inj (Option.some.inj heq)
    exact absurd (hleading _ hzero) (List.cons_ne_nil _ _)
  · rfl

theorem takeMinus_signText (negative : Bool) {s : List Char}
    (hs : ∀ c ∈ s.head?, c.isDigit = true) :
    takeMinus (signText negative ++ s) = (negative, s) := by
  cases negative with
  | true => rfl
  | false =>
    show takeMinus s = _
    unfold takeMinus
    split
    · simp at hs
    · rfl

theorem takePlaces?_append {places : Option (List Char)} (h : ∀ digits ∈ places, IsDigits digits)
    {rest : List Char} (hrest : ∀ c ∈ rest.head?, c.isDigit = false ∧ c ≠ '.') :
    takePlaces? (placesText places ++ rest) = some (places, rest) := by
  cases places with
  | some digits =>
    have htake := takeDigits?_append (h digits rfl) fun c hc => (hrest c hc).1
    simp [placesText, takePlaces?, htake]
  | none =>
    show takePlaces? rest = _
    unfold takePlaces?
    split
    · exact absurd rfl (hrest _ rfl).2
    · rfl

theorem takeSign_exponent (negative : Bool) (s : List Char) :
    Decimal.takeSign ((if negative then '-' else '+') :: s) = (negative, s) := by
  cases negative <;> rfl

theorem takeExponent?_append {exponent : Option (Bool × List Char)}
    (h : ∀ part ∈ exponent, IsDigits part.2) {rest : List Char} (hrest : Ends rest) :
    takeExponent? (exponentText exponent ++ rest) = some (exponent, rest) := by
  cases exponent with
  | some part =>
    obtain ⟨negative, digits⟩ := part
    have htake := takeDigits?_append (h _ rfl) fun c hc => (hrest c hc).1
    simp only [exponentText, List.cons_append, takeExponent?, true_or, if_true,
      takeSign_exponent, htake, Option.map_some]
  | none =>
    cases rest with
    | nil => rfl
    | cons c rest =>
      obtain ⟨_, _, hlower, hupper⟩ := hrest c rfl
      show takeExponent? (c :: rest) = _
      simp [takeExponent?, hlower, hupper]

theorem ends_exponent {exponent : Option (Bool × List Char)} {rest : List Char}
    (hrest : Ends rest) :
    ∀ c ∈ (exponentText exponent ++ rest).head?, c.isDigit = false ∧ c ≠ '.' := by
  intro c hc
  cases exponent with
  | some part =>
    obtain rfl : 'e' = c := Option.some.inj hc
    decide
  | none => exact ⟨(hrest c hc).1, (hrest c hc).2.1⟩

theorem ends_places {places : Option (List Char)} {exponent : Option (Bool × List Char)}
    {rest : List Char} (hrest : Ends rest) :
    ∀ c ∈ (placesText places ++ (exponentText exponent ++ rest)).head?, c.isDigit = false := by
  intro c hc
  cases places with
  | some digits =>
    obtain rfl : '.' = c := Option.some.inj hc
    decide
  | none => exact (ends_exponent hrest c hc).1

/-- A numeral of the grammar reads back from its text. -/
theorem take?_text {n : Numeral} (h : n.WellFormed) {rest : List Char} (hrest : Ends rest) :
    take? (n.text ++ rest) = some (n, rest) := by
  have hdigit : ∀ tail, ∀ c ∈ (n.whole ++ tail).head?, c.isDigit = true := by
    intro tail c hc
    obtain ⟨first, others, heq, hfirst⟩ := h.whole.head tail
    rw [heq] at hc
    obtain rfl : first = c := Option.some.inj hc
    exact hfirst
  simp only [take?, text_eq, List.append_assoc, takeMinus_signText n.negative (hdigit _),
    takeWhole?_append h.whole h.leading (ends_places hrest),
    takePlaces?_append h.places (ends_exponent hrest), takeExponent?_append h.exponent hrest,
    Option.bind_eq_bind, Option.bind_some, Option.pure_def]

end Numeral
end Json
end FilterForest
