import FilterForest.Number.Decimal.Reader

/-!
# JSON numerals

A numeral is kept as it is written, apart into its digits, and has a text and a reader of its own.
What it stands for is another matter: `Numeral.toJson` gives a numeral its value, and
`Numeral.ofFinite` chooses the numeral of a number.
-/

namespace FilterForest
namespace Json

/-- The parts of a numeral: a sign, the digits before the point, the digits after it if there is
one, and a signed exponent if there is one. -/
structure Numeral where
  negative : Bool
  whole : List Char
  places : Option (List Char)
  exponent : Option (Bool × List Char)
deriving DecidableEq

namespace Numeral

/-- The text of a numeral. An exponent always shows its sign. -/
def text (n : Numeral) : List Char :=
  (if n.negative then ['-'] else []) ++ n.whole ++
    (match n.places with
      | some digits => '.' :: digits
      | none => []) ++
    match n.exponent with
      | some (negative, digits) => 'e' :: (if negative then '-' else '+') :: digits
      | none => []

/-- Digits at the start of a text, at least one. -/
def takeDigits? (s : List Char) : Option (List Char × List Char) :=
  match s.takeWhile Char.isDigit with
  | [] => none
  | digits => some (digits, s.dropWhile Char.isDigit)

/-- Zero alone or digits that do not start with zero. -/
def takeWhole? (s : List Char) : Option (List Char × List Char) :=
  match takeDigits? s with
  | some ('0' :: _ :: _, _) => none
  | parts => parts

def takePlaces? : List Char → Option (Option (List Char) × List Char)
  | '.' :: rest => (takeDigits? rest).map fun (digits, rest) => (some digits, rest)
  | rest => some (none, rest)

def takeExponent? : List Char → Option (Option (Bool × List Char) × List Char)
  | [] => some (none, [])
  | mark :: rest =>
    if mark = 'e' ∨ mark = 'E' then
      let (negative, size) := Decimal.takeSign rest
      (takeDigits? size).map fun (digits, rest) => (some (negative, digits), rest)
    else
      some (none, mark :: rest)

/-- A minus at the start of a text, and what follows. -/
def takeMinus : List Char → Bool × List Char
  | '-' :: rest => (true, rest)
  | rest => (false, rest)

/-- The longest numeral at the start of a text. -/
def take? (s : List Char) : Option (Numeral × List Char) := do
  let (negative, s) := takeMinus s
  let (whole, s) ← takeWhole? s
  let (places, s) ← takePlaces? s
  let (exponent, s) ← takeExponent? s
  return (⟨negative, whole, places, exponent⟩, s)

end Numeral
end Json
end FilterForest
