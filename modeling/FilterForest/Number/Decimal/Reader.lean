import FilterForest.Number.Decimal

/-!
# Reading numbers

The number texts that coordinates and filter values are written in: an optional sign, then digits
with an optional point and an optional exponent, or one of the words for the values that are not
finite. Digits may stand on either side of the point or on both, and words may be in any case.
-/

namespace FilterForest
namespace Decimal

/-- The sign at the start of a text, whether it is a minus, and what follows. -/
def takeSign : List Char → Bool × List Char
  | '-' :: rest => (true, rest)
  | '+' :: rest => (false, rest)
  | rest => (false, rest)

/-- A text of digits alone, at least one. -/
def natural? (s : List Char) : Option Nat :=
  if !s.isEmpty && s.all Char.isDigit then some (Nat.ofDigitChars 10 s 0) else none

def exponent? : List Char → Option Int
  | [] => some 0
  | mark :: rest =>
    if mark = 'e' ∨ mark = 'E' then
      let (negative, size) := takeSign rest
      (natural? size).map fun n => if negative then -(n : Int) else n
    else
      none

/-- The places after a point at the start of a text, and what follows them. -/
def takePlaces : List Char → List Char × List Char
  | '.' :: rest => (rest.takeWhile Char.isDigit, rest.dropWhile Char.isDigit)
  | rest => ([], rest)

def ofText? (s : List Char) : Option Decimal :=
  let whole := s.takeWhile Char.isDigit
  let (places, rest) := takePlaces (s.dropWhile Char.isDigit)
  if whole.isEmpty && places.isEmpty then none
  else (exponent? rest).map fun e =>
    ⟨Nat.ofDigitChars 10 (whole ++ places) 0, e - (places.length : Int)⟩

end Decimal

namespace Binary64

/-- The values that are not finite, by their names in lower case. -/
def ofName? (negative : Bool) (s : List Char) : Option Binary64 :=
  if s = "nan".toList then some nan
  else if s = "inf".toList ∨ s = "infinity".toList then some (infinite negative)
  else none

/-- The number a text denotes, rounded to the nearest. -/
def ofText? (s : List Char) : Option Binary64 :=
  let (negative, size) := Decimal.takeSign s
  match Decimal.ofText? size with
  | some d => some (d.toBinary64 negative)
  | none => ofName? negative (size.map Char.toLower)

/-- The number a text denotes, if it is finite. -/
def ofFiniteText? (s : List Char) : Option Binary64 := (ofText? s).filter isFinite

theorem isFinite_of_ofFiniteText? {s : List Char} {x : Binary64} (h : ofFiniteText? s = some x) :
    x.isFinite = true :=
  (Option.filter_eq_some_iff.1 h).2

end Binary64
end FilterForest
