import FilterForest.Json
import FilterForest.Json.Numeral

/-!
# The value of a numeral

A numeral without point and exponent that fits in 64 bits is an integer. Every other one is a real:
as many digits as fit in 64 bits are read as a whole number, rounded, and scaled by a power of ten,
rounded again. The result can miss the nearest number by a last place, and it is out of range only
when the scaled number is.
-/

namespace FilterForest
namespace Json
namespace Numeral

/-- Appends digits to a number as long as it stays below `2 ^ 64`. Answers the number and the
digits that are left. -/
def gather (start : Nat) : List Char → Nat × List Char
  | [] => (start, [])
  | c :: rest =>
    let next := Nat.ofDigitChars 10 [c] start
    if next < twoTo 64 then gather next rest else (start, c :: rest)

def powerOfTen (e : Nat) : Binary64 := (⟨1, e⟩ : Decimal).toBinary64 false

/-- A number below `2 ^ 64` times a power of ten. The table of powers ends at `10 ^ 308`; two
divisions by its last entry leave nothing of any such number. -/
def scale (significand : Nat) (exponent : Int) : Binary64 :=
  let x := Binary64.ofInt significand
  if significand = 0 then x
  else match exponent with
    | .ofNat e => if e ≤ 308 then x * powerOfTen e else .infinite false
    | .negSucc e =>
      if e + 1 ≤ 308 then x / powerOfTen (e + 1)
      else if e + 1 ≤ 616 then x / powerOfTen 308 / powerOfTen (e + 1 - 308)
      else .zero

def writtenExponent (n : Numeral) : Int :=
  match n.exponent with
  | none => 0
  | some (negative, digits) =>
    let size := Nat.ofDigitChars 10 digits 0
    if negative then -(size : Int) else size

def real? (n : Numeral) : Option Binary64 :=
  let places := n.places.getD []
  let (start, wholeLeft) := gather 0 n.whole
  let (significand, placesLeft) := gather start places
  let exponent := n.writtenExponent + wholeLeft.length - (places.length - placesLeft.length : Nat)
  let x := scale significand exponent
  if x.isFinite then some (if n.negative then -x else x) else none

/-- The integer a numeral writes, if it has the form of one and fits in 64 bits. Zero with a
minus is not an integer. -/
def integer? (n : Numeral) : Option Int :=
  if n.places.isSome || n.exponent.isSome then none
  else
    let size := Nat.ofDigitChars 10 n.whole 0
    if n.negative then
      if size ≠ 0 ∧ size ≤ twoTo 63 then some (-(size : Int)) else none
    else if size < twoTo 64 then some size else none

def toJson (n : Numeral) : Json :=
  match n.integer? with
  | some value => .integer value
  | none =>
    match n.real? with
    | some value => .real value
    | none => .unreadable

end Numeral
end Json
end FilterForest
