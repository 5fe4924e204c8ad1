import FilterForest.Calendar.Moment
import FilterForest.Number.Decimal.Reader
import FilterForest.Text.Blank

/-!
# Reading moments

Three forms of a moment are tried in turn, with blanks around each. The first is RFC 3339: fields
of fixed width and an offset. The second is a date and a time of day without an offset, the third
a date alone; both are taken as universal time, their fields may be shorter, a signed year may be
longer, and blanks may stand before each number.
-/

namespace FilterForest

open Text

namespace Moment

/-- A step that takes a part from the start of a text. -/
abbrev Taking (α : Type) := List Char → Option (α × List Char)

def expect (accepted : Char → Bool) : List Char → Option (List Char)
  | [] => none
  | c :: rest => if accepted c then some rest else none

/-- As many digits as there are, up to `most` and at least one. -/
def takeUpTo (most : Nat) : Taking Nat := fun s =>
  let digits := (s.take most).takeWhile Char.isDigit
  if digits.isEmpty then none else some (Nat.ofDigitChars 10 digits 0, s.drop digits.length)

def takeExactly (count : Nat) : Taking Nat := fun s =>
  let digits := s.take count
  if digits.length = count && digits.all Char.isDigit then
    some (Nat.ofDigitChars 10 digits 0, s.drop count)
  else none

/-- Digits up to the first other character, at least one. -/
def takeAll : Taking Nat := fun s => takeUpTo s.length s

/-- A year: up to four digits, or a sign and any number of digits. -/
def takeYear : Taking Int := fun s =>
  match trimStart s with
  | '-' :: rest => (takeAll rest).map fun (n, rest) => (-(n : Int), rest)
  | '+' :: rest => (takeAll rest).map fun (n, rest) => ((n : Int), rest)
  | s => (takeUpTo 4 s).map fun (n, rest) => ((n : Int), rest)

/-- One or two digits after blanks. -/
def takeField : Taking Nat := fun s => takeUpTo 2 (trimStart s)

def takeDate (year : Taking Int) (field : Taking Nat) : Taking Date := fun s => do
  let (year, s) ← year s
  let s ← expect (· = '-') s
  let (month, s) ← field s
  let s ← expect (· = '-') s
  let (day, s) ← field s
  return (← Date.ofParts? year month day, s)

def takeClock (field : Taking Nat) : Taking Clock := fun s => do
  let (hour, s) ← field s
  let s ← expect (· = ':') s
  let (minute, s) ← field s
  let s ← expect (· = ':') s
  let (second, s) ← field s
  return (← Clock.ofParts? hour minute second, s)

/-- Passes over a fraction of a second, which has at least one digit. -/
def dropFraction : List Char → Option (List Char)
  | '.' :: rest => (takeAll rest).map Prod.snd
  | rest => some rest

/-- The sign of an offset, whether it is a minus: a hyphen, or the minus of mathematics. -/
def takeOffsetSign : Taking Bool
  | '+' :: rest => some (false, rest)
  | '-' :: rest => some (true, rest)
  | '\u2212' :: rest => some (true, rest)
  | _ => none

/-- An offset from universal time in minutes: the letter Z, or a sign, hours and minutes. -/
def takeOffset (s : List Char) : Option (Int × List Char) :=
  match expect (fun c => c = 'Z' || c = 'z') s with
  | some rest => some (0, rest)
  | none => do
    let (negative, s) ← takeOffsetSign s
    let (hours, s) ← takeExactly 2 s
    let s ← expect (· = ':') s
    let (minutes, s) ← takeExactly 2 s
    if hours < 24 ∧ minutes < 60 then
      let size : Int := (60 * hours + minutes : Nat)
      return (if negative then -size else size, s)
    else none

def ofRfc3339? (s : List Char) : Option Moment := do
  let (date, s) ← takeDate (fun s => (takeExactly 4 s).map fun (n, rest) => ((n : Int), rest))
    (takeExactly 2) s
  let s ← expect (fun c => c = 'T' || c = 't' || c = ' ') s
  let (clock, s) ← takeClock (takeExactly 2) s
  let s ← dropFraction s
  let (offset, s) ← takeOffset s
  if h : s = [] ∧ offset.natAbs < 1440 then some ⟨date, clock, offset, h.2⟩ else none

def ofLocal? (s : List Char) : Option Moment := do
  let (date, s) ← takeDate takeYear takeField s
  let s ← expect (· = 'T') s
  let (clock, s) ← takeClock takeField s
  if s = [] then some (universal date clock) else none

def ofDay? (s : List Char) : Option Moment := do
  let (date, s) ← takeDate takeYear takeField s
  if s = [] then some (ofDate date) else none

def ofText? (s : List Char) : Option Moment :=
  let s := trim s
  (ofRfc3339? s).or ((ofLocal? s).or (ofDay? s))

end Moment
end FilterForest
