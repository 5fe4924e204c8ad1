import FilterForest.Calendar.Reader
import FilterForest.Filter.Attribute
import FilterForest.Predicate
import FilterForest.Traced

/-!
# Compiling attribute filters

An attribute filter compiles to one test of its property, or to nothing when its condition does
not suit its type or its values do not read. How an inverted filter negates depends on its
condition: a comparison becomes its complement, a boolean condition flips its literal, and every
other test is wrapped in a negation.
-/

namespace FilterForest
namespace AttributeFilter

/-- A filter value as a number, with blanks around it. -/
def number? (raw : String) : Option Binary64 := Binary64.ofFiniteText? (Text.trim raw.toList)

def moment? (raw : String) : Option Moment := Moment.ofText? raw.toList

def numberOperand (raw : String) : Traced Binary64 := .orDrop (number? raw) .unparsableNumber

def momentOperand (raw : String) : Traced Moment := .orDrop (moment? raw) .unparsableDate

/-- The LIKE pattern for a condition on strings. -/
def pattern? (value : String) : Condition → Option String
  | .equals => some value
  | .like => some ("%" ++ value ++ "%")
  | .startsWith => some (value ++ "%")
  | .endsWith => some ("%" ++ value)
  | _ => none

variable (f : AttributeFilter)

def test (t : Test) : Predicate := .atom f.property t

/-- A test that is negated as a whole in an inverted filter. -/
def invertibleTest (t : Test) : Predicate := (f.test t).negateIf f.inverted

def comparison (value : Literal) : Traced Predicate :=
  .ofOption ((f.condition.comparisonFor? f.inverted).map fun op => f.test (.compare op value))

/-- The days from one to another, both included. -/
def dayRange (first last : Date) : Predicate :=
  f.invertibleTest (.between (.text (.ofList first.startText)) (.text (.ofList last.endText)))

/-- A value as a member of a list, for numeric types only if it is a number. -/
def member (raw : String) : Traced Literal :=
  if f.type.isNumeric then do
    return .number (← .orDrop (number? raw) .nonNumericMember)
  else
    return .text raw

def compileMembership : Traced Predicate := do
  match ← Traced.collect (f.values.map f.member) with
  | [] => .nothing
  | values => return f.invertibleTest (.oneOf values)

def compileNumeric : Traced Predicate :=
  match f.condition, f.values with
  | .between, lower :: upper :: _ => do
    let lower ← numberOperand lower
    let upper ← numberOperand upper
    return f.invertibleTest (.between (.number lower) (.number upper))
  | .comparison _, value :: _ => do
    f.comparison (.number (← numberOperand value))
  | _, _ => .nothing

def compileTemporal : Traced Predicate :=
  match f.condition, f.values with
  | .on, value :: _ => do
    let moment ← momentOperand value
    return f.dayRange moment.date moment.date
  | .between, first :: last :: _ => do
    let first ← momentOperand first
    let last ← momentOperand last
    return f.dayRange first.date last.date
  | .after, value :: _ | .before, value :: _ => do
    let moment ← momentOperand value
    f.comparison (.text (.ofList moment.timestamp))
  | _, _ => .nothing

def compileString : Traced Predicate :=
  match f.values with
  | value :: _ =>
    .ofOption ((pattern? value f.condition).map fun pattern =>
      f.invertibleTest (.like pattern !f.caseSensitive))
  | [] => .nothing

def compileBoolean : Traced Predicate :=
  match f.condition with
  | .isTrue => return f.test (.compare .equal (.bool (true != f.inverted)))
  | .isFalse => return f.test (.compare .equal (.bool (false != f.inverted)))
  | _ => .nothing

def compile : Traced Predicate :=
  match f.condition with
  | .isNull => return f.invertibleTest .isNull
  | .uniqueValues => f.compileMembership
  | _ =>
    match f.type with
    | .geometry _ => .dropped .geometryAttribute
    | .numeric _ => f.compileNumeric
    | .temporal _ => f.compileTemporal
    | .string => f.compileString
    | .boolean => f.compileBoolean
    | .unknown => .nothing

end AttributeFilter
end FilterForest
