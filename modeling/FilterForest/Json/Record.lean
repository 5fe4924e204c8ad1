import FilterForest.Json

/-!
# Reading records

A record is written as an object with its fields by name, or as an array with its fields in order.
Names that are not fields are passed over, whatever their values; a field must not be given twice.
In an array the last fields can be left out, and there must be no more items than fields.
-/

namespace FilterForest
namespace Json

/-- The value of a member, or that there is none. No answer if there are several. -/
def member? (members : List (String × Json)) (name : String) : Option (Option Json) :=
  match members.filter fun member => member.1 = name with
  | [] => some none
  | [(_, value)] => some (some value)
  | _ => none

def objectFields? (names : List String) : Json → Option (List (Option Json))
  | object members => names.mapM (member? members)
  | _ => none

def fields? (names : List String) (value : Json) : Option (List (Option Json)) :=
  match value with
  | array items =>
    if items.length ≤ names.length then
      some (items.map some ++ List.replicate (names.length - items.length) none)
    else none
  | value => objectFields? names value

variable {α : Type}

def required (read : Json → Option α) (field : Option Json) : Option α := field.bind read

/-- A field with a value for when it is not given. -/
def withDefault (default : α) (read : Json → Option α) : Option Json → Option α
  | none => some default
  | some value => read value

/-- A field that can be left out or null. -/
def optional (read : Json → Option α) : Option Json → Option (Option α)
  | none | some null => some none
  | some value => (read value).map some

def string? : Json → Option String
  | string value => some value
  | _ => none

def bool? : Json → Option Bool
  | bool value => some value
  | _ => none

def list? (read : Json → Option α) : Json → Option (List α)
  | array items => items.mapM read
  | _ => none

def int64? : Json → Option Int64
  | integer value =>
    if Int64.minValue.toInt ≤ value ∧ value ≤ Int64.maxValue.toInt then some (.ofInt value)
    else none
  | _ => none

def natural64? : Json → Option Nat
  | integer value => if 0 ≤ value ∧ value < twoTo 64 then some value.toNat else none
  | _ => none

def binary64? : Json → Option Binary64
  | integer value => some (.ofInt value)
  | real value => some value
  | _ => none

/-- Where a code is read. Inside a filter an empty object counts as null. -/
inductive Place
  | direct
  | inFilter
deriving DecidableEq

def Place.isUnit (place : Place) : Json → Bool
  | null => true
  | object [] => place = inFilter
  | _ => false

/-- A code: a string, or an object with one member and no value in it. -/
def code? (place : Place) : Json → Option String
  | string code => some code
  | object [(code, value)] => if place.isUnit value then some code else none
  | _ => none

end Json
end FilterForest
