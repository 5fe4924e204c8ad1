import FilterForest.Number.Binary64

/-!
# JSON values

Objects keep their members in order and keep repeated names, because a reader of records has to
see them. A text can be well formed and still denote nothing: a string with half of a surrogate
pair, or a number out of the range of binary64. Such a part of a text is `unreadable`, and it
matters only to a reader that asks for its value.
-/

namespace FilterForest

inductive Json
  | null
  | bool (value : Bool)
  | integer (value : Int)
  | real (value : Binary64)
  | string (value : String)
  | array (items : List Json)
  | object (members : List (String × Json))
  | unreadable

namespace Json

mutual

/-- The number of arrays and objects around the innermost value. -/
def depth : Json → Nat
  | array items => depthOfItems items + 1
  | object members => depthOfMembers members + 1
  | _ => 0

def depthOfItems : List Json → Nat
  | [] => 0
  | item :: rest => max (depth item) (depthOfItems rest)

def depthOfMembers : List (String × Json) → Nat
  | [] => 0
  | (_, value) :: rest => max (depth value) (depthOfMembers rest)

end

mutual

/-- Whether every part of a value denotes something. -/
def isReadable : Json → Bool
  | array items => areReadable items
  | object members => membersReadable members
  | unreadable => false
  | _ => true

def areReadable : List Json → Bool
  | [] => true
  | item :: rest => isReadable item && areReadable rest

def membersReadable : List (String × Json) → Bool
  | [] => true
  | (_, value) :: rest => isReadable value && membersReadable rest

end

/-- A number as JSON writes it: whole numbers of safe size are integers, and a value that is not
finite has no number. -/
def number (x : Binary64) : Json :=
  match x.safeInt? with
  | some n => integer n
  | none => if x.isFinite then real x else null

/-- A number that keeps its kind: whole or not it stays a real. -/
def ofBinary64 (x : Binary64) : Json := if x.isFinite then real x else null

end Json
end FilterForest
