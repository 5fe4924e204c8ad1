import FilterForest.Engine.Options
import FilterForest.Predicate.Cql
import FilterForest.Predicate.Cql2Json
import FilterForest.Text.Blank

/-!
# Output

A compiled predicate in one of the two query languages.
-/

namespace FilterForest

inductive Format
  | cql
  | cql2Json
deriving DecidableEq

namespace Format

def name : Format → String
  | cql => "CQL"
  | cql2Json => "CQL2JSON"

/-- The format with a name as people write it: in any case, with blanks around it, and with or
without a hyphen. -/
def ofName (s : String) : Except Refusal Format :=
  let name := String.ofList ((Text.trim s.toList).map Char.toUpper)
  if name = "CQL" then .ok cql
  else if name = "CQL2JSON" ∨ name = "CQL2-JSON" then .ok cql2Json
  else .error (.format name)

def ofCode? (s : String) : Option Format :=
  if s = cql.name then some cql else if s = cql2Json.name then some cql2Json else none

def ofJson? (value : Json) : Option Format := (Json.code? .direct value).bind ofCode?

end Format

inductive Output
  | cql (text : String)
  | cql2Json (value : Json)

namespace Output

def format : Output → Format
  | cql _ => .cql
  | cql2Json _ => .cql2Json

/-- A predicate in a format. -/
def render (format : Format) (p : Predicate) : Output :=
  match format with
  | .cql => cql (.ofList p.cql)
  | .cql2Json => cql2Json p.toJson

@[simp] theorem format_render (format : Format) (p : Predicate) :
    (render format p).format = format := by
  cases format <;> rfl

def toJson : Output → Json
  | cql text => .string text
  | cql2Json value => value

end Output
end FilterForest
