import FilterForest.Geometry.Wkt
import FilterForest.Predicate

/-!
# CQL text

Every node stands in parentheses of its own. A negated test that the language can say in one is
written with `NOT` inside the test; every other negation is written before its argument. Strings
stand in single quotes, and a quote inside a string is written twice.
-/

namespace FilterForest

open Text

def quoteText (s : List Char) : List Char :=
  '\x27' :: (s.flatMap fun c => if c = '\x27' then [c, c] else [c]) ++ ['\x27']

def Literal.cql : Literal → List Char
  | text value => quoteText value.toList
  | number value => value.plain
  | bool value => if value then "true".toList else "false".toList

def SpatialOperand.cql : SpatialOperand → List Char
  | plain geometry => geometry.wkt
  | buffered geometry distance =>
    "BUFFER".toList ++ parenthesized (geometry.wkt ++ ", ".toList ++ distance.plain)

namespace Test

/-- A test that has a negated form, without its parentheses and after its property. -/
def invertible? (negated : Bool) : Test → Option (List Char)
  | between lower upper =>
    some (inserted ++ "BETWEEN ".toList ++ lower.cql ++ " AND ".toList ++ upper.cql)
  | like pattern ignoreCase =>
    some (inserted ++ (if ignoreCase then "ILIKE ".toList else "LIKE ".toList) ++
      quoteText pattern.toList)
  | oneOf values =>
    some (inserted ++ "IN ".toList ++ parenthesized ([','].intercalate (values.map Literal.cql)))
  | isNull => some ("IS ".toList ++ inserted ++ "NULL".toList)
  | compare _ _ | intersects _ => none
where
  inserted : List Char := if negated then "NOT ".toList else []

/-- A test of a property, without parentheses. -/
def cql (property : List Char) : Test → List Char
  | compare op value => property ++ ' ' :: op.symbol.toList ++ ' ' :: value.cql
  | intersects operand =>
    "INTERSECTS".toList ++ parenthesized (property ++ ", ".toList ++ operand.cql)
  | test => property ++ ' ' :: (test.invertible? false).getD []

end Test

namespace Predicate

/-- A negation, given the text of its argument. -/
def negatedCql (text : List Char) : Predicate → List Char
  | atom property test =>
    match test.invertible? true with
    | some negated => parenthesized (property.toList ++ ' ' :: negated)
    | none => parenthesized ("NOT ".toList ++ text)
  | junction _ _ | not _ => parenthesized ("NOT ".toList ++ text)

/-- What stands between two arguments of a junction. -/
def separator : Connective → List Char
  | .and => " AND ".toList
  | .or => " OR ".toList

mutual

def cql : Predicate → List Char
  | junction operator args => parenthesized ((separator operator).intercalate (cqlOfArgs args))
  | not arg => negatedCql (cql arg) arg
  | atom property test => parenthesized (test.cql property.toList)

def cqlOfArgs : List Predicate → List (List Char)
  | [] => []
  | arg :: rest => cql arg :: cqlOfArgs rest

end

end Predicate
end FilterForest
