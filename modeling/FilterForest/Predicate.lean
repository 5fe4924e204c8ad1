import FilterForest.Connective
import FilterForest.Filter.Comparison
import FilterForest.Geometry

/-!
# Predicates

What filters compile to, before it is written in a query language: tests on one property each,
negation, and junctions of any number of predicates.
-/

namespace FilterForest

inductive Literal
  | text (value : String)
  | number (value : Binary64)
  | bool (value : Bool)
deriving DecidableEq

/-- What a property is intersected with: a geometry, or all within a distance of it. -/
inductive SpatialOperand
  | plain (geometry : Geometry)
  | buffered (geometry : Geometry) (distance : Binary64)

inductive Test
  | compare (op : Comparison) (value : Literal)
  | between (lower upper : Literal)
  | like (pattern : String) (ignoreCase : Bool)
  | oneOf (values : List Literal)
  | isNull
  | intersects (operand : SpatialOperand)

inductive Predicate
  | junction (operator : Connective) (args : List Predicate)
  | not (arg : Predicate)
  | atom (property : String) (test : Test)

namespace Predicate

/-- Joins predicates. Nothing is left of none, and one alone is not wrapped. -/
def combine (operator : Connective) : List Predicate → Option Predicate
  | [] => none
  | [predicate] => some predicate
  | predicates => some (junction operator predicates)

@[simp] theorem combine_nil (operator : Connective) : combine operator [] = none := rfl

@[simp] theorem combine_singleton (operator : Connective) (p : Predicate) :
    combine operator [p] = some p := rfl

@[simp] theorem combine_cons_cons (operator : Connective) (p q : Predicate)
    (rest : List Predicate) :
    combine operator (p :: q :: rest) = some (junction operator (p :: q :: rest)) := rfl

theorem combine_eq_none_iff {operator : Connective} {args : List Predicate} :
    combine operator args = none ↔ args = [] := by
  match args with
  | [] => simp
  | [arg] => simp
  | first :: second :: rest => simp

def negateIf (inverted : Bool) (p : Predicate) : Predicate := if inverted then not p else p

mutual

def size : Predicate → Nat
  | junction _ args => 1 + sizeOfArgs args
  | not arg => 1 + size arg
  | atom _ _ => 1

def sizeOfArgs : List Predicate → Nat
  | [] => 0
  | arg :: rest => size arg + sizeOfArgs rest

end

mutual

/-- All nodes: a node before its arguments, and the arguments from left to right. -/
def nodes : Predicate → List Predicate
  | junction operator args => junction operator args :: nodesOfArgs args
  | not arg => not arg :: nodes arg
  | atom property test => [atom property test]

def nodesOfArgs : List Predicate → List Predicate
  | [] => []
  | arg :: rest => nodes arg ++ nodesOfArgs rest

end

def property? : Predicate → Option String
  | atom property _ => some property
  | junction _ _ | not _ => none

/-- Adds a name to a list of names that does not have it. -/
def insertName (names : List String) (name : String) : List String :=
  if name ∈ names then names else names ++ [name]

/-- The properties a predicate names, each once, in the order of their first appearance. -/
def properties (p : Predicate) : List String :=
  (p.nodes.filterMap property?).foldl insertName []

end Predicate
end FilterForest
