import FilterForest.Proofs.Predicate.Readable

/-!
# The shape of predicates

A predicate has a good shape if no junction joins fewer than two predicates, nothing but a test that
is negated in itself is negated, and no test is empty or mixed. Every negation in such a predicate
is written inside its test, and never as a `NOT` before a text in parentheses.
-/
namespace FilterForest

def Geometry.IsSingle : Geometry → Prop
  | collection _ => False
  | point _ | lineString _ | polygon _ | multiPoint _ | multiLineString _ | multiPolygon _ => True

/-- One geometry, or a collection of several that are single ones. -/
inductive Geometry.IsOneOrMany : Geometry → Prop
  | one {g : Geometry} (h : g.IsSingle) : IsOneOrMany g
  | many {parts : List Geometry} (two : 2 ≤ parts.length) (h : ∀ part ∈ parts, part.IsSingle) :
    IsOneOrMany (collection parts)

/-- The geometry that an operand widens or not. -/
def SpatialOperand.geometry : SpatialOperand → Geometry
  | plain g | buffered g _ => g

def Test.WellShaped : Test → Prop
  | between (.number _) (.number _) | between (.text _) (.text _) => True
  | between _ _ => False
  | oneOf values => values ≠ []
  | intersects operand => operand.geometry.IsOneOrMany
  | compare _ _ | like _ _ | isNull => True

namespace Predicate

inductive WellShaped : Predicate → Prop
  | junction {operator : Connective} {args : List Predicate} (two : 2 ≤ args.length)
    (h : ∀ arg ∈ args, WellShaped arg) : WellShaped (junction operator args)
  | not {property : String} {test : Test} (clausal : test.IsClausal true) (h : test.WellShaped) :
    WellShaped (not (atom property test))
  | atom {property : String} {test : Test} (h : test.WellShaped) : WellShaped (atom property test)

mutual

/-- The number of nodes on the longest path. -/
def height : Predicate → ℕ
  | junction _ args => 1 + heightOfArgs args
  | not arg => 1 + height arg
  | atom _ _ => 1

def heightOfArgs : List Predicate → ℕ
  | [] => 0
  | arg :: rest => max (height arg) (heightOfArgs rest)

end

theorem heightOfArgs_le {args : List Predicate} {n : ℕ} (h : ∀ arg ∈ args, arg.height ≤ n) :
    heightOfArgs args ≤ n := by
  induction args with
  | nil => exact n.zero_le
  | cons arg rest ih =>
    obtain ⟨harg, hrest⟩ := List.forall_mem_cons.mp h
    exact max_le harg (ih hrest)

mutual

theorem WellShaped.of_mem_nodes : ∀ {p : Predicate}, p.WellShaped → ∀ n ∈ p.nodes, n.WellShaped
  | .junction operator args, h, n, hn => by
    rcases List.mem_cons.mp hn with rfl | hn
    · exact h
    · cases h with
      | junction _ hargs => exact of_mem_nodesOfArgs hargs n hn
  | .not arg, h, n, hn => by
    rcases List.mem_cons.mp hn with rfl | hn
    · exact h
    · cases h with
      | not _ htest =>
        obtain rfl := List.mem_singleton.mp hn
        exact .atom htest
  | .atom property test, h, n, hn => by
    obtain rfl := List.mem_singleton.mp hn
    exact h

theorem WellShaped.of_mem_nodesOfArgs : ∀ {args : List Predicate},
    (∀ arg ∈ args, arg.WellShaped) → ∀ n ∈ nodesOfArgs args, n.WellShaped
  | [], _, _, hn => nomatch hn
  | arg :: rest, h, n, hn => by
    obtain ⟨harg, hrest⟩ := List.forall_mem_cons.mp h
    rcases List.mem_append.mp hn with hn | hn
    · exact of_mem_nodes harg n hn
    · exact of_mem_nodesOfArgs hrest n hn

end

end Predicate

/-- A test that is negated in itself is longer by the word `NOT`. -/
theorem Test.length_clause {test : Test} (h : test.IsClausal true) :
    (test.clause true).length = (test.clause false).length + 4 := by
  cases test with
  | compare op value => contradiction
  | intersects operand => contradiction
  | _ => simp [clause, negation, verb, object]

namespace Predicate

open Text

/-- A negated test takes no parentheses of its own, and so is shorter than its general form. -/
theorem WellShaped.cql_not_ne {arg : Predicate} (h : arg.not.WellShaped) :
    arg.not.cql ≠ parenthesized ("NOT ".toList ++ arg.cql) := by
  cases h with
  | @not property test clausal _ =>
    intro heq
    rw [cql_not, negatedCql_of_isClausal _ _ clausal, cql_atom,
      Test.cql_of_isClausal clausal] at heq
    have hlength := congrArg List.length heq
    simp [parenthesized, Test.length_clause clausal] at hlength
    omega

end Predicate
end FilterForest
