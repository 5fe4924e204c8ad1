import FilterForest.Compile.Attribute
import FilterForest.Proofs.Predicate.Rows

/-!
# Inverted filters

Whether an attribute filter is inverted decides neither whether it compiles nor what it tests, only
whether the predicate is the test or its opposite.
-/
namespace FilterForest

open Predicate

theorem Condition.comparisonFor?_true (c : Condition) :
    c.comparisonFor? true = (c.comparisonFor? false).map Comparison.complement := by
  simp only [comparisonFor?, Option.map_map]
  rfl

namespace Traced

variable {α : Type}

/-- The one has a result if the other does, and it is the opposite of it. -/
def Opposes (inverted plain : Traced Predicate) : Prop :=
  inverted.result = plain.result.map opposite

theorem opposes_bind (t : Traced α) {inverted plain : α → Traced Predicate}
    (h : ∀ a, (inverted a).Opposes (plain a)) : (t >>= inverted).Opposes (t >>= plain) := by
  unfold Opposes
  rw [result_bind, result_bind, Option.map_bind]
  congr 1
  funext a
  exact h a

/-- Of two results that are opposites, exactly one is true of every row. -/
theorem Opposes.rel_holds {inverted plain : Traced Predicate} (h : inverted.Opposes plain)
    {α : Type*} [LinearOrder α] (scale : Literal → α) :
    Option.Rel (fun p q => ∀ row : Row α, q.holds (row.truth scale) = !p.holds (row.truth scale))
      plain.result inverted.result := by
  rw [h]
  cases plain.result with
  | none => exact .none
  | some p => exact .some fun row => holds_opposite scale row p

end Traced

open Traced

namespace AttributeFilter

variable (f : AttributeFilter)

def withInverted (inverted : Bool) : AttributeFilter := { f with inverted := inverted }

@[simp] theorem condition_withInverted (inverted : Bool) :
    (f.withInverted inverted).condition = f.condition := rfl

@[simp] theorem values_withInverted (inverted : Bool) :
    (f.withInverted inverted).values = f.values := rfl

@[simp] theorem type_withInverted (inverted : Bool) :
    (f.withInverted inverted).type = f.type := rfl

/-- Equality with a boolean literal has another opposite, but no such comparison is made here. -/
theorem opposes_comparison {value : Literal} (h : ∀ b, value ≠ Literal.bool b) :
    ((f.withInverted true).comparison value).Opposes
      ((f.withInverted false).comparison value) := by
  unfold Opposes
  simp only [comparison, withInverted, test, Traced.result_ofOption,
    Condition.comparisonFor?_true, Option.map_map]
  congr 1
  funext op
  cases value with
  | bool b => exact absurd rfl (h b)
  | _ => simp only [Function.comp_apply, opposite]

theorem opposes_compileNumeric :
    (f.withInverted true).compileNumeric.Opposes (f.withInverted false).compileNumeric := by
  unfold compileNumeric
  dsimp only [condition_withInverted, values_withInverted]
  split
  -- A test that is not a comparison is wrapped as a whole, and that is its opposite by definition.
  · exact opposes_bind _ fun lower => opposes_bind _ fun upper => rfl
  · exact opposes_bind _ fun value => f.opposes_comparison nofun
  · rfl

theorem opposes_compileTemporal :
    (f.withInverted true).compileTemporal.Opposes (f.withInverted false).compileTemporal := by
  unfold compileTemporal
  dsimp only [condition_withInverted, values_withInverted]
  split
  · exact opposes_bind _ fun moment => rfl
  · exact opposes_bind _ fun first => opposes_bind _ fun last => rfl
  · exact opposes_bind _ fun moment => f.opposes_comparison nofun
  · exact opposes_bind _ fun moment => f.opposes_comparison nofun
  · rfl

theorem opposes_compileMembership :
    (f.withInverted true).compileMembership.Opposes (f.withInverted false).compileMembership := by
  refine opposes_bind _ fun literals => ?_
  cases literals with
  | nil => rfl
  | cons literal literals => rfl

theorem opposes_compileString :
    (f.withInverted true).compileString.Opposes (f.withInverted false).compileString := by
  unfold compileString
  dsimp only [condition_withInverted, values_withInverted]
  split
  · rw [Opposes, result_ofOption, result_ofOption, Option.map_map]
    rfl
  · rfl

theorem opposes_compileBoolean :
    (f.withInverted true).compileBoolean.Opposes (f.withInverted false).compileBoolean := by
  unfold compileBoolean
  dsimp only [condition_withInverted]
  split <;> rfl

theorem opposes_compile :
    (f.withInverted true).compile.Opposes (f.withInverted false).compile := by
  unfold compile
  dsimp only [condition_withInverted, type_withInverted]
  split
  · rfl
  · exact f.opposes_compileMembership
  · split
    · rfl
    · exact f.opposes_compileNumeric
    · exact f.opposes_compileTemporal
    · exact f.opposes_compileString
    · exact f.opposes_compileBoolean
    · rfl

/-- An inverted filter compiles exactly if the plain one does, and it is then true of exactly the
rows that the plain one is false of: for values in any total order, and however a row answers the
tests that are no comparisons. -/
theorem rel_compile_withInverted {α : Type*} [LinearOrder α] (scale : Literal → α) :
    Option.Rel
      (fun plain inverted => ∀ row : Row α,
        inverted.holds (row.truth scale) = !plain.holds (row.truth scale))
      (f.withInverted false).compile.result (f.withInverted true).compile.result :=
  f.opposes_compile.rel_holds scale

example : ((ofCondition "open" .boolean .isTrue).withInverted true).compile.result =
    some (.atom "open" (.compare .equal (.bool false))) := rfl

end AttributeFilter
end FilterForest
