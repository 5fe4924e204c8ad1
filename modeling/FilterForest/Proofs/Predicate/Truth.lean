import FilterForest.Predicate
import Mathlib.Data.List.Perm.Basic

/-!
# The truth of predicates

A predicate is true or false once its tests are: a junction as its connective says, a negation if
its argument is false. What joining predicates gives is true or false by their truth values alone,
in any order, and joining by AND restricts as much as all of them together.
-/
namespace FilterForest

namespace Connective

def holds : Connective → List Bool → Bool
  | and, values => values.all id
  | or, values => values.any id

/-- The truth value of what joining gives, if it gives anything. -/
def joined? (operator : Connective) : List Bool → Option Bool
  | [] => none
  | value :: values => some (operator.holds (value :: values))

theorem holds_singleton (operator : Connective) (value : Bool) :
    operator.holds [value] = value := by
  cases operator <;> simp [holds]

theorem holds_perm (operator : Connective) {values values' : List Bool}
    (h : values.Perm values') : operator.holds values = operator.holds values' := by
  cases operator with
  | and => exact h.all_eq
  | or => exact h.any_eq

theorem joined?_of_ne_nil (operator : Connective) {values : List Bool} (h : values ≠ []) :
    operator.joined? values = some (operator.holds values) := by
  obtain ⟨value, values, rfl⟩ := List.exists_cons_of_ne_nil h
  rfl

theorem joined?_perm (operator : Connective) {values values' : List Bool}
    (h : values.Perm values') : operator.joined? values = operator.joined? values' := by
  by_cases hnil : values = []
  · subst hnil
    rw [h.nil_eq]
  · have hnil' : values' ≠ [] := fun heq => hnil (heq ▸ h).eq_nil
    rw [joined?_of_ne_nil operator hnil, joined?_of_ne_nil operator hnil',
      operator.holds_perm h]

end Connective

namespace Predicate

variable (truth : String → Test → Bool)

mutual

/-- Whether a predicate is true, given which tests of which properties are. -/
def holds : Predicate → Bool
  | junction operator args => operator.holds (holdsOfArgs args)
  | not arg => !holds arg
  | atom property test => truth property test

def holdsOfArgs : List Predicate → List Bool
  | [] => []
  | arg :: rest => holds arg :: holdsOfArgs rest

end

theorem holdsOfArgs_eq_map (args : List Predicate) :
    holdsOfArgs truth args = args.map (holds truth) := by
  induction args with
  | nil => rfl
  | cons arg args ih => rw [holdsOfArgs, ih, List.map_cons]

theorem map_holds_combine (operator : Connective) (args : List Predicate) :
    (combine operator args).map (holds truth) = operator.joined? (args.map (holds truth)) := by
  match args with
  | [] => rfl
  | [arg] =>
    rw [combine_singleton, Option.map_some, List.map_singleton, Connective.joined?,
      operator.holds_singleton]
  | first :: second :: rest =>
    rw [combine_cons_cons, Option.map_some, holds, holdsOfArgs_eq_map]
    rfl

/-- Predicates joined by AND are true if all of them are, and so is nothing at all. -/
theorem all_holds_combine_and (args : List Predicate) :
    (combine .and args).all (holds truth) = args.all (holds truth) := by
  match args with
  | [] => rfl
  | [arg] => simp
  | first :: second :: rest => simp [holds, holdsOfArgs_eq_map, Connective.holds, List.all_map]

end Predicate
end FilterForest
