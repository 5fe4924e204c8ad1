import FilterForest.Predicate.Cql2Json
import FilterForest.Proofs.Geometry.Same
import FilterForest.Text.Blank

/-!
# Equal predicates in JSON

Predicates are equal if they differ in nothing but the signs of zeros. Where all numbers are finite,
this is the equality of their forms in JSON: the name of an operation tells the kind of a node, and
its arguments tell the rest.
-/
namespace FilterForest

open Text

/-- Equality of values, by which the two zeros are equal. -/
def Literal.same : Literal → Literal → Bool
  | text s, text t => s = t
  | number x, number y => x.same y
  | bool a, bool b => a = b
  | _, _ => false

def SpatialOperand.same : SpatialOperand → SpatialOperand → Bool
  | plain g, plain h => g.same h
  | buffered g x, buffered h y => g.same h && x.same y
  | _, _ => false

def Test.same : Test → Test → Bool
  | compare op a, compare op' b => op = op' && a.same b
  | between a b, between a' b' => a.same a' && b.same b'
  | like s ignoreCase, like t ignoreCase' => s = t && ignoreCase = ignoreCase'
  | oneOf as, oneOf bs => sameList Literal.same as bs
  | isNull, isNull => true
  | intersects a, intersects b => a.same b
  | _, _ => false

namespace Predicate

mutual

/-- Equality up to the values of numbers. -/
def same : Predicate → Predicate → Bool
  | junction op as, junction op' bs => op = op' && sameArgs as bs
  | not p, not q => same p q
  | atom property a, atom property' b => property = property' && a.same b
  | _, _ => false

def sameArgs : List Predicate → List Predicate → Bool
  | [], [] => true
  | p :: ps, q :: qs => same p q && sameArgs ps qs
  | _, _ => false

end

theorem sameArgs_eq_sameList (ps qs : List Predicate) : sameArgs ps qs = sameList same ps qs := by
  induction ps generalizing qs with
  | nil => cases qs <;> rfl
  | cons p ps ih =>
    cases qs with
    | nil => rfl
    | cons q qs => rw [sameArgs, sameList, ih]

end Predicate

def Literal.IsFinite : Literal → Prop
  | number x => x.isFinite = true
  | text _ | bool _ => True

def SpatialOperand.IsFinite : SpatialOperand → Prop
  | plain g => g.IsFinite
  | buffered g x => g.IsFinite ∧ x.isFinite = true

def Test.IsFinite : Test → Prop
  | compare _ a => a.IsFinite
  | between a b => a.IsFinite ∧ b.IsFinite
  | oneOf as => ∀ a ∈ as, a.IsFinite
  | intersects operand => operand.IsFinite
  | like _ _ | isNull => True

/-- The property names that need no quoting: no white space, no parenthesis, no comma and no single
quote. -/
def IsPlainName (property : String) : Prop :=
  ∀ c ∈ property.toList, isBlank c = false ∧ c ≠ '(' ∧ c ≠ ')' ∧ c ≠ ',' ∧ c ≠ '\x27'

instance (property : String) : Decidable (IsPlainName property) :=
  List.decidableBAll _ property.toList

/-- Predicates with two arguments at least to every junction, with finite numbers and with plain
property names. -/
inductive Predicate.WellFormed : Predicate → Prop
  | junction {operator : Connective} {args : List Predicate} (two : 2 ≤ args.length)
    (h : ∀ arg ∈ args, WellFormed arg) : WellFormed (junction operator args)
  | not {arg : Predicate} (h : WellFormed arg) : WellFormed (not arg)
  | atom {property : String} {test : Test} (name : IsPlainName property) (h : test.IsFinite) :
    WellFormed (atom property test)

theorem Json.operation_eq_iff {name name' : String} {args args' : List Json} :
    operation name args = operation name' args' ↔ name = name' ∧ args = args' := by
  simp [operation]

theorem Json.property_eq_iff {name name' : String} :
    property name = property name' ↔ name = name' := by
  simp [property]

theorem Json.string_ne_number (s : String) (x : Binary64) : string s ≠ number x := by
  unfold number
  split
  · exact fun h => nomatch h
  · split <;> exact fun h => nomatch h

theorem Json.bool_ne_number (b : Bool) (x : Binary64) : bool b ≠ number x := by
  unfold number
  split
  · exact fun h => nomatch h
  · split <;> exact fun h => nomatch h

theorem Literal.toJson_eq_iff_same {a b : Literal} (ha : a.IsFinite) (hb : b.IsFinite) :
    a.toJson = b.toJson ↔ a.same b = true := by
  cases a with
  | text s =>
    cases b with
    | text t => simp [toJson, same]
    | number y => exact iff_of_false (Json.string_ne_number s y) Bool.false_ne_true
    | bool b => simp [toJson, same]
  | number x =>
    cases b with
    | text t => exact iff_of_false (Json.string_ne_number t x).symm Bool.false_ne_true
    | number y => exact Json.number_eq_iff_same ha hb
    | bool b => exact iff_of_false (Json.bool_ne_number b x).symm Bool.false_ne_true
  | bool a =>
    cases b with
    | text t => simp [toJson, same]
    | number y => exact iff_of_false (Json.bool_ne_number a y) Bool.false_ne_true
    | bool b => simp [toJson, same]

theorem Geometry.toJson_ne_function (g : Geometry) (args : Json) :
    g.toJson ≠ .object [("function", .string "buffer"), ("args", args)] := by
  cases g <;> simp [toJson, withCoordinates]

theorem SpatialOperand.toJson_eq_iff_same {a b : SpatialOperand} (ha : a.IsFinite)
    (hb : b.IsFinite) : a.toJson = b.toJson ↔ a.same b = true := by
  cases a with
  | plain g =>
    cases b with
    | plain h => exact Geometry.toJson_eq_iff_same ha hb
    | buffered h y => exact iff_of_false (g.toJson_ne_function _) Bool.false_ne_true
  | buffered g x =>
    cases b with
    | plain h => exact iff_of_false (h.toJson_ne_function _).symm Bool.false_ne_true
    | buffered h y =>
      simp only [toJson, same, Json.object.injEq, List.cons.injEq, Prod.mk.injEq, Json.array.injEq,
        true_and, and_true, Bool.and_eq_true, Geometry.toJson_eq_iff_same ha.1 hb.1,
        Json.number_eq_iff_same ha.2 hb.2]

namespace Test

def operationName : Test → String
  | compare op _ => op.symbol
  | between _ _ => "between"
  | like _ _ => "like"
  | oneOf _ => "in"
  | isNull => "isNull"
  | intersects _ => "s_intersects"

/-- The arguments of the operation of a test after the property. -/
def operands : Test → List Json
  | compare _ value => [value.toJson]
  | between lower upper => [lower.toJson, upper.toJson]
  | like pattern ignoreCase => [.string pattern, .bool ignoreCase]
  | oneOf values => [.array (values.map Literal.toJson)]
  | isNull => []
  | intersects operand => [operand.toJson]

theorem toJson_eq (property : String) (test : Test) : test.toJson property =
    .operation test.operationName (.property property :: test.operands) := by
  cases test <;> rfl

theorem symbol_inj {op op' : Comparison} (h : op.symbol = op'.symbol) : op = op' := by
  have hread := Comparison.ofSymbol?_symbol op
  rw [h, Comparison.ofSymbol?_symbol] at hread
  exact (Option.some.inj hread).symm

inductive Kind
  | compare
  | between
  | like
  | oneOf
  | isNull
  | intersects

def kind : Test → Kind
  | compare _ _ => .compare
  | between _ _ => .between
  | like _ _ => .like
  | oneOf _ => .oneOf
  | isNull => .isNull
  | intersects _ => .intersects

/-- The kind of the tests that are written with an operation. -/
def kindOfName (name : String) : Kind :=
  if name = "between" then .between
  else if name = "like" then .like
  else if name = "in" then .oneOf
  else if name = "isNull" then .isNull
  else if name = "s_intersects" then .intersects
  else .compare

theorem kindOfName_operationName (test : Test) : kindOfName test.operationName = test.kind := by
  cases test with
  | compare op value => cases op <;> rfl
  | _ => rfl

theorem operation_ne {a b : Test} (h : a.kind ≠ b.kind) :
    ¬(a.operationName = b.operationName ∧ a.operands = b.operands) := by
  rintro ⟨hname, -⟩
  rw [← kindOfName_operationName, hname, kindOfName_operationName] at h
  contradiction

/-- Tests have the same operation with the same arguments exactly if they are equal. -/
theorem operation_eq_iff_same {a b : Test} (ha : a.IsFinite) (hb : b.IsFinite) :
    a.operationName = b.operationName ∧ a.operands = b.operands ↔ a.same b = true := by
  cases a with
  | compare op value =>
    cases b with
    | compare op' value' =>
      simp only [operationName, operands, same, List.cons.injEq, and_true, Bool.and_eq_true,
        decide_eq_true_eq, Literal.toJson_eq_iff_same ha hb]
      exact and_congr_left' ⟨symbol_inj, congrArg Comparison.symbol⟩
    | _ => exact iff_of_false (operation_ne (by simp [kind])) Bool.false_ne_true
  | between lower upper =>
    cases b with
    | between lower' upper' =>
      simp only [operationName, operands, same, List.cons.injEq, and_true, true_and,
        Bool.and_eq_true, Literal.toJson_eq_iff_same ha.1 hb.1,
        Literal.toJson_eq_iff_same ha.2 hb.2]
    | _ => exact iff_of_false (operation_ne (by simp [kind])) Bool.false_ne_true
  | like pattern ignoreCase =>
    cases b with
    | like pattern' ignoreCase' => simp [operationName, operands, same]
    | _ => exact iff_of_false (operation_ne (by simp [kind])) Bool.false_ne_true
  | oneOf values =>
    cases b with
    | oneOf values' =>
      simp only [operationName, operands, same, List.cons.injEq, and_true, true_and,
        Json.array.injEq]
      exact map_eq_map_iff_sameList fun a hmem b hmem' =>
        Literal.toJson_eq_iff_same (ha a hmem) (hb b hmem')
    | _ => exact iff_of_false (operation_ne (by simp [kind])) Bool.false_ne_true
  | isNull =>
    cases b with
    | isNull => simp [same]
    | _ => exact iff_of_false (operation_ne (by simp [kind])) Bool.false_ne_true
  | intersects operand =>
    cases b with
    | intersects operand' =>
      simp only [operationName, operands, same, List.cons.injEq, and_true, true_and,
        SpatialOperand.toJson_eq_iff_same ha hb]
    | _ => exact iff_of_false (operation_ne (by simp [kind])) Bool.false_ne_true

theorem operationName_ne (test : Test) {name : String} (h : name ∈ ["and", "or", "not"]) :
    test.operationName ≠ name := by
  rintro rfl
  cases test with
  | compare op value => cases op <;> simp [operationName, Comparison.symbol] at h
  | _ => simp [operationName] at h

end Test

namespace Predicate

theorem jsonOfArgs_eq_map (args : List Predicate) : jsonOfArgs args = args.map toJson := by
  induction args with
  | nil => rfl
  | cons arg args ih => rw [jsonOfArgs, ih, List.map_cons]

theorem operationName_mem (operator : Connective) :
    operationName operator ∈ ["and", "or", "not"] := by
  cases operator <;> decide

theorem operationName_inj : ∀ {operator operator' : Connective},
    operationName operator = operationName operator' → operator = operator' := by
  intro operator operator' h
  cases operator <;> cases operator' <;> simp [operationName] at h ⊢

theorem operationName_ne_not (operator : Connective) : operationName operator ≠ "not" := by
  cases operator <;> decide

/-- Predicates with finite numbers have the same form in JSON exactly if they are equal. -/
theorem toJson_eq_iff_same {p q : Predicate} (hp : p.WellFormed) (hq : q.WellFormed) :
    p.toJson = q.toJson ↔ p.same q = true := by
  induction hp generalizing q with
  | @junction operator args _ _ ih =>
    cases hq with
    | @junction operator' args' _ h' =>
      rw [toJson, toJson, Json.operation_eq_iff, jsonOfArgs_eq_map, jsonOfArgs_eq_map,
        map_eq_map_iff_sameList fun a hmem b hmem' => ih a hmem (h' b hmem'), same,
        sameArgs_eq_sameList, Bool.and_eq_true, decide_eq_true_eq]
      exact and_congr_left' ⟨operationName_inj, congrArg operationName⟩
    | not h' =>
      rw [toJson, toJson, Json.operation_eq_iff]
      exact iff_of_false (fun h => operationName_ne_not _ h.1) Bool.false_ne_true
    | @atom property' test' _ h' =>
      rw [toJson, toJson, Test.toJson_eq, Json.operation_eq_iff]
      exact iff_of_false (fun h => test'.operationName_ne (operationName_mem _) h.1.symm)
        Bool.false_ne_true
  | not h ih =>
    cases hq with
    | junction two' h' =>
      rw [toJson, toJson, Json.operation_eq_iff]
      exact iff_of_false (fun h => operationName_ne_not _ h.1.symm) Bool.false_ne_true
    | not h' =>
      rw [toJson, toJson, Json.operation_eq_iff, same, ← ih h']
      simp
    | @atom property' test' _ h' =>
      rw [toJson, toJson, Test.toJson_eq, Json.operation_eq_iff]
      exact iff_of_false (fun h => test'.operationName_ne (by simp) h.1.symm) Bool.false_ne_true
  | @atom property test _ h =>
    cases hq with
    | junction two' h' =>
      rw [toJson, toJson, Test.toJson_eq, Json.operation_eq_iff]
      exact iff_of_false (fun h => test.operationName_ne (operationName_mem _) h.1)
        Bool.false_ne_true
    | not h' =>
      rw [toJson, toJson, Test.toJson_eq, Json.operation_eq_iff]
      exact iff_of_false (fun h => test.operationName_ne (by simp) h.1) Bool.false_ne_true
    | @atom property' test' _ h' =>
      rw [toJson, toJson, Test.toJson_eq, Test.toJson_eq, Json.operation_eq_iff, List.cons.injEq,
        Json.property_eq_iff, and_left_comm, Test.operation_eq_iff_same h h', same,
        Bool.and_eq_true, decide_eq_true_eq]

end Predicate
end FilterForest
