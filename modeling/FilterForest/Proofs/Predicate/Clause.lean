import FilterForest.Proofs.Predicate.Literal

/-!
# Reading tests

What follows the property of a test is a clause: the word `NOT` if the test is negated in itself, a
word that tells the test, and what it asks. A clause is read in one way only, up to the signs of
zeros.
-/
namespace FilterForest
namespace Test

open Text

/-- The tests that are written with a clause, negated or not. -/
def IsClausal (negated : Bool) : Test → Prop
  | compare _ _ => negated = false
  | intersects _ => False
  | between _ _ | like _ _ | oneOf _ | isNull => True

/-- The word that tells a test. -/
def verb : Test → String
  | compare op _ => op.symbol
  | between _ _ => "BETWEEN"
  | like _ ignoreCase => if ignoreCase then "ILIKE" else "LIKE"
  | oneOf _ => "IN"
  | isNull => "IS"
  | intersects _ => "INTERSECTS"

def negation (negated : Bool) : Test → List Char
  | between _ _ | like _ _ | oneOf _ => if negated then "NOT ".toList else []
  | compare _ _ | isNull | intersects _ => []

def object (negated : Bool) : Test → List Char
  | compare _ value => value.cql
  | between lower upper => lower.cql ++ " AND ".toList ++ upper.cql
  | like pattern _ => quoteText pattern.toList
  | oneOf values => parenthesized ([','].intercalate (values.map Literal.cql))
  | isNull => if negated then "NOT NULL".toList else "NULL".toList
  | intersects operand => operand.cql

/-- What stands after the property of a test. -/
def clause (negated : Bool) (test : Test) : List Char :=
  test.negation negated ++ test.verb.toList ++ ' ' :: test.object negated

theorem invertible?_eq_clause {test : Test} (h : test.IsClausal true) (negated : Bool) :
    test.invertible? negated = some (test.clause negated) := by
  cases test with
  | compare op value => contradiction
  | intersects operand => contradiction
  | between lower upper =>
    cases negated <;> simp [invertible?, invertible?.inserted, clause, negation, verb, object]
  | like pattern ignoreCase =>
    cases negated <;> cases ignoreCase <;>
      simp [invertible?, invertible?.inserted, clause, negation, verb, object]
  | oneOf values =>
    cases negated <;> simp [invertible?, invertible?.inserted, clause, negation, verb, object]
  | isNull =>
    cases negated <;> simp [invertible?, invertible?.inserted, clause, negation, verb, object]

theorem cql_compare (property : List Char) (op : Comparison) (value : Literal) :
    (compare op value).cql property = property ++ ' ' :: (compare op value).clause false := by
  show property ++ ' ' :: op.symbol.toList ++ ' ' :: value.cql = _
  simp [clause, negation, verb, object]

theorem cql_of_isClausal {test : Test} (h : test.IsClausal true) (property : List Char) :
    test.cql property = property ++ ' ' :: test.clause false := by
  have hclause : (test.invertible? false).getD [] = test.clause false := by
    rw [invertible?_eq_clause h, Option.getD_some]
  rw [← hclause]
  cases test with
  | compare op value => contradiction
  | intersects operand => contradiction
  | _ => rfl

/-- The kind of the tests that a word tells. -/
def kindOfVerb (word : String) : Kind :=
  if word = "BETWEEN" then .between
  else if word = "LIKE" ∨ word = "ILIKE" then .like
  else if word = "IN" then .oneOf
  else if word = "IS" then .isNull
  else if word = "INTERSECTS" then .intersects
  else .compare

theorem kindOfVerb_verb (test : Test) : kindOfVerb test.verb = test.kind := by
  cases test with
  | compare op value => cases op <;> rfl
  | like pattern ignoreCase => cases ignoreCase <;> rfl
  | _ => rfl

theorem kind_eq_of_verb {a b : Test} (h : a.verb = b.verb) : a.kind = b.kind := by
  rw [← kindOfVerb_verb, h, kindOfVerb_verb]

def verbs : List String :=
  ["=", "<>", "<", "<=", ">", ">=", "BETWEEN", "LIKE", "ILIKE", "IN", "IS", "INTERSECTS"]

theorem verb_mem (test : Test) : test.verb ∈ verbs := by
  cases test with
  | compare op value => cases op <;> simp [verb, verbs, Comparison.symbol]
  | like pattern ignoreCase => cases ignoreCase <;> simp [verb, verbs]
  | _ => simp [verb, verbs]

theorem not_isBlank_of_mem_verb (test : Test) : ∀ c ∈ test.verb.toList, (!isBlank c) = true := by
  have hverbs : ∀ word ∈ verbs, word.toList.all (!isBlank ·) = true := by decide
  exact List.all_eq_true.mp (hverbs test.verb test.verb_mem)

theorem verb_ne_not (test : Test) : test.verb ≠ "NOT" := by
  have hverbs : ∀ word ∈ verbs, word ≠ "NOT" := by decide
  exact hverbs test.verb test.verb_mem

theorem head_blank (rest : List Char) : ∀ c ∈ (' ' :: rest).head?, (!isBlank c) = false := by
  intro c hc
  obtain rfl := Option.some.inj hc
  rfl

theorem word_inj {word word' : String} {r s : List Char}
    (hword : ∀ c ∈ word.toList, (!isBlank c) = true)
    (hword' : ∀ c ∈ word'.toList, (!isBlank c) = true)
    (heq : word.toList ++ ' ' :: r = word'.toList ++ ' ' :: s) : word = word' ∧ r = s := by
  obtain ⟨hchars, hrest⟩ := run_inj hword hword' (head_blank r) (head_blank s) heq
  exact ⟨String.toList_inj.mp hchars, (List.cons.inj hrest).2⟩

theorem clause_append (negated : Bool) (test : Test) (rest : List Char) :
    test.clause negated ++ rest =
      test.negation negated ++ (test.verb.toList ++ ' ' :: (test.object negated ++ rest)) := by
  simp [clause]

theorem negation_cases (negated : Bool) (test : Test) :
    test.negation negated = [] ∨ test.negation negated = "NOT ".toList := by
  cases test <;> cases negated <;> simp [negation]

theorem not_append_ne (test : Test) (r s : List Char) :
    "NOT ".toList ++ r ≠ test.verb.toList ++ ' ' :: s := by
  intro heq
  have hword := word_inj (List.all_eq_true.mp (by decide)) test.not_isBlank_of_mem_verb
    (show "NOT".toList ++ ' ' :: r = test.verb.toList ++ ' ' :: s from heq)
  exact test.verb_ne_not hword.1.symm

/-- A clause is split into a negation, a word and an object in one way only. -/
theorem clause_split {a b : Test} {n n' : Bool} {r s : List Char}
    (heq : a.clause n ++ r = b.clause n' ++ s) :
    a.negation n = b.negation n' ∧ a.verb = b.verb ∧ a.object n ++ r = b.object n' ++ s := by
  rw [clause_append, clause_append] at heq
  rcases negation_cases n a with ha | ha
  · rcases negation_cases n' b with hb | hb
    · rw [ha, hb] at heq ⊢
      exact ⟨rfl, word_inj a.not_isBlank_of_mem_verb b.not_isBlank_of_mem_verb heq⟩
    · rw [ha, hb] at heq
      exact absurd heq.symm (not_append_ne a _ _)
  · rcases negation_cases n' b with hb | hb
    · rw [ha, hb] at heq
      exact absurd heq (not_append_ne b _ _)
    · rw [ha, hb] at heq ⊢
      exact ⟨rfl, word_inj a.not_isBlank_of_mem_verb b.not_isBlank_of_mem_verb
        (List.append_cancel_left heq)⟩

theorem eq_of_negation {n n' : Bool}
    (h : (if n then "NOT ".toList else []) = if n' then "NOT ".toList else []) : n = n' := by
  cases n <;> cases n' <;> simp at h ⊢

theorem delimits_literal : Delimits EndsLiteral [','] ')' where
  separated := fun _ => endsLiteral_cons rfl (by decide) _
  closed := fun _ => endsLiteral_cons rfl (by decide) _
  distinct := fun _ _ heq => nomatch (List.cons.inj heq).1

/-- A clause is read up to a character that continues no literal. -/
theorem unambiguous_clause {a b : Test} {n n' : Bool} (ha : a.IsClausal n) (hb : b.IsClausal n')
    (hfinite : a.IsFinite) (hfinite' : b.IsFinite) {r s : List Char} (hr : EndsLiteral r)
    (hs : EndsLiteral s) (heq : a.clause n ++ r = b.clause n' ++ s) :
    n = n' ∧ a.same b = true ∧ r = s := by
  obtain ⟨hnegation, hverb, hobject⟩ := clause_split heq
  have hkind := kind_eq_of_verb hverb
  cases a with
  | compare op value =>
    cases b with
    | compare op' value' =>
      obtain ⟨hvalue, hrest⟩ := Literal.unambiguous_cql hfinite hfinite' r s hr hs hobject
      exact ⟨ha.trans hb.symm,
        Bool.and_eq_true_iff.mpr ⟨decide_eq_true (symbol_inj hverb), hvalue⟩, hrest⟩
    | _ => simp [kind] at hkind
  | between lower upper =>
    cases b with
    | between lower' upper' =>
      simp only [object, List.append_assoc] at hobject
      have hand : ∀ rest : List Char, EndsLiteral (" AND ".toList ++ rest) :=
        fun _ => endsLiteral_cons rfl (by decide) _
      obtain ⟨hlower, hafter⟩ := Literal.unambiguous_cql hfinite.1 hfinite'.1 _ _ (hand _) (hand _)
        hobject
      obtain ⟨hupper, hrest⟩ := Literal.unambiguous_cql hfinite.2 hfinite'.2 r s hr hs
        (List.append_cancel_left hafter)
      exact ⟨eq_of_negation hnegation, Bool.and_eq_true_iff.mpr ⟨hlower, hupper⟩, hrest⟩
    | _ => simp [kind] at hkind
  | like pattern ignoreCase =>
    cases b with
    | like pattern' ignoreCase' =>
      obtain ⟨rfl, hrest⟩ := unambiguous_quoteText pattern pattern' r s hr hs hobject
      have hcase : ignoreCase = ignoreCase' := by
        cases ignoreCase <;> cases ignoreCase' <;> simp [verb] at hverb ⊢
      exact ⟨eq_of_negation hnegation,
        Bool.and_eq_true_iff.mpr ⟨decide_eq_true rfl, decide_eq_true hcase⟩, hrest⟩
    | _ => simp [kind] at hkind
  | oneOf values =>
    cases b with
    | oneOf values' =>
      simp only [object, parenthesized_append] at hobject
      obtain ⟨hvalues, hrest⟩ := forall₂_of_intercalate delimits_literal
        (fun a hmem => Literal.cql_append_ne (hfinite a hmem))
        (fun b hmem => Literal.cql_append_ne (hfinite' b hmem))
        (fun a hmem b hmem' => Literal.unambiguous_cql (hfinite a hmem) (hfinite' b hmem'))
        (List.cons.inj hobject).2
      exact ⟨eq_of_negation hnegation, sameList_iff_forall₂.mpr hvalues, hrest⟩
    | _ => simp [kind] at hkind
  | isNull =>
    cases b with
    | isNull =>
      have hnegated : n = n' := by
        cases n <;> cases n' <;> simp [object] at hobject ⊢
      subst hnegated
      exact ⟨rfl, rfl, List.append_cancel_left hobject⟩
    | _ => simp [kind] at hkind
  | intersects operand => contradiction

theorem invertible?_eq_of_same {a b : Test} (h : a.same b = true) (negated : Bool) :
    a.invertible? negated = b.invertible? negated := by
  cases a with
  | compare op value =>
    cases b with
    | compare op' value' => rfl
    | _ => exact absurd h Bool.false_ne_true
  | between lower upper =>
    cases b with
    | between lower' upper' =>
      obtain ⟨hlower, hupper⟩ := Bool.and_eq_true_iff.mp h
      simp only [invertible?, Literal.cql_eq_of_same hlower, Literal.cql_eq_of_same hupper]
    | _ => exact absurd h Bool.false_ne_true
  | like pattern ignoreCase =>
    cases b with
    | like pattern' ignoreCase' =>
      obtain ⟨hpattern, hcase⟩ := Bool.and_eq_true_iff.mp h
      rw [of_decide_eq_true hpattern, of_decide_eq_true hcase]
    | _ => exact absurd h Bool.false_ne_true
  | oneOf values =>
    cases b with
    | oneOf values' =>
      have hvalues : values.map Literal.cql = values'.map Literal.cql := by
        refine map_eq_of_sameList ?_ h
        exact fun _ _ _ _ => Literal.cql_eq_of_same
      simp only [invertible?, hvalues]
    | _ => exact absurd h Bool.false_ne_true
  | isNull =>
    cases b with
    | isNull => rfl
    | _ => exact absurd h Bool.false_ne_true
  | intersects operand =>
    cases b with
    | intersects operand' => rfl
    | _ => exact absurd h Bool.false_ne_true

theorem cql_eq_of_same {a b : Test} (ha : a.IsFinite) (h : a.same b = true)
    (property : List Char) : a.cql property = b.cql property := by
  have hform := invertible?_eq_of_same h false
  cases a with
  | compare op value =>
    cases b with
    | compare op' value' =>
      obtain ⟨hop, hvalue⟩ := Bool.and_eq_true_iff.mp h
      show property ++ ' ' :: op.symbol.toList ++ ' ' :: value.cql =
        property ++ ' ' :: op'.symbol.toList ++ ' ' :: value'.cql
      rw [of_decide_eq_true hop, Literal.cql_eq_of_same hvalue]
    | _ => exact absurd h Bool.false_ne_true
  | intersects operand =>
    cases b with
    | intersects operand' =>
      show "INTERSECTS".toList ++ parenthesized (property ++ ", ".toList ++ operand.cql) = _
      rw [SpatialOperand.cql_eq_of_same ha h]
      rfl
    | _ => exact absurd h Bool.false_ne_true
  | _ =>
    cases b with
    | compare op' value' => exact absurd h Bool.false_ne_true
    | intersects operand' => exact absurd h Bool.false_ne_true
    | _ => exact congrArg (fun form => property ++ ' ' :: Option.getD form []) hform

end Test
end FilterForest
