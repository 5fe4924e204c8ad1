import FilterForest.Proofs.Predicate.Clause

/-!
# Equal predicates in query text

Between its parentheses a predicate is one of four sentences: predicates with a connective between
them, `NOT` with a predicate, a spatial test as a call, or a property with a clause. The first word
and what follows it tell which, and then the sentence is read part by part. So where all numbers are
finite and all property names plain, predicates with the same text are equal, as are predicates with
the same form in JSON.
-/
namespace FilterForest

open Text Predicate

/-- What stands between the parentheses of a predicate. -/
inductive Sentence
  | junction (operator : Connective) (args : List Predicate)
  | negation (arg : Predicate)
  | call (property : String) (operand : SpatialOperand)
  | clause (property : String) (negated : Bool) (test : Test)

namespace Sentence

def body : Sentence → List Char
  | junction operator args => (separator operator).intercalate (args.map cql)
  | negation arg => "NOT ".toList ++ arg.cql
  | call property operand =>
    "INTERSECTS".toList ++ parenthesized (property.toList ++ ", ".toList ++ operand.cql)
  | clause property negated test => property.toList ++ ' ' :: test.clause negated

/-- The predicate that a sentence says. -/
def predicate : Sentence → Predicate
  | junction operator args => .junction operator args
  | negation arg => .not arg
  | call property operand => .atom property (.intersects operand)
  | clause property negated test => negateIf negated (.atom property test)

/-- The predicates inside a sentence. -/
def args : Sentence → List Predicate
  | junction _ args => args
  | negation arg => [arg]
  | call _ _ | clause _ _ _ => []

def WellFormed : Sentence → Prop
  | junction _ args => 2 ≤ args.length ∧ ∀ arg ∈ args, arg.WellFormed
  | negation arg => arg.WellFormed
  | call property operand => IsPlainName property ∧ operand.IsFinite
  | clause property negated test => IsPlainName property ∧ test.IsFinite ∧ test.IsClausal negated

/-- Equality up to the values of numbers. -/
def Same : Sentence → Sentence → Prop
  | junction op as, junction op' bs => op = op' ∧ List.Forall₂ (Predicate.same · · = true) as bs
  | negation p, negation q => p.same q = true
  | call property a, call property' b => property = property' ∧ a.same b = true
  | clause property n a, clause property' n' b => property = property' ∧ n = n' ∧ a.same b = true
  | _, _ => False

inductive Kind
  | junction
  | negation
  | call
  | clause

def kind : Sentence → Kind
  | junction _ _ => .junction
  | negation _ => .negation
  | call _ _ => .call
  | clause _ _ _ => .clause

def isWordChar (c : Char) : Bool := !isBlank c && c != '('

/-- The kind of the sentences that start with a word and go on with a text. -/
def kindOfParts : List Char → List Char → Kind
  | [], '(' :: _ => .junction
  | _, ' ' :: '(' :: _ => .negation
  | _, '(' :: _ => .call
  | _, _ => .clause

def kindOf (s : List Char) : Kind := kindOfParts (s.takeWhile isWordChar) (s.dropWhile isWordChar)

theorem WellFormed.of_mem_args {a : Sentence} (h : a.WellFormed) {arg : Predicate}
    (hmem : arg ∈ a.args) : arg.WellFormed := by
  cases a with
  | junction operator args => exact h.2 arg hmem
  | negation p => exact List.mem_singleton.mp hmem ▸ h
  | call property operand => exact absurd hmem List.not_mem_nil
  | clause property negated test => exact absurd hmem List.not_mem_nil

theorem Same.predicate {a b : Sentence} (h : a.Same b) :
    a.predicate.same b.predicate = true := by
  cases a with
  | junction op as =>
    cases b with
    | junction op' bs =>
      obtain ⟨rfl, hargs⟩ := h
      simp only [Sentence.predicate, Predicate.same, sameArgs_eq_sameList, Bool.and_eq_true,
        decide_true, true_and]
      exact sameList_iff_forall₂.mpr hargs
    | _ => exact h.elim
  | negation p =>
    cases b with
    | negation q => exact h
    | _ => exact h.elim
  | call property operand =>
    cases b with
    | call property' operand' =>
      exact Bool.and_eq_true_iff.mpr ⟨decide_eq_true h.1, h.2⟩
    | _ => exact h.elim
  | clause property negated test =>
    cases b with
    | clause property' negated' test' =>
      obtain ⟨hproperty, rfl, htest⟩ := h
      have hatom : (atom property test).same (atom property' test') = true :=
        Bool.and_eq_true_iff.mpr ⟨decide_eq_true hproperty, htest⟩
      cases negated with
      | true => exact hatom
      | false => exact hatom
    | _ => exact h.elim

end Sentence

namespace Predicate

open Sentence

def sentence : Predicate → Sentence
  | .junction operator args => .junction operator args
  | .not (.atom property test) =>
    if (test.invertible? true).isSome then .clause property true test
    else .negation (.atom property test)
  | .not arg => .negation arg
  | .atom property (.intersects operand) => .call property operand
  | .atom property test => .clause property false test

theorem cqlOfArgs_eq_map (args : List Predicate) : cqlOfArgs args = args.map cql := by
  induction args with
  | nil => rfl
  | cons arg args ih => rw [cqlOfArgs, ih, List.map_cons]

theorem predicate_sentence (p : Predicate) : p.sentence.predicate = p := by
  cases p with
  | junction operator args => rfl
  | atom property test => cases test <;> rfl
  | not arg =>
    cases arg with
    | junction operator args => rfl
    | not arg => rfl
    | atom property test => cases test <;> rfl

theorem cql_junction (operator : Connective) (args : List Predicate) :
    (junction operator args).cql =
      parenthesized ((separator operator).intercalate (cqlOfArgs args)) := rfl

theorem cql_atom (property : String) (test : Test) :
    (atom property test).cql = parenthesized (test.cql property.toList) := rfl

theorem cql_not (arg : Predicate) : (not arg).cql = negatedCql arg.cql arg := rfl

theorem negatedCql_of_isClausal (text : List Char) (property : String) {test : Test}
    (h : test.IsClausal true) : negatedCql text (atom property test) =
      parenthesized (property.toList ++ ' ' :: test.clause true) := by
  have hform := Test.invertible?_eq_clause h true
  unfold negatedCql
  simp only [hform]

theorem cql_eq_body (p : Predicate) : p.cql = parenthesized p.sentence.body := by
  cases p with
  | junction operator args =>
    rw [cql_junction, cqlOfArgs_eq_map]
    rfl
  | atom property test =>
    rw [cql_atom]
    cases test with
    | compare op value => exact congrArg parenthesized (Test.cql_compare _ op value)
    | intersects operand => rfl
    | _ => exact congrArg parenthesized (Test.cql_of_isClausal (by trivial) _)
  | not arg =>
    cases arg with
    | junction operator args => rfl
    | not arg => rfl
    | atom property test =>
      rw [cql_not]
      cases test with
      | compare op value => rfl
      | intersects operand => rfl
      | _ => exact negatedCql_of_isClausal _ property trivial

theorem WellFormed.sentence {p : Predicate} (h : p.WellFormed) : p.sentence.WellFormed := by
  cases h with
  | junction two h => exact ⟨two, h⟩
  | @atom property test name h =>
    cases test with
    | compare op value => exact ⟨name, h, rfl⟩
    | intersects operand => exact ⟨name, h⟩
    | _ => exact ⟨name, h, trivial⟩
  | @not arg h =>
    cases h with
    | junction two h => exact .junction two h
    | not h => exact .not h
    | @atom property test name h =>
      cases test with
      | compare op value => exact .atom name h
      | intersects operand => exact .atom name h
      | _ => exact ⟨name, h, trivial⟩

/-- Only the argument of a negation can stand inside its sentence. -/
theorem eq_of_mem_args_not {arg p : Predicate} (h : p ∈ (not arg).sentence.args) : p = arg := by
  cases arg with
  | junction operator args => exact List.mem_singleton.mp h
  | not arg => exact List.mem_singleton.mp h
  | atom property test =>
    cases test with
    | compare op value => exact List.mem_singleton.mp h
    | intersects operand => exact List.mem_singleton.mp h
    | _ => exact absurd h List.not_mem_nil

theorem not_mem_args_atom {property : String} {test : Test} {p : Predicate} :
    p ∉ (atom property test).sentence.args := by
  cases test <;> exact List.not_mem_nil

theorem cql_append (p : Predicate) (rest : List Char) :
    p.cql ++ rest = '(' :: (p.sentence.body ++ ')' :: rest) := by
  rw [cql_eq_body, parenthesized_append]

theorem cql_append_ne (p : Predicate) (r s : List Char) : p.cql ++ r ≠ ')' :: s := by
  rw [cql_append]
  exact fun heq => nomatch (List.cons.inj heq).1

theorem separator_inj {op op' : Connective} {r s : List Char}
    (heq : separator op ++ r = separator op' ++ s) : op = op' := by
  cases op <;> cases op' <;> simp [separator] at heq ⊢

theorem delimits_separator (op : Connective) : Delimits (fun _ => True) (separator op) ')' where
  separated := fun _ => trivial
  closed := fun _ => trivial
  distinct := by
    intro r s heq
    cases op <;> exact nomatch (List.cons.inj heq).1

theorem exists_two {args : List Predicate} (h : 2 ≤ args.length) :
    ∃ p₁ p₂ ps, args = p₁ :: p₂ :: ps := by
  match args, h with
  | p₁ :: p₂ :: ps, _ => exact ⟨p₁, p₂, ps, rfl⟩

theorem intercalate_two (op : Connective) (p₁ p₂ : Predicate) (ps : List Predicate)
    (rest : List Char) : (separator op).intercalate ((p₁ :: p₂ :: ps).map cql) ++ rest =
      p₁.cql ++ (separator op ++ ((separator op).intercalate ((p₂ :: ps).map cql) ++ rest)) := by
  simp [List.intercalate_cons_cons]

end Predicate

namespace Sentence

theorem kindOf_append {word rest : List Char} (hword : ∀ c ∈ word, isWordChar c = true)
    (hrest : ∀ c ∈ rest.head?, isWordChar c = false) :
    kindOf (word ++ rest) = kindOfParts word rest := by
  rw [kindOf, takeWhile_append_of_head hword hrest, dropWhile_append_of_head hword hrest]

theorem clause_append_ne (negated : Bool) (test : Test) (r s : List Char) :
    test.clause negated ++ r ≠ '(' :: s := by
  have hverbs : ∀ word ∈ Test.verbs, word.toList.all (· != '(') = true := by decide
  intro heq
  rw [Test.clause_append] at heq
  rcases test.negation_cases negated with hnone | hnot
  · rw [hnone, List.nil_append] at heq
    cases hword : test.verb.toList with
    | nil =>
      rw [hword] at heq
      exact nomatch (List.cons.inj heq).1
    | cons c tail =>
      rw [hword] at heq
      have hmem : c ∈ test.verb.toList := hword ▸ List.mem_cons_self
      have hne : c ≠ '(' := bne_iff_ne.mp (List.all_eq_true.mp (hverbs _ test.verb_mem) c hmem)
      exact hne (List.cons.inj heq).1
  · rw [hnot] at heq
    exact nomatch (List.cons.inj heq).1

theorem isWordChar_of_isPlainName {property : String} (h : IsPlainName property) :
    ∀ c ∈ property.toList, isWordChar c = true := by
  intro c hc
  obtain ⟨hblank, hopen, _⟩ := h c hc
  simp [isWordChar, hblank, hopen]

theorem head_of_not_isWordChar {c : Char} (h : isWordChar c = false) (rest : List Char) :
    ∀ head ∈ (c :: rest).head?, isWordChar head = false := by
  intro head hhead
  obtain rfl := Option.some.inj hhead
  exact h

theorem body_junction (operator : Connective) (args : List Predicate) :
    (junction operator args).body = (separator operator).intercalate (args.map cql) := rfl

theorem body_negation (arg : Predicate) : (negation arg).body = "NOT ".toList ++ arg.cql := rfl

theorem body_call_append (property : String) (operand : SpatialOperand) (rest : List Char) :
    (call property operand).body ++ rest = "INTERSECTS".toList ++
      '(' :: (property.toList ++ ',' :: ' ' :: (operand.cql ++ ')' :: rest)) := by
  show "INTERSECTS".toList ++ parenthesized (property.toList ++ ", ".toList ++ operand.cql) ++ rest
    = _
  rw [List.append_assoc, parenthesized_append, List.append_assoc, List.append_assoc]
  rfl

theorem body_clause (property : String) (negated : Bool) (test : Test) :
    (clause property negated test).body = property.toList ++ ' ' :: test.clause negated := rfl

theorem kindOfParts_clause {word s : List Char} (h : ∀ t, s ≠ '(' :: t) :
    kindOfParts word (' ' :: s) = .clause := by
  unfold kindOfParts
  split
  · next heq => exact nomatch (List.cons.inj heq).1
  · next heq => exact absurd (List.cons.inj heq).2 (h _)
  · next heq => exact nomatch (List.cons.inj heq).1
  · rfl

theorem kindOf_body {a : Sentence} (h : a.WellFormed) (rest : List Char) :
    kindOf (a.body ++ rest) = a.kind := by
  cases a with
  | junction operator args =>
    obtain ⟨p₁, p₂, ps, rfl⟩ := exists_two h.1
    rw [body_junction, intercalate_two, cql_append]
    exact kindOf_append (show ∀ c ∈ ([] : List Char), isWordChar c = true by simp)
      (head_of_not_isWordChar rfl _)
  | negation arg =>
    rw [body_negation, List.append_assoc, cql_append]
    have hword : "NOT".toList.all isWordChar = true := by decide
    exact kindOf_append (List.all_eq_true.mp hword) (head_of_not_isWordChar rfl _)
  | call property operand =>
    rw [body_call_append]
    have hword : "INTERSECTS".toList.all isWordChar = true := by decide
    exact kindOf_append (List.all_eq_true.mp hword) (head_of_not_isWordChar rfl _)
  | clause property negated test =>
    rw [body_clause, List.append_assoc, List.cons_append,
      kindOf_append (isWordChar_of_isPlainName h.1) (head_of_not_isWordChar rfl _)]
    exact kindOfParts_clause fun t => clause_append_ne negated test rest t

/-- A name of a property ends where a character follows that no such name has. -/
theorem property_inj {property property' : String} (h : IsPlainName property)
    (h' : IsPlainName property') {c : Char} (hc : isBlank c = true ∨ c = ',') {r s : List Char}
    (heq : property.toList ++ c :: r = property'.toList ++ c :: s) :
    property = property' ∧ r = s := by
  have hplain : ∀ {name : String}, IsPlainName name →
      ∀ c ∈ name.toList, (!isBlank c && c != ',') = true := by
    intro name hname c hc
    obtain ⟨hblank, _, _, hcomma, _⟩ := hname c hc
    simp [hblank, hcomma]
  have hend : ∀ rest : List Char, ∀ head ∈ (c :: rest).head?,
      (!isBlank head && head != ',') = false := by
    intro rest head hhead
    obtain rfl := Option.some.inj hhead
    rcases hc with hblank | rfl
    · simp [hblank]
    · rfl
  obtain ⟨hname, hrest⟩ := run_inj (hplain h) (hplain h') (hend r) (hend s) heq
  exact ⟨String.toList_inj.mp hname, (List.cons.inj hrest).2⟩

theorem junction_inj {op op' : Connective} {as bs : List Predicate} (two : 2 ≤ as.length)
    (two' : 2 ≤ bs.length)
    (ih : ∀ p ∈ as, ∀ q ∈ bs, Unambiguous cql (Predicate.same · · = true) (fun _ => True) p q)
    {r s : List Char}
    (heq : (junction op as).body ++ ')' :: r = (junction op' bs).body ++ ')' :: s) :
    (junction op as).Same (junction op' bs) ∧ r = s := by
  obtain ⟨p₁, p₂, ps, rfl⟩ := exists_two two
  obtain ⟨q₁, q₂, qs, rfl⟩ := exists_two two'
  have hop : op = op' := by
    rw [body_junction, body_junction, intercalate_two, intercalate_two] at heq
    have hafter := (ih p₁ List.mem_cons_self q₁ List.mem_cons_self _ _ trivial trivial heq).2
    exact separator_inj hafter
  subst hop
  obtain ⟨hargs, hrest⟩ := forall₂_of_intercalate (delimits_separator op)
    (fun p _ => cql_append_ne p) (fun q _ => cql_append_ne q) ih heq
  exact ⟨⟨rfl, hargs⟩, hrest⟩

theorem call_inj {property property' : String} {a b : SpatialOperand} (hname : IsPlainName property)
    (hname' : IsPlainName property') (ha : a.IsFinite) (hb : b.IsFinite) {r s : List Char}
    (heq : (call property a).body ++ ')' :: r = (call property' b).body ++ ')' :: s) :
    (call property a).Same (call property' b) ∧ r = s := by
  rw [body_call_append, body_call_append] at heq
  have hopened := (List.cons.inj (List.append_cancel_left heq)).2
  obtain ⟨hproperty, hafter⟩ := property_inj hname hname' (.inr rfl) hopened
  obtain ⟨hsame, hrest⟩ := SpatialOperand.unambiguous_cql ha hb _ _ trivial trivial
    (List.cons.inj hafter).2
  exact ⟨⟨hproperty, hsame⟩, (List.cons.inj (List.cons.inj hrest).2).2⟩

theorem clause_inj {property property' : String} {n n' : Bool} {a b : Test}
    (h : (clause property n a).WellFormed) (h' : (clause property' n' b).WellFormed)
    {r s : List Char}
    (heq : (clause property n a).body ++ ')' :: r = (clause property' n' b).body ++ ')' :: s) :
    (clause property n a).Same (clause property' n' b) ∧ r = s := by
  obtain ⟨hname, hfinite, hclausal⟩ := h
  obtain ⟨hname', hfinite', hclausal'⟩ := h'
  rw [body_clause, body_clause, List.append_assoc, List.append_assoc, List.cons_append,
    List.cons_append] at heq
  obtain ⟨hproperty, hafter⟩ := property_inj hname hname' (.inl rfl) heq
  obtain ⟨hnegated, hsame, hrest⟩ := Test.unambiguous_clause hclausal hclausal' hfinite hfinite'
    (endsLiteral_cons rfl (by decide) r) (endsLiteral_cons rfl (by decide) s) hafter
  exact ⟨⟨hproperty, hnegated, hsame⟩, (List.cons.inj hrest).2⟩

/-- A sentence is read up to its closing parenthesis in one way only, if the predicates inside it
are. -/
theorem body_inj {a b : Sentence} (ha : a.WellFormed) (hb : b.WellFormed)
    (ih : ∀ p ∈ a.args, ∀ q ∈ b.args,
      Unambiguous cql (Predicate.same · · = true) (fun _ => True) p q) {r s : List Char}
    (heq : a.body ++ ')' :: r = b.body ++ ')' :: s) : a.Same b ∧ r = s := by
  have hkind : a.kind = b.kind := by
    rw [← kindOf_body ha (')' :: r), heq, kindOf_body hb]
  cases a with
  | junction op as =>
    cases b with
    | junction op' bs => exact junction_inj ha.1 hb.1 ih heq
    | _ => simp [kind] at hkind
  | negation p =>
    cases b with
    | negation q =>
      rw [body_negation, body_negation, List.append_assoc, List.append_assoc] at heq
      obtain ⟨hsame, hrest⟩ := ih p List.mem_cons_self q List.mem_cons_self _ _ trivial trivial
        (List.append_cancel_left heq)
      exact ⟨hsame, (List.cons.inj hrest).2⟩
    | _ => simp [kind] at hkind
  | call property operand =>
    cases b with
    | call property' operand' => exact call_inj ha.1 hb.1 ha.2 hb.2 heq
    | _ => simp [kind] at hkind
  | clause property negated test =>
    cases b with
    | clause property' negated' test' => exact clause_inj ha hb heq
    | _ => simp [kind] at hkind

end Sentence

namespace Predicate

theorem unambiguous_of_args {p q : Predicate} (hp : p.WellFormed) (hq : q.WellFormed)
    (ih : ∀ arg ∈ p.sentence.args, ∀ {q : Predicate}, q.WellFormed →
      Unambiguous cql (same · · = true) (fun _ => True) arg q) :
    Unambiguous cql (same · · = true) (fun _ => True) p q := by
  intro r s _ _ heq
  rw [cql_append, cql_append] at heq
  obtain ⟨hsame, hrest⟩ := Sentence.body_inj hp.sentence hq.sentence
    (fun arg harg arg' harg' => ih arg harg (hq.sentence.of_mem_args harg')) (List.cons.inj heq).2
  have hpredicate := hsame.predicate
  rw [predicate_sentence, predicate_sentence] at hpredicate
  exact ⟨hpredicate, hrest⟩

/-- A predicate is read from the start of a text in one way only. -/
theorem unambiguous_cql {p q : Predicate} (hp : p.WellFormed) (hq : q.WellFormed) :
    Unambiguous cql (same · · = true) (fun _ => True) p q := by
  induction hp generalizing q with
  | junction two h ih => exact unambiguous_of_args (.junction two h) hq ih
  | not h ih =>
    refine unambiguous_of_args (.not h) hq fun arg harg => ?_
    rw [eq_of_mem_args_not harg]
    exact ih
  | atom name h =>
    exact unambiguous_of_args (.atom name h) hq fun arg harg => absurd harg not_mem_args_atom

theorem negatedCql_eq_of_same {p q : Predicate} (h : p.same q = true) (text : List Char) :
    negatedCql text p = negatedCql text q := by
  cases p with
  | junction op as =>
    cases q with
    | junction op' bs => rfl
    | _ => exact absurd h Bool.false_ne_true
  | not p =>
    cases q with
    | not q => rfl
    | _ => exact absurd h Bool.false_ne_true
  | atom property test =>
    cases q with
    | atom property' test' =>
      obtain ⟨hproperty, htest⟩ := Bool.and_eq_true_iff.mp h
      have hform := Test.invertible?_eq_of_same htest true
      unfold negatedCql
      simp only [of_decide_eq_true hproperty, hform]
    | _ => exact absurd h Bool.false_ne_true

/-- Equal predicates have the same text. -/
theorem cql_eq_of_same {p q : Predicate} (hp : p.WellFormed) (h : p.same q = true) :
    p.cql = q.cql := by
  induction hp generalizing q with
  | junction two hargs ih =>
    cases q with
    | junction op' bs =>
      simp only [same, sameArgs_eq_sameList, Bool.and_eq_true, decide_eq_true_eq] at h
      rw [cql_junction, cql_junction, cqlOfArgs_eq_map, cqlOfArgs_eq_map, h.1,
        map_eq_of_sameList (fun a ha b _ hab => ih a ha hab) h.2]
    | _ => exact absurd h Bool.false_ne_true
  | not harg ih =>
    cases q with
    | not q =>
      simp only [same] at h
      rw [cql_not, cql_not, ih h, negatedCql_eq_of_same h]
    | _ => exact absurd h Bool.false_ne_true
  | atom name hfinite =>
    cases q with
    | atom property' test' =>
      simp only [same, Bool.and_eq_true, decide_eq_true_eq] at h
      rw [cql_atom, cql_atom, h.1, Test.cql_eq_of_same hfinite h.2]
    | _ => exact absurd h Bool.false_ne_true

/-- The two query languages tell the same predicates apart, and all that differ. -/
theorem cql_eq_iff_toJson_eq {p q : Predicate} (hp : p.WellFormed) (hq : q.WellFormed) :
    (p.cql = q.cql ↔ p.same q = true) ∧ (p.toJson = q.toJson ↔ p.same q = true) ∧
      (p.cql = q.cql ↔ p.toJson = q.toJson) := by
  have hcql : p.cql = q.cql ↔ p.same q = true := by
    constructor
    · intro heq
      exact (unambiguous_cql hp hq [] [] trivial trivial (by rw [heq])).1
    · exact cql_eq_of_same hp
  have hjson := toJson_eq_iff_same hp hq
  exact ⟨hcql, hjson, hcql.trans hjson.symm⟩

/-- A place and a range outside of which a name may be, with a zero of either sign. -/
def nearOrOutside (negative : Bool) (upper : String) : Predicate :=
  .junction .or
    [.atom "geom" (.intersects (.buffered (.point ⟨.zero, .finite negative .zero⟩) .zero)),
    .not (.atom "name" (.between (.text "a\x27 AND \x27b") (.text upper)))]

theorem wellFormed_nearOrOutside (negative : Bool) (upper : String) :
    (nearOrOutside negative upper).WellFormed := by
  refine .junction le_rfl fun arg harg => ?_
  obtain rfl | rfl : arg = _ ∨ arg = _ := by simpa using harg
  · exact .atom (by decide) ⟨.point ⟨rfl, rfl⟩, rfl⟩
  · exact .not (.atom (by decide) ⟨trivial, trivial⟩)

theorem cql_nearOrOutside :
    ((nearOrOutside false "c").cql = (nearOrOutside true "c").cql ∧
      (nearOrOutside false "c").toJson = (nearOrOutside true "c").toJson) ∧
    (nearOrOutside false "c").cql ≠ (nearOrOutside false "c\x27 AND \x27d").cql := by
  obtain ⟨hcql, hjson, -⟩ := cql_eq_iff_toJson_eq (wellFormed_nearOrOutside false "c")
    (wellFormed_nearOrOutside true "c")
  have hsame : (nearOrOutside false "c").same (nearOrOutside true "c") = true := by decide
  refine ⟨⟨hcql.mpr hsame, hjson.mpr hsame⟩, fun heq => ?_⟩
  have hother := (cql_eq_iff_toJson_eq (wellFormed_nearOrOutside false "c")
    (wellFormed_nearOrOutside false "c\x27 AND \x27d")).1.mp heq
  exact absurd hother (by decide)

end Predicate
end FilterForest
