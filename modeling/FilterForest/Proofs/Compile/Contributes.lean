import FilterForest.Proofs.Compile.Tests

/-!
# Attribute filters that contribute

Which test an attribute filter asks of its property, and whether it asks for the opposite, as a
relation with one case for each pair of a type and a condition that go together. A filter compiles
to the test that it asks, and to nothing if there is none. What a test is made of says what has an
influence on it: the values that the condition reads, and the case of letters for patterns alone.
-/
namespace FilterForest

open Traced Predicate

/-- The number of values that a condition reads, unless it reads them all. -/
def Condition.valueCount : Condition → ℕ
  | between => 2
  | _ => 1

/-- A test with the case of letters ignored or not, if letters matter to it. -/
def Test.withIgnoreCase (ignoreCase : Bool) : Test → Test
  | like pattern _ => like pattern ignoreCase
  | test => test

namespace AttributeType

theorem exists_of_isNumeric {t : AttributeType} (h : t.isNumeric = true) :
    ∃ type, t = numeric type := by
  cases t with
  | numeric type => exact ⟨type, rfl⟩
  | _ => contradiction

theorem exists_of_isTemporal {t : AttributeType} (h : t.isTemporal = true) :
    ∃ type, t = temporal type := by
  cases t with
  | temporal type => exact ⟨type, rfl⟩
  | _ => contradiction

end AttributeType

namespace AttributeFilter

variable (f : AttributeFilter)

def acceptedValues : List Literal :=
  if f.type.isNumeric then (f.values.filterMap number?).map .number else f.values.map .text

/-- The test that a filter asks, and whether it is negated as a whole. -/
inductive Asks : Bool → Test → Prop
  | null (hcondition : f.condition = .isNull) : Asks f.inverted .isNull
  | oneOf (hcondition : f.condition = .uniqueValues) (hne : f.acceptedValues ≠ []) :
    Asks f.inverted (.oneOf f.acceptedValues)
  | numbers {type : NumericType} {lower upper : String} {rest : List String} {x y : Binary64}
    (htype : f.type = .numeric type) (hcondition : f.condition = .between)
    (hvalues : f.values = lower :: upper :: rest) (hx : number? lower = some x)
    (hy : number? upper = some y) : Asks f.inverted (.between (.number x) (.number y))
  | number {type : NumericType} {made op : Comparison} {value : String} {rest : List String}
    {x : Binary64} (htype : f.type = .numeric type) (hcondition : f.condition = .comparison made)
    (hop : f.condition.comparisonFor? f.inverted = some op) (hvalues : f.values = value :: rest)
    (hx : number? value = some x) : Asks false (.compare op (.number x))
  | pattern {value pattern : String} {rest : List String} (htype : f.type = .string)
    (hvalues : f.values = value :: rest) (hpattern : pattern? value f.condition = some pattern) :
    Asks f.inverted (.like pattern !f.caseSensitive)
  | day {type : TemporalType} {value : String} {rest : List String} {m : Moment}
    (htype : f.type = .temporal type) (hcondition : f.condition = .on)
    (hvalues : f.values = value :: rest) (hm : moment? value = some m) :
    Asks f.inverted (.between (.text (.ofList m.date.startText)) (.text (.ofList m.date.endText)))
  | days {type : TemporalType} {first last : String} {rest : List String} {m n : Moment}
    (htype : f.type = .temporal type) (hcondition : f.condition = .between)
    (hvalues : f.values = first :: last :: rest) (hm : moment? first = some m)
    (hn : moment? last = some n) :
    Asks f.inverted (.between (.text (.ofList m.date.startText)) (.text (.ofList n.date.endText)))
  | moment {type : TemporalType} {op : Comparison} {value : String} {rest : List String}
    {m : Moment} (htype : f.type = .temporal type)
    (hcondition : f.condition = .after ∨ f.condition = .before)
    (hop : f.condition.comparisonFor? f.inverted = some op) (hvalues : f.values = value :: rest)
    (hm : moment? value = some m) : Asks false (.compare op (.text (.ofList m.timestamp)))
  | isTrue (htype : f.type = .boolean) (hcondition : f.condition = .isTrue) :
    Asks false (.compare .equal (.bool (true != f.inverted)))
  | isFalse (htype : f.type = .boolean) (hcondition : f.condition = .isFalse) :
    Asks false (.compare .equal (.bool (false != f.inverted)))

def IsAsked (p : Predicate) : Prop :=
  ∃ negated test, f.Asks negated test ∧ p = (atom f.property test).negateIf negated

variable {f}

theorem yields_number (raw : String) : (numberOperand raw).Yields fun x => number? raw = some x :=
  yields_orDrop (fun _ => id) _

theorem yields_moment (raw : String) : (momentOperand raw).Yields fun m => moment? raw = some m :=
  yields_orDrop (fun _ => id) _

theorem isAsked_comparison {literal : Literal}
    (h : ∀ op, f.condition.comparisonFor? f.inverted = some op →
      f.Asks false (.compare op literal)) :
    (f.comparison literal).Yields f.IsAsked := by
  intro p hp
  obtain ⟨op, hop, rfl⟩ := Option.map_eq_some_iff.mp hp
  exact ⟨_, _, h op hop, rfl⟩

theorem isAsked_compileNumeric {type : NumericType} (htype : f.type = .numeric type) :
    f.compileNumeric.Yields f.IsAsked := by
  unfold compileNumeric
  split
  · next hcondition hvalues =>
    refine (yields_number _).bind fun x hx => (yields_number _).bind fun y hy => yields_pure ?_
    exact ⟨_, _, .numbers htype hcondition hvalues hx hy, rfl⟩
  · next hcondition hvalues =>
    refine (yields_number _).bind fun x hx => isAsked_comparison fun op hop => ?_
    exact .number htype hcondition hop hvalues hx
  · exact yields_nothing

theorem isAsked_compileTemporal {type : TemporalType} (htype : f.type = .temporal type) :
    f.compileTemporal.Yields f.IsAsked := by
  unfold compileTemporal
  split
  · next hcondition hvalues =>
    refine (yields_moment _).bind fun m hm => yields_pure ?_
    exact ⟨_, _, .day htype hcondition hvalues hm, rfl⟩
  · next hcondition hvalues =>
    refine (yields_moment _).bind fun m hm => (yields_moment _).bind fun n hn => yields_pure ?_
    exact ⟨_, _, .days htype hcondition hvalues hm hn, rfl⟩
  · next hcondition hvalues =>
    refine (yields_moment _).bind fun m hm => isAsked_comparison fun op hop => ?_
    exact .moment htype (.inl hcondition) hop hvalues hm
  · next hcondition hvalues =>
    refine (yields_moment _).bind fun m hm => isAsked_comparison fun op hop => ?_
    exact .moment htype (.inr hcondition) hop hvalues hm
  · exact yields_nothing

theorem isAsked_compileString (htype : f.type = .string) : f.compileString.Yields f.IsAsked := by
  unfold compileString
  split
  · next hvalues =>
    intro p hp
    obtain ⟨pattern, hpattern, rfl⟩ := Option.map_eq_some_iff.mp hp
    exact ⟨_, _, .pattern htype hvalues hpattern, rfl⟩
  · exact yields_nothing

theorem isAsked_compileBoolean (htype : f.type = .boolean) : f.compileBoolean.Yields f.IsAsked := by
  unfold compileBoolean
  split
  · next hcondition => exact yields_pure ⟨_, _, .isTrue htype hcondition, rfl⟩
  · next hcondition => exact yields_pure ⟨_, _, .isFalse htype hcondition, rfl⟩
  · exact yields_nothing

theorem result_member (raw : String) : (f.member raw).result =
    if f.type.isNumeric then (number? raw).map .number else some (.text raw) := by
  unfold member
  split
  · simp only [result_bind, result_orDrop, result_pure]
    cases number? raw <;> rfl
  · rfl

theorem result_collect_member :
    (Traced.collect (f.values.map f.member)).result = some f.acceptedValues := by
  rw [result_collect, List.filterMap_map, acceptedValues]
  simp only [Function.comp_def, result_member]
  split
  · rw [List.map_filterMap]
  · rw [List.filterMap_eq_map']

theorem isAsked_compileMembership (hcondition : f.condition = .uniqueValues) :
    f.compileMembership.Yields f.IsAsked := by
  have hmembers : (Traced.collect (f.values.map f.member)).Yields
      fun values => values = f.acceptedValues :=
    fun _ hvalues => (Option.some.inj (result_collect_member.symm.trans hvalues)).symm
  refine hmembers.bind fun values hvalues => ?_
  split
  · exact yields_nothing
  · next hne =>
    subst hvalues
    exact yields_pure ⟨_, _, .oneOf hcondition hne, rfl⟩

theorem isAsked_compile : f.compile.Yields f.IsAsked := by
  unfold compile
  split
  · next hcondition => exact yields_pure ⟨_, _, .null hcondition, rfl⟩
  · next hcondition => exact isAsked_compileMembership hcondition
  · split
    · exact yields_dropped _
    · next htype => exact isAsked_compileNumeric htype
    · next htype => exact isAsked_compileTemporal htype
    · next htype => exact isAsked_compileString htype
    · next htype => exact isAsked_compileBoolean htype
    · exact yields_nothing

theorem result_comparison {op : Comparison} (hop : f.condition.comparisonFor? f.inverted = some op)
    (literal : Literal) :
    (f.comparison literal).result =
      some ((atom f.property (.compare op literal)).negateIf false) := by
  rw [comparison, hop]
  rfl

theorem result_compileMembership (hne : f.acceptedValues ≠ []) :
    f.compileMembership.result =
      some ((atom f.property (.oneOf f.acceptedValues)).negateIf f.inverted) := by
  obtain ⟨value, values, hvalues⟩ := List.exists_cons_of_ne_nil hne
  rw [compileMembership, result_bind, result_collect_member, hvalues]
  rfl

theorem compile_of_pattern {value pattern : String} (htype : f.type = .string)
    (hpattern : pattern? value f.condition = some pattern) : f.compile = f.compileString := by
  unfold compile
  split
  · next hcondition =>
    rw [hcondition] at hpattern
    contradiction
  · next hcondition =>
    rw [hcondition] at hpattern
    contradiction
  · rw [htype]

theorem result_compile_of_asks {negated : Bool} {test : Test} (h : f.Asks negated test) :
    f.compile.result = some ((atom f.property test).negateIf negated) := by
  cases h with
  | null hcondition =>
    rw [compile, hcondition]
    rfl
  | oneOf hcondition hne =>
    rw [compile, hcondition]
    exact result_compileMembership hne
  | numbers htype hcondition hvalues hx hy =>
    simp [compile, compileNumeric, numberOperand, invertibleTest, AttributeFilter.test, htype,
      hcondition, hvalues, hx, hy]
  | @number _ _ _ _ _ x htype hcondition hop hvalues hx =>
    have hcomparison := result_comparison hop (.number x)
    simp [compile, compileNumeric, numberOperand, htype, hcondition, hvalues, hx, hcomparison]
  | pattern htype hvalues hpattern =>
    rw [compile_of_pattern htype hpattern, compileString, hvalues]
    exact congrArg (Option.map _) hpattern
  | day htype hcondition hvalues hm =>
    simp [compile, compileTemporal, momentOperand, dayRange, invertibleTest, AttributeFilter.test,
      htype, hcondition, hvalues, hm]
  | days htype hcondition hvalues hm hn =>
    simp [compile, compileTemporal, momentOperand, dayRange, invertibleTest, AttributeFilter.test,
      htype, hcondition, hvalues, hm, hn]
  | @moment _ _ _ _ m htype hcondition hop hvalues hm =>
    have hcomparison := result_comparison hop (.text (.ofList m.timestamp))
    rcases hcondition with hcondition | hcondition
    · simp [compile, compileTemporal, momentOperand, htype, hcondition, hvalues, hm, hcomparison]
    · simp [compile, compileTemporal, momentOperand, htype, hcondition, hvalues, hm, hcomparison]
  | isTrue htype hcondition =>
    rw [compile, hcondition, htype, compileBoolean, hcondition]
    rfl
  | isFalse htype hcondition =>
    rw [compile, hcondition, htype, compileBoolean, hcondition]
    rfl

/-- A filter compiles to the test that it asks, and to nothing else. -/
theorem result_compile_eq_some_iff {p : Predicate} : f.compile.result = some p ↔ f.IsAsked p := by
  refine ⟨isAsked_compile p, ?_⟩
  rintro ⟨negated, test, hasks, rfl⟩
  exact result_compile_of_asks hasks

variable (f) in
/-- The filters that contribute: whose condition suits their type and whose values read. -/
inductive Contributes : Prop
  | null (hcondition : f.condition = .isNull)
  | numbersAmong {raw : String} (hcondition : f.condition = .uniqueValues)
    (htype : f.type.isNumeric = true) (hraw : raw ∈ f.values) (hread : (number? raw).isSome = true)
  | texts (hcondition : f.condition = .uniqueValues) (htype : f.type.isNumeric = false)
    (hvalues : f.values ≠ [])
  | numbers {lower upper : String} {rest : List String} (htype : f.type.isNumeric = true)
    (hcondition : f.condition = .between) (hvalues : f.values = lower :: upper :: rest)
    (hlower : (number? lower).isSome = true) (hupper : (number? upper).isSome = true)
  | number {op : Comparison} {value : String} {rest : List String}
    (htype : f.type.isNumeric = true) (hcondition : f.condition = .comparison op)
    (hvalues : f.values = value :: rest) (hread : (number? value).isSome = true)
  | pattern (htype : f.type = .string)
    (hcondition : f.condition ∈ [Condition.equals, .like, .startsWith, .endsWith])
    (hvalues : f.values ≠ [])
  | day {value : String} {rest : List String} (htype : f.type.isTemporal = true)
    (hcondition : f.condition ∈ [Condition.on, .after, .before])
    (hvalues : f.values = value :: rest) (hread : (moment? value).isSome = true)
  | days {first last : String} {rest : List String} (htype : f.type.isTemporal = true)
    (hcondition : f.condition = .between) (hvalues : f.values = first :: last :: rest)
    (hfirst : (moment? first).isSome = true) (hlast : (moment? last).isSome = true)
  | truth (htype : f.type = .boolean) (hcondition : f.condition ∈ [Condition.isTrue, .isFalse])

theorem acceptedValues_ne_nil_iff : f.acceptedValues ≠ [] ↔
    if f.type.isNumeric then ∃ raw ∈ f.values, (number? raw).isSome = true else f.values ≠ [] := by
  unfold acceptedValues
  split
  · simp [Option.isSome_iff_ne_none, List.filterMap_eq_nil_iff]
  · simp

theorem Contributes.exists_asks (h : f.Contributes) : ∃ negated test, f.Asks negated test := by
  cases h with
  | null hcondition => exact ⟨_, _, .null hcondition⟩
  | numbersAmong hcondition htype hraw hread =>
    refine ⟨_, _, .oneOf hcondition (acceptedValues_ne_nil_iff.mpr ?_)⟩
    rw [if_pos htype]
    exact ⟨_, hraw, hread⟩
  | texts hcondition htype hvalues =>
    refine ⟨_, _, .oneOf hcondition (acceptedValues_ne_nil_iff.mpr ?_)⟩
    rwa [htype, if_neg Bool.false_ne_true]
  | numbers htype hcondition hvalues hlower hupper =>
    obtain ⟨type, htype⟩ := AttributeType.exists_of_isNumeric htype
    obtain ⟨x, hx⟩ := Option.isSome_iff_exists.mp hlower
    obtain ⟨y, hy⟩ := Option.isSome_iff_exists.mp hupper
    exact ⟨_, _, .numbers htype hcondition hvalues hx hy⟩
  | number htype hcondition hvalues hread =>
    obtain ⟨type, htype⟩ := AttributeType.exists_of_isNumeric htype
    obtain ⟨x, hx⟩ := Option.isSome_iff_exists.mp hread
    exact ⟨_, _, .number htype hcondition (by rw [hcondition]; rfl) hvalues hx⟩
  | pattern htype hcondition hvalues =>
    obtain ⟨value, rest, hvalues⟩ := List.exists_cons_of_ne_nil hvalues
    have hpattern : (pattern? value f.condition).isSome = true := by
      simp only [List.mem_cons, List.not_mem_nil, or_false] at hcondition
      rcases hcondition with h | h | h | h <;> rw [h] <;> rfl
    obtain ⟨pattern, hpattern⟩ := Option.isSome_iff_exists.mp hpattern
    exact ⟨_, _, .pattern htype hvalues hpattern⟩
  | day htype hcondition hvalues hread =>
    obtain ⟨type, htype⟩ := AttributeType.exists_of_isTemporal htype
    obtain ⟨m, hm⟩ := Option.isSome_iff_exists.mp hread
    simp only [List.mem_cons, List.not_mem_nil, or_false] at hcondition
    rcases hcondition with hon | hafter | hbefore
    · exact ⟨_, _, .day htype hon hvalues hm⟩
    · exact ⟨_, _, .moment htype (.inl hafter) (by rw [hafter]; rfl) hvalues hm⟩
    · exact ⟨_, _, .moment htype (.inr hbefore) (by rw [hbefore]; rfl) hvalues hm⟩
  | days htype hcondition hvalues hfirst hlast =>
    obtain ⟨type, htype⟩ := AttributeType.exists_of_isTemporal htype
    obtain ⟨m, hm⟩ := Option.isSome_iff_exists.mp hfirst
    obtain ⟨n, hn⟩ := Option.isSome_iff_exists.mp hlast
    exact ⟨_, _, .days htype hcondition hvalues hm hn⟩
  | truth htype hcondition =>
    simp only [List.mem_cons, List.not_mem_nil, or_false] at hcondition
    rcases hcondition with htrue | hfalse
    · exact ⟨_, _, .isTrue htype htrue⟩
    · exact ⟨_, _, .isFalse htype hfalse⟩

theorem Asks.contributes {negated : Bool} {test : Test} (h : f.Asks negated test) :
    f.Contributes := by
  cases h with
  | null hcondition => exact .null hcondition
  | oneOf hcondition hne =>
    rw [acceptedValues_ne_nil_iff] at hne
    split at hne
    · next htype =>
      obtain ⟨raw, hraw, hread⟩ := hne
      exact .numbersAmong hcondition htype hraw hread
    · next htype => exact .texts hcondition (by simpa using htype) hne
  | numbers htype hcondition hvalues hx hy =>
    exact .numbers (by rw [htype]; rfl) hcondition hvalues (by simp [hx]) (by simp [hy])
  | number htype hcondition hop hvalues hx =>
    exact .number (by rw [htype]; rfl) hcondition hvalues (by simp [hx])
  | pattern htype hvalues hpattern =>
    refine .pattern htype ?_ (by simp [hvalues])
    unfold pattern? at hpattern
    split at hpattern
    · next hcondition => simp [hcondition]
    · next hcondition => simp [hcondition]
    · next hcondition => simp [hcondition]
    · next hcondition => simp [hcondition]
    · contradiction
  | day htype hcondition hvalues hm =>
    exact .day (by rw [htype]; rfl) (by simp [hcondition]) hvalues (by simp [hm])
  | days htype hcondition hvalues hm hn =>
    exact .days (by rw [htype]; rfl) hcondition hvalues (by simp [hm]) (by simp [hn])
  | moment htype hcondition hop hvalues hm =>
    refine .day (by rw [htype]; rfl) ?_ hvalues (by simp [hm])
    rcases hcondition with hcondition | hcondition <;> simp [hcondition]
  | isTrue htype hcondition => exact .truth htype (by simp [hcondition])
  | isFalse htype hcondition => exact .truth htype (by simp [hcondition])

theorem isSome_result_compile_iff : f.compile.result.isSome = true ↔ f.Contributes := by
  simp only [Option.isSome_iff_exists, result_compile_eq_some_iff]
  constructor
  · rintro ⟨p, negated, test, hasks, -⟩
    exact hasks.contributes
  · intro h
    obtain ⟨negated, test, hasks⟩ := h.exists_asks
    exact ⟨_, negated, test, hasks, rfl⟩

/-- Only patterns know of the case of letters. -/
theorem Asks.withCase {negated : Bool} {test : Test} (h : f.Asks negated test)
    (caseSensitive : Bool) : { f with caseSensitive := caseSensitive }.Asks negated
      (test.withIgnoreCase !caseSensitive) := by
  cases h with
  | null hcondition => exact .null hcondition
  | oneOf hcondition hne => exact .oneOf hcondition hne
  | numbers htype hcondition hvalues hx hy => exact .numbers htype hcondition hvalues hx hy
  | number htype hcondition hop hvalues hx => exact .number htype hcondition hop hvalues hx
  | pattern htype hvalues hpattern => exact .pattern htype hvalues hpattern
  | day htype hcondition hvalues hm => exact .day htype hcondition hvalues hm
  | days htype hcondition hvalues hm hn => exact .days htype hcondition hvalues hm hn
  | moment htype hcondition hop hvalues hm => exact .moment htype hcondition hop hvalues hm
  | isTrue htype hcondition => exact .isTrue htype hcondition
  | isFalse htype hcondition => exact .isFalse htype hcondition

theorem valueCount_of_pattern? {value pattern : String} {c : Condition}
    (h : pattern? value c = some pattern) : c.valueCount = 1 := by
  unfold pattern? at h
  split at h
  all_goals first | rfl | contradiction

/-- Values that a condition does not read do not matter. -/
theorem Asks.withValues {negated : Bool} {test : Test} (h : f.Asks negated test)
    (hunique : f.condition ≠ .uniqueValues) {values : List String}
    (hread : values.take f.condition.valueCount = f.values.take f.condition.valueCount) :
    { f with values := values }.Asks negated test := by
  have hsplit : values =
      f.values.take f.condition.valueCount ++ values.drop f.condition.valueCount := by
    rw [← hread, List.take_append_drop]
  cases h with
  | null hcondition => exact .null hcondition
  | oneOf hcondition hne => contradiction
  | numbers htype hcondition hvalues hx hy =>
    rw [hcondition, hvalues] at hsplit
    exact .numbers htype hcondition hsplit hx hy
  | number htype hcondition hop hvalues hx =>
    rw [hcondition, hvalues] at hsplit
    exact .number htype hcondition hop hsplit hx
  | pattern htype hvalues hpattern =>
    rw [valueCount_of_pattern? hpattern, hvalues] at hsplit
    exact .pattern htype hsplit hpattern
  | day htype hcondition hvalues hm =>
    rw [hcondition, hvalues] at hsplit
    exact .day htype hcondition hsplit hm
  | days htype hcondition hvalues hm hn =>
    rw [hcondition, hvalues] at hsplit
    exact .days htype hcondition hsplit hm hn
  | moment htype hcondition hop hvalues hm =>
    have hone : f.condition.valueCount = 1 := by
      rcases hcondition with hcondition | hcondition <;> rw [hcondition] <;> rfl
    rw [hone, hvalues] at hsplit
    exact .moment htype hcondition hop hsplit hm
  | isTrue htype hcondition => exact .isTrue htype hcondition
  | isFalse htype hcondition => exact .isFalse htype hcondition

theorem Asks.eq_oneOf {negated : Bool} {test : Test} (h : f.Asks negated test)
    (hunique : f.condition = .uniqueValues) : test = .oneOf f.acceptedValues := by
  cases h with
  | oneOf hcondition hne => rfl
  | pattern htype hvalues hpattern =>
    rw [hunique] at hpattern
    contradiction
  | _ => simp_all

variable (f)

/-- A filter compiles exactly if it contributes, and then to one test of its property, negated or
not. Without a list of members, values behind those that the condition reads do not matter; with
one, the test is on all values that read, in order. The case of letters changes patterns alone. -/
theorem compile_criterion :
    (f.compile.result.isSome = true ↔ f.Contributes) ∧
      ∀ p, f.compile.result = some p → ∃ negated test,
        p = (atom f.property test).negateIf negated ∧
          (f.condition = .uniqueValues → test = .oneOf f.acceptedValues) ∧
          (f.condition ≠ .uniqueValues → ∀ values : List String,
            values.take f.condition.valueCount = f.values.take f.condition.valueCount →
              { f with values := values }.compile.result = some p) ∧
          ∀ caseSensitive, { f with caseSensitive := caseSensitive }.compile.result =
            some ((atom f.property (test.withIgnoreCase !caseSensitive)).negateIf negated) := by
  refine ⟨isSome_result_compile_iff, fun p hp => ?_⟩
  obtain ⟨negated, test, hasks, rfl⟩ := result_compile_eq_some_iff.mp hp
  refine ⟨negated, test, rfl, hasks.eq_oneOf, fun hunique values hread => ?_,
    fun caseSensitive => result_compile_of_asks (hasks.withCase caseSensitive)⟩
  exact result_compile_of_asks (hasks.withValues hunique hread)

/-- A filter on a name with one value more than its condition reads. -/
def named : AttributeFilter := (ofCondition "name" .string .like).addValues ["Main", "Side"]

/-- A filter on a list of numbers, one of which does not read. -/
def numbered : AttributeFilter :=
  (ofCondition "size" (.numeric .integer) .uniqueValues).addValues ["1", "two", " 3 "]

theorem compile_criterion_named_numbered :
    { named with values := ["Main"] }.compile.result = some (.atom "name" (.like "%Main%" true)) ∧
      { named with caseSensitive := true }.compile.result =
        some (.atom "name" (.like "%Main%" false)) ∧
      ∃ negated, numbered.compile.result = some
        ((atom "size" (.oneOf [.number (.ofInt 1), .number (.ofInt 3)])).negateIf negated) := by
  constructor
  · have hnamed : named.compile.result = some (.atom "name" (.like "%Main%" true)) := rfl
    obtain ⟨negated, test, hp, -, hvalues, -⟩ := named.compile_criterion.2 _ hnamed
    exact hvalues (by decide) ["Main"] rfl
  constructor
  · have hnamed : named.compile.result = some (.atom "name" (.like "%Main%" true)) := rfl
    obtain ⟨negated, test, hp, -, -, hcase⟩ := named.compile_criterion.2 _ hnamed
    cases negated with
    | true => contradiction
    | false =>
      obtain rfl : Test.like "%Main%" true = test := (Predicate.atom.inj hp).2
      exact hcase true
  · have hone : "1" ∈ numbered.values := by decide
    have hcontributes : numbered.Contributes := .numbersAmong rfl rfl hone (by decide +kernel)
    obtain ⟨p, hnumbered⟩ :=
      Option.isSome_iff_exists.mp (numbered.compile_criterion.1.mpr hcontributes)
    obtain ⟨negated, test, rfl, htest, -, -⟩ := numbered.compile_criterion.2 p hnumbered
    have hmembers : numbered.acceptedValues = [.number (.ofInt 1), .number (.ofInt 3)] := by
      decide +kernel
    rw [htest rfl, hmembers] at hnumbered
    exact ⟨negated, hnumbered⟩

end AttributeFilter
end FilterForest
