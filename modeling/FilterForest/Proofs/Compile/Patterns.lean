import FilterForest.Proofs.Compile.Contributes

/-!
# What the patterns of string conditions match

A percent sign in a pattern stands for any run of characters. A pattern that is put together from
two matches the texts that are put together from one text of each. So the pattern of a condition
matches the texts in which something that the value matches stands where the condition says. The
value matches itself, even if it has percent signs of its own, and without them nothing else.
-/
namespace FilterForest
namespace Text

/-- The texts that a pattern matches: a percent sign matches any run of characters, and every other
character itself. -/
inductive Matches : List Char → List Char → Prop
  | nil : Matches [] []
  | run {p s : List Char} (run : List Char) (h : Matches p s) : Matches ('%' :: p) (run ++ s)
  | char {p s : List Char} {c : Char} (hc : c ≠ '%') (h : Matches p s) :
    Matches (c :: p) (c :: s)

variable {p q s : List Char} {c : Char}

theorem matches_nil_iff : Matches [] s ↔ s = [] := by
  refine ⟨fun h => ?_, fun h => h ▸ .nil⟩
  cases h with
  | nil => rfl

theorem matches_percent_iff : Matches ('%' :: p) s ↔ ∃ rest, rest <:+ s ∧ Matches p rest := by
  constructor
  · intro h
    cases h with
    | run run h => exact ⟨_, List.suffix_append run _, h⟩
    | char hc _ => contradiction
  · rintro ⟨rest, ⟨run, rfl⟩, h⟩
    exact .run run h

theorem matches_cons_iff (hc : c ≠ '%') :
    Matches (c :: p) s ↔ ∃ rest, s = c :: rest ∧ Matches p rest := by
  constructor
  · intro h
    cases h with
    | run run h => contradiction
    | char _ h => exact ⟨_, rfl, h⟩
  · rintro ⟨rest, rfl, h⟩
    exact .char hc h

instance decidableMatches : ∀ p s : List Char, Decidable (Matches p s)
  | [], s => decidable_of_iff (s = []) matches_nil_iff.symm
  | c :: p, s =>
    have := decidableMatches p
    if hc : c = '%' then
      decidable_of_iff (∃ rest ∈ s.tails, Matches p rest) (by
        rw [hc, matches_percent_iff]
        simp only [List.mem_tails])
    else
      decidable_of_iff (s.head? = some c ∧ Matches p s.tail) (by
        rw [matches_cons_iff hc]
        cases s <;> simp)

/-- Two patterns one after the other match the texts of one in front of those of the other. -/
theorem matches_append_iff : Matches (p ++ q) s ↔
    ∃ before after, s = before ++ after ∧ Matches p before ∧ Matches q after := by
  constructor
  · intro h
    induction p generalizing s with
    | nil => exact ⟨[], s, rfl, .nil, h⟩
    | cons c p ih =>
      rw [List.cons_append] at h
      cases h with
      | run run h =>
        obtain ⟨before, after, rfl, hp, hq⟩ := ih h
        exact ⟨run ++ before, after, (List.append_assoc _ _ _).symm, .run run hp, hq⟩
      | char hc h =>
        obtain ⟨before, after, rfl, hp, hq⟩ := ih h
        exact ⟨c :: before, after, rfl, .char hc hp, hq⟩
  · rintro ⟨before, after, rfl, hp, hq⟩
    induction hp with
    | nil => exact hq
    | run run _ ih =>
      rw [List.append_assoc]
      exact .run run ih
    | char hc _ ih => exact .char hc ih

theorem matches_percent (s : List Char) : Matches ['%'] s :=
  matches_percent_iff.mpr ⟨[], List.nil_suffix, .nil⟩

/-- A text matches itself as a pattern: a percent sign in it stands for a percent sign. -/
theorem matches_self (p : List Char) : Matches p p := by
  induction p with
  | nil => exact .nil
  | cons c p ih =>
    by_cases hc : c = '%'
    · subst hc
      exact .run ['%'] ih
    · exact .char hc ih

theorem matches_iff_of_not_mem (hp : '%' ∉ p) : Matches p s ↔ s = p := by
  refine ⟨fun h => ?_, fun h => h ▸ matches_self p⟩
  induction h with
  | nil => rfl
  | run run _ _ => exact absurd List.mem_cons_self hp
  | char _ _ ih => rw [ih fun hmem => hp (List.mem_cons_of_mem _ hmem)]

example : Matches "50%".toList "500 m".toList ∧ ¬ Matches "50%".toList "1500 m".toList := by decide

end Text

/-- Where a condition on strings has a text stand in another: everywhere, at its start, at its end,
or anywhere. -/
def Condition.Places : Condition → List Char → List Char → Prop
  | equals, part, s => s = part
  | startsWith, part, s => part <+: s
  | endsWith, part, s => part <:+ s
  | like, part, s => part <:+: s
  | _, _, _ => False

instance (c : Condition) (part s : List Char) : Decidable (c.Places part s) :=
  match c with
  | .equals => inferInstanceAs (Decidable (s = part))
  | .startsWith => inferInstanceAs (Decidable (part <+: s))
  | .endsWith => inferInstanceAs (Decidable (part <:+ s))
  | .like => inferInstanceAs (Decidable (part <:+: s))
  | .comparison _ | .between | .on | .after | .before | .isTrue | .isFalse | .isNull
  | .uniqueValues | .unknown => .isFalse id

namespace AttributeFilter

open Text

variable {value pattern : String} {c : Condition} {s : List Char}

/-- The pattern of a condition matches a text if something that the value matches stands where the
condition says. -/
theorem matches_pattern?_iff (h : pattern? value c = some pattern) :
    Matches pattern.toList s ↔ ∃ part, c.Places part s ∧ Matches value.toList part := by
  unfold pattern? at h
  split at h
  · obtain rfl := Option.some.inj h
    simp [Condition.Places]
  · obtain rfl := Option.some.inj h
    have hpattern : ("%" ++ value ++ "%").toList = '%' :: (value.toList ++ ['%']) := by simp
    rw [hpattern, matches_percent_iff]
    constructor
    · rintro ⟨rest, hrest, h⟩
      obtain ⟨part, after, rfl, hpart, -⟩ := matches_append_iff.mp h
      exact ⟨part, (List.prefix_append part after).isInfix.trans hrest.isInfix, hpart⟩
    · rintro ⟨part, ⟨before, after, rfl⟩, hpart⟩
      rw [List.append_assoc]
      exact ⟨part ++ after, List.suffix_append _ _,
        matches_append_iff.mpr ⟨part, after, rfl, hpart, matches_percent after⟩⟩
  · obtain rfl := Option.some.inj h
    have hpattern : (value ++ "%").toList = value.toList ++ ['%'] := by simp
    rw [hpattern, matches_append_iff]
    constructor
    · rintro ⟨part, after, rfl, hpart, -⟩
      exact ⟨part, List.prefix_append _ _, hpart⟩
    · rintro ⟨part, ⟨after, rfl⟩, hpart⟩
      exact ⟨part, after, rfl, hpart, matches_percent after⟩
  · obtain rfl := Option.some.inj h
    have hpattern : ("%" ++ value).toList = '%' :: value.toList := by simp
    rw [hpattern, matches_percent_iff]
    rfl
  · contradiction

/-- The pattern of a condition matches where the condition holds, and without percent signs in the
value only there. -/
theorem matches_pattern? (h : pattern? value c = some pattern) :
    (c.Places value.toList s → Matches pattern.toList s) ∧
      ('%' ∉ value.toList → Matches pattern.toList s → c.Places value.toList s) := by
  rw [matches_pattern?_iff h]
  refine ⟨fun hplaces => ⟨_, hplaces, matches_self _⟩, ?_⟩
  rintro hvalue ⟨part, hplaces, hpart⟩
  rwa [(matches_iff_of_not_mem hvalue).mp hpart] at hplaces

/-- A condition that places texts only where another one does has the narrower pattern. -/
theorem matches_pattern?_mono {c d : Condition} {narrow wide : String}
    (hnarrow : pattern? value c = some narrow) (hwide : pattern? value d = some wide)
    (hplaces : ∀ part, c.Places part s → d.Places part s) (hs : Matches narrow.toList s) :
    Matches wide.toList s := by
  obtain ⟨part, hpart, hvalue⟩ := (matches_pattern?_iff hnarrow).mp hs
  exact (matches_pattern?_iff hwide).mpr ⟨part, hplaces part hpart, hvalue⟩

variable {f : AttributeFilter} {rest : List String}

/-- A string filter asks for the pattern of its condition and its first value. -/
theorem result_compile_of_pattern? (htype : f.type = .string) (hvalues : f.values = value :: rest)
    (h : pattern? value f.condition = some pattern) : f.compile.result =
      some ((Predicate.atom f.property (.like pattern !f.caseSensitive)).negateIf f.inverted) :=
  result_compile_of_asks (.pattern htype hvalues h)

/-- The four conditions on strings compile to patterns for the first value. Each pattern matches
where its condition holds, and without percent signs in the value only there. Whatever is in the
value, equal texts start and end with it, and texts that do either contain it. -/
theorem compile_patterns (htype : f.type = .string) (hvalues : f.values = value :: rest) :
    ∃ pattern : Condition → String,
      (∀ c ∈ [Condition.equals, .startsWith, .endsWith, .like],
        { f with condition := c }.compile.result = some
            ((Predicate.atom f.property (.like (pattern c) !f.caseSensitive)).negateIf
              f.inverted) ∧
          ∀ t : String,
            (c.Places value.toList t.toList → Matches (pattern c).toList t.toList) ∧
              ('%' ∉ value.toList → Matches (pattern c).toList t.toList →
                c.Places value.toList t.toList)) ∧
      ∀ t : String,
        (Matches (pattern .equals).toList t.toList →
          Matches (pattern .startsWith).toList t.toList ∧
            Matches (pattern .endsWith).toList t.toList) ∧
        (Matches (pattern .startsWith).toList t.toList ∨
            Matches (pattern .endsWith).toList t.toList →
          Matches (pattern .like).toList t.toList) := by
  refine ⟨fun c => (pattern? value c).getD "", fun c hc => ?_, fun t => ⟨fun h => ⟨?_, ?_⟩, ?_⟩⟩
  · have hpattern : pattern? value c = some ((pattern? value c).getD "") := by
      simp only [List.mem_cons, List.not_mem_nil, or_false] at hc
      rcases hc with rfl | rfl | rfl | rfl <;> rfl
    exact ⟨result_compile_of_pattern? htype hvalues hpattern, fun t => matches_pattern? hpattern⟩
  · exact matches_pattern?_mono (c := .equals) (d := .startsWith) rfl rfl
      (fun part hpart => hpart ▸ List.prefix_rfl) h
  · exact matches_pattern?_mono (c := .equals) (d := .endsWith) rfl rfl
      (fun part hpart => hpart ▸ List.suffix_rfl) h
  · rintro (h | h)
    · exact matches_pattern?_mono (c := .startsWith) (d := .like) rfl rfl
        (fun part hpart => hpart.isInfix) h
    · exact matches_pattern?_mono (c := .endsWith) (d := .like) rfl rfl
        (fun part hpart => hpart.isInfix) h

/-- A filter on a label with a percent sign. -/
def discounted : AttributeFilter :=
  (ofCondition "label" .string .startsWith).addValues ["50%", "70%"]

theorem compile_patterns_discounted_named :
    (∃ pattern, discounted.compile.result = some (.atom "label" (.like pattern true)) ∧
      Matches pattern.toList "50% off".toList ∧ Matches pattern.toList "500 m".toList) ∧
    ∃ pattern, named.compile.result = some (.atom "name" (.like pattern true)) ∧
      Matches pattern.toList "The Main Road".toList ∧ ¬ Matches pattern.toList "Mine".toList := by
  constructor
  · obtain ⟨pattern, hpattern, -⟩ := compile_patterns (f := discounted) rfl rfl
    obtain ⟨hcompile, hmatches⟩ := hpattern .startsWith (by decide)
    have hresult : some (Predicate.atom "label" (.like "50%%" true)) =
        some (Predicate.atom "label" (.like (pattern .startsWith) true)) := hcompile
    obtain ⟨-, htest⟩ := Predicate.atom.inj (Option.some.inj hresult)
    refine ⟨_, hcompile, (hmatches "50% off").1 ⟨" off".toList, rfl⟩, ?_⟩
    rw [← (Test.like.inj htest).1]
    decide
  · obtain ⟨pattern, hpattern, -⟩ := compile_patterns (f := named) rfl rfl
    obtain ⟨hcompile, hmatches⟩ := hpattern .like (by decide)
    refine ⟨_, hcompile, (hmatches "The Main Road").1 (by decide), fun h => ?_⟩
    exact absurd ((hmatches "Mine").2 (by decide) h) (by decide)

end AttributeFilter
end FilterForest
