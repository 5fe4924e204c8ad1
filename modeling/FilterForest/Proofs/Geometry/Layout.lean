import FilterForest.Proofs.Geometry.Parsed

/-!
# Layouts of matched parentheses

The scan for groups counts how many parentheses are open. It comes to an end exactly if that depth
is never negative and zero at the end. Such a text is laid out as groups in one way only, and what
the scan finds is what stands inside of them.
-/
namespace FilterForest
namespace Text

/-- How many more parentheses a text opens than it closes. -/
def depth (s : List Char) : ℤ := s.count '(' - s.count ')'

/-- Texts whose depth, counted from a number of open parentheses, is never negative, and zero at
the end. -/
structure MatchedFrom (opened : ℤ) (s : List Char) : Prop where
  nonneg : ∀ t, t <+: s → 0 ≤ opened + depth t
  closed : opened + depth s = 0

/-- Texts whose depth is never negative, and zero at the end. -/
def Matched (s : List Char) : Prop := MatchedFrom 0 s

variable {s t : List Char} {c : Char} {opened : ℤ}

instance (opened : ℤ) (s : List Char) : Decidable (MatchedFrom opened s) :=
  decidable_of_iff ((∀ t ∈ s.inits, 0 ≤ opened + depth t) ∧ opened + depth s = 0)
    ⟨fun h => ⟨fun t ht => h.1 t ((List.mem_inits t s).mpr ht), h.2⟩,
      fun h => ⟨fun t ht => h.nonneg t ((List.mem_inits t s).mp ht), h.closed⟩⟩

instance (s : List Char) : Decidable (Matched s) := inferInstanceAs (Decidable (MatchedFrom 0 s))

theorem depth_append (s t : List Char) : depth (s ++ t) = depth s + depth t := by
  simp only [depth, List.count_append]
  omega

theorem depth_open : depth ['('] = 1 := rfl

theorem depth_close : depth [')'] = -1 := rfl

theorem depth_char (hopen : c ≠ '(') (hclose : c ≠ ')') : depth [c] = 0 := by
  simp [depth, hopen, hclose]

theorem matchedFrom_nil : MatchedFrom opened [] ↔ opened = 0 := by
  constructor
  · intro h
    simpa [depth] using h.closed
  · rintro rfl
    exact ⟨fun t ht => by rw [List.prefix_nil.mp ht]; rfl, rfl⟩

theorem matchedFrom_cons :
    MatchedFrom opened (c :: s) ↔ 0 ≤ opened ∧ MatchedFrom (opened + depth [c]) s := by
  have hcons : ∀ t, opened + depth (c :: t) = opened + depth [c] + depth t := by
    intro t
    rw [← List.singleton_append, depth_append, Int.add_assoc]
  constructor
  · intro h
    refine ⟨by simpa [depth] using h.nonneg [] List.nil_prefix, fun t ht => ?_, ?_⟩
    · rw [← hcons]
      exact h.nonneg _ ((List.prefix_cons_inj c).mpr ht)
    · rw [← hcons, h.closed]
  · rintro ⟨hopened, h⟩
    refine ⟨fun t ht => ?_, by rw [hcons, h.closed]⟩
    rcases List.prefix_cons_iff.mp ht with rfl | ⟨t, rfl, htail⟩
    · simpa [depth] using hopened
    · rw [hcons]
      exact h.nonneg t htail

theorem MatchedFrom.opened_nonneg (h : MatchedFrom opened s) : 0 ≤ opened := by
  simpa [depth] using h.nonneg [] List.nil_prefix

theorem matchedFrom_append (hs : Balanced s) (hopened : 0 ≤ opened) :
    MatchedFrom opened (s ++ t) ↔ MatchedFrom opened t := by
  induction hs generalizing opened t with
  | nil => rfl
  | char hopen hclose _ ih =>
    rw [List.cons_append, matchedFrom_cons, depth_char hopen hclose, add_zero, ih hopened]
    exact and_iff_right hopened
  | @group inside rest _ _ ihinside ihrest =>
    rw [List.append_assoc, parenthesized_append, matchedFrom_cons, depth_open,
      ihinside (by omega), matchedFrom_cons, depth_close, Int.add_neg_cancel_right, ihrest hopened]
    exact ⟨fun h => h.2.2, fun h => ⟨hopened, by omega, h⟩⟩

theorem Balanced.matched (h : Balanced s) : Matched s := by
  rw [Matched, ← List.append_nil s, matchedFrom_append h le_rfl, matchedFrom_nil]

/-- Where a matched text in front of a closing parenthesis ends, that one is the partner of none
inside of it. -/
theorem Matched.append_close_inj {inside inside' rest rest' : List Char} (h : Matched inside)
    (h' : Matched inside') (heq : inside ++ ')' :: rest = inside' ++ ')' :: rest') :
    inside = inside' ∧ rest = rest' := by
  -- The longer one would have the shorter one and the parenthesis as a prefix of negative depth.
  have hshorter : ∀ {s t : List Char}, Matched s → Matched (s ++ ')' :: t) → False := by
    intro s t hs hst
    have hprefix := hst.nonneg (s ++ [')']) ⟨t, by simp⟩
    rw [depth_append, depth_close, zero_add] at hprefix
    have hclosed := hs.closed
    omega
  rcases List.append_eq_append_iff.mp heq with ⟨t, rfl, ht⟩ | ⟨t, rfl, ht⟩
  · cases t with
    | nil => simpa using ht
    | cons c t =>
      obtain ⟨rfl, -⟩ := List.cons.inj ht
      exact (hshorter h h').elim
  · cases t with
    | nil => simpa using ht.symm
    | cons c t =>
      obtain ⟨rfl, -⟩ := List.cons.inj ht
      exact (hshorter h' h).elim

/-- A text is laid out as matched groups with gaps that have no parentheses. -/
structure IsLayout (groups : List (List Char × List Char)) (last s : List Char) : Prop where
  group : ∀ group ∈ groups, IsBare group.1 ∧ Matched group.2
  bare : IsBare last
  text : s = layOut groups last

theorem IsBare.ne_layOut_cons {gap inside last last' : List Char}
    {groups : List (List Char × List Char)} (h : IsBare last) :
    last ≠ layOut ((gap, inside) :: groups) last' := by
  rw [layOut_cons, parenthesized_append]
  rintro rfl
  exact absurd rfl (h '(' (by simp)).1

/-- Two layouts of one text divide it at the same places. -/
theorem layOut_inj {groups groups' : List (List Char × List Char)} {last last' : List Char}
    (h : ∀ group ∈ groups, IsBare group.1 ∧ Matched group.2) (hlast : IsBare last)
    (h' : ∀ group ∈ groups', IsBare group.1 ∧ Matched group.2) (hlast' : IsBare last')
    (heq : layOut groups last = layOut groups' last') : groups = groups' ∧ last = last' := by
  induction groups generalizing groups' with
  | nil =>
    cases groups' with
    | nil => exact ⟨rfl, heq⟩
    | cons group groups' => exact absurd heq hlast.ne_layOut_cons
  | cons group groups ih =>
    obtain ⟨gap, inside⟩ := group
    obtain ⟨⟨hgap, hinside⟩, hothers⟩ := List.forall_mem_cons.mp h
    cases groups' with
    | nil => exact absurd heq.symm hlast'.ne_layOut_cons
    | cons group' groups' =>
      obtain ⟨gap', inside'⟩ := group'
      obtain ⟨⟨hgap', hinside'⟩, hothers'⟩ := List.forall_mem_cons.mp h'
      rw [layOut_cons, layOut_cons, parenthesized_append, parenthesized_append] at heq
      obtain ⟨rfl, hbehind⟩ := append_cons_inj (isBare_iff.mp hgap).1 (isBare_iff.mp hgap').1 heq
      obtain ⟨rfl, hrest⟩ := hinside.append_close_inj hinside' hbehind
      obtain ⟨rfl, rfl⟩ := ih hothers hothers' hrest
      exact ⟨rfl, rfl⟩

theorem IsLayout.unique {groups groups' : List (List Char × List Char)} {last last' : List Char}
    (h : IsLayout groups last s) (h' : IsLayout groups' last' s) :
    groups = groups' ∧ last = last' :=
  layOut_inj h.group h.bare h'.group h'.bare (h.text.symm.trans h'.text)

end Text

namespace Wkt

open Text

variable {s : List Char}

/-- A scan inside some open parentheses comes to an end exactly if they are matched from there. -/
theorem groupSpansFrom?_ne_none_iff {offset depth start : ℕ} :
    groupSpansFrom? offset depth start s ≠ none ↔ MatchedFrom depth s := by
  induction s generalizing offset depth start with
  | nil =>
    rw [matchedFrom_nil, groupSpansFrom?]
    split <;> simp_all
  | cons c s ih =>
    rw [matchedFrom_cons]
    by_cases hopen : c = '('
    · subst hopen
      rw [groupSpansFrom?_open, ih, depth_open]
      simp
    · by_cases hclose : c = ')'
      · subst hclose
        rw [depth_close]
        rcases depth with _ | _ | depth
        · refine iff_of_false (fun h => h rfl) fun h => ?_
          have hnonneg := h.2.opened_nonneg
          simp at hnonneg
        · rw [groupSpansFrom?_close, ne_eq, Option.map_eq_none_iff, ← ne_eq, ih]
          simp
        · rw [groupSpansFrom?_close_inside, ih]
          push_cast
          rw [Int.add_neg_cancel_right]
          exact ⟨fun h => ⟨by omega, h⟩, fun h => h.2⟩
      · rw [groupSpansFrom?_char hopen hclose, ih, depth_char hopen hclose, add_zero]
        simp

/-- A matched text is laid out as the groups that the scan finds in it. -/
theorem exists_isLayout_of_matched (h : Matched s) : ∃ groups last, IsLayout groups last s ∧
    Wkt.groups s = .ok (groups.map Prod.snd) := by
  have hscan : groupSpansFrom? 0 0 0 s ≠ none := groupSpansFrom?_ne_none_iff.mpr h
  obtain ⟨groups, last, hgroups, hlast, rfl⟩ := exists_layOut_of_groupSpansFrom? hscan
  refine ⟨groups, last, ⟨fun group hgroup => ?_, hlast, rfl⟩, groups_layOut hgroups hlast⟩
  exact (hgroups group hgroup).imp_right Balanced.matched

theorem groups_of_not_matched (h : ¬ Matched s) : Wkt.groups s = .error .malformed := by
  have hscan : groupSpans? s = none := by
    by_contra hsome
    exact h (groupSpansFrom?_ne_none_iff.mp hsome)
  rw [Wkt.groups, hscan]
  rfl

theorem balanced_iff_matched : Balanced s ↔ Matched s := by
  refine ⟨Balanced.matched, fun h => ?_⟩
  have hscan : groupSpansFrom? 0 0 0 s ≠ none := groupSpansFrom?_ne_none_iff.mpr h
  obtain ⟨groups, last, hgroups, hlast, rfl⟩ := exists_layOut_of_groupSpansFrom? hscan
  have hlaid : LaidOut (fun _ _ => True) groups (layOut groups last) :=
    ⟨groups, last, hgroups, hlast, by simp [List.forall₂_map_right_iff, List.forall₂_same], rfl⟩
  exact hlaid.balanced

/-- The scan finds the groups of the one layout of a text, or there is none. -/
structure FindsLayout (s : List Char) : Prop where
  found : Matched s → ∃ groups last, IsLayout groups last s ∧
    (∀ groups' last', IsLayout groups' last' s → groups' = groups ∧ last' = last) ∧
      Wkt.groups s = .ok (groups.map Prod.snd)
  refused : ¬ Matched s → Wkt.groups s = .error .malformed

theorem findsLayout (s : List Char) : FindsLayout s where
  found h := by
    obtain ⟨groups, last, hlayout, hgroups⟩ := exists_isLayout_of_matched h
    exact ⟨groups, last, hlayout, fun _ _ hother => hother.unique hlayout, hgroups⟩
  refused := groups_of_not_matched

/-- Texts in parentheses between commas are found again. -/
structure FindsWritten : Prop where
  parts : ∀ parts, (∀ part ∈ parts, Matched part) →
    Wkt.groups (commaSeparated (parts.map parenthesized)) = .ok parts
  rings : ∀ rings,
    Wkt.groups (Geometry.polygon rings).wktBody = .ok (rings.map Geometry.positionsWkt)
  polygons : ∀ polygons,
    Wkt.groups (Geometry.multiPolygon polygons).wktBody = .ok (polygons.map Geometry.ringsWkt)

theorem findsWritten : FindsWritten where
  parts _ hparts :=
    groups_commaSeparated fun part hpart => balanced_iff_matched.mpr (hparts part hpart)
  rings := groups_map_parenthesized balanced_positionsWkt
  polygons := groups_map_parenthesized balanced_ringsWkt

/-- The groups of a text are found exactly if its parentheses are matched. There is one layout of
such a text then, and its groups are what is found. So texts in parentheses between commas are found
again, and with them the rings of a polygon and the polygons of many. -/
theorem groups_eq_layout (s : List Char) : FindsLayout s ∧ FindsWritten :=
  ⟨findsLayout s, findsWritten⟩

/-- A text with wide characters in a gap and inside a group, and groups at two depths. -/
def nestedGroups : List Char := "ä(a), (b (ß)), ()".toList

theorem groups_eq_layout_nestedGroups :
    Matched nestedGroups ∧ Wkt.groups nestedGroups = .ok ["a".toList, "b (ß)".toList, []] ∧
    (∃ groups last, IsLayout groups last nestedGroups ∧
      (∀ groups' last', IsLayout groups' last' nestedGroups → groups' = groups ∧ last' = last) ∧
        Wkt.groups nestedGroups = .ok (groups.map Prod.snd)) ∧
    ¬ Matched ")(".toList ∧ Wkt.groups ")(".toList = .error .malformed ∧
    (∀ part ∈ ["(".toList ++ ")".toList, []], Matched part) ∧
    Wkt.groups "(()), ()".toList = .ok ["()".toList, []] := by
  have hnested : Matched nestedGroups := by decide
  have hclosed : ¬ Matched ")(".toList := by decide
  have hparts : ∀ part ∈ ["(".toList ++ ")".toList, []], Matched part := by decide
  obtain ⟨hlayout, hwritten⟩ := groups_eq_layout nestedGroups
  exact ⟨hnested, rfl, hlayout.found hnested, hclosed, (groups_eq_layout _).1.refused hclosed,
    hparts, hwritten.parts _ hparts⟩

end Wkt
end FilterForest
