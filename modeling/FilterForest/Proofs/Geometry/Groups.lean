import FilterForest.Geometry.Reader
import FilterForest.Proofs.Geometry.Readable
import FilterForest.Proofs.Text.Recovers

/-!
# Groups in parentheses

A text in which every parenthesis has its partner is passed over as a whole by the scan for groups.
So a text that is laid out as groups in parentheses, with gaps that have no parentheses, gives back
what stands inside of the groups, in order.
-/
namespace FilterForest
namespace Text

/-- Texts without a parenthesis. -/
def IsBare (s : List Char) : Prop := ∀ c ∈ s, c ≠ '(' ∧ c ≠ ')'

theorem isBare_iff {s : List Char} : IsBare s ↔ '(' ∉ s ∧ ')' ∉ s := by
  simp only [IsBare, forall_and, List.forall_mem_ne', ne_eq]

/-- Texts in which every parenthesis has its partner. -/
inductive Balanced : List Char → Prop
  | nil : Balanced []
  | char {c : Char} {s : List Char} (hopen : c ≠ '(') (hclose : c ≠ ')') (hs : Balanced s) :
    Balanced (c :: s)
  | group {s t : List Char} (hs : Balanced s) (ht : Balanced t) : Balanced (parenthesized s ++ t)

namespace Balanced

variable {s t : List Char}

theorem of_isBare (h : IsBare s) : Balanced s := by
  induction s with
  | nil => exact .nil
  | cons c s ih =>
    obtain ⟨hc, hs⟩ := List.forall_mem_cons.mp h
    exact .char hc.1 hc.2 (ih hs)

theorem append (hs : Balanced s) (ht : Balanced t) : Balanced (s ++ t) := by
  induction hs with
  | nil => exact ht
  | char hopen hclose _ ih => exact .char hopen hclose ih
  | group hs _ _ ih =>
    rw [List.append_assoc]
    exact .group hs ih

theorem parenthesized (hs : Balanced s) : Balanced (parenthesized s) := by
  rw [← List.append_nil (Text.parenthesized s)]
  exact .group hs .nil

theorem commaSeparated {parts : List (List Char)} (h : ∀ part ∈ parts, Balanced part) :
    Balanced (commaSeparated parts) := by
  have hseparator : Balanced ", ".toList := .of_isBare (by simp [IsBare])
  induction parts with
  | nil => exact .nil
  | cons part parts ih =>
    obtain ⟨hpart, hparts⟩ := List.forall_mem_cons.mp h
    cases parts with
    | nil =>
      rw [Text.commaSeparated, List.intercalate_singleton]
      exact hpart
    | cons next parts =>
      rw [Text.commaSeparated, List.intercalate_cons_cons, List.append_assoc]
      exact hpart.append (hseparator.append (ih hparts))

end Balanced

theorem byteSize_parenthesized (s : List Char) :
    byteSize (parenthesized s) = byteSize s + 2 := by
  have hopen : '('.utf8Size = 1 := rfl
  have hclose : ')'.utf8Size = 1 := rfl
  rw [parenthesized, byteSize_append, byteSize_cons, byteSize_cons, byteSize_nil]
  omega

/-- Groups in parentheses, each with a gap in front of it, and a gap at the end. -/
def layOut (groups : List (List Char × List Char)) (last : List Char) : List Char :=
  groups.flatMap (fun (gap, inside) => gap ++ parenthesized inside) ++ last

theorem layOut_cons (gap inside : List Char) (groups : List (List Char × List Char))
    (last : List Char) :
    layOut ((gap, inside) :: groups) last =
      gap ++ (parenthesized inside ++ layOut groups last) := by
  simp [layOut]

theorem exists_layOut_append {gap last : List Char} {groups : List (List Char × List Char)}
    (hgap : IsBare gap) (hgroups : ∀ group ∈ groups, IsBare group.1 ∧ Balanced group.2)
    (hlast : IsBare last) :
    ∃ groups' last', (∀ group ∈ groups', IsBare group.1 ∧ Balanced group.2) ∧ IsBare last' ∧
      groups'.map Prod.snd = groups.map Prod.snd ∧
        gap ++ layOut groups last = layOut groups' last' := by
  cases groups with
  | nil => exact ⟨[], gap ++ last, nofun, List.forall_mem_append.mpr ⟨hgap, hlast⟩, rfl, rfl⟩
  | cons group groups =>
    obtain ⟨first, inside⟩ := group
    obtain ⟨⟨hfirst, hinside⟩, hothers⟩ := List.forall_mem_cons.mp hgroups
    refine ⟨(gap ++ first, inside) :: groups, last, ?_, hlast, rfl, ?_⟩
    · refine List.forall_mem_cons.mpr ⟨⟨?_, hinside⟩, hothers⟩
      exact List.forall_mem_append.mpr ⟨hgap, hfirst⟩
    · rw [layOut_cons, layOut_cons, List.append_assoc]

/-- A text is laid out as groups that stand for values in order. -/
def LaidOut {α : Type} (p : α → List Char → Prop) (as : List α) (s : List Char) : Prop :=
  ∃ groups last, (∀ group ∈ groups, IsBare group.1 ∧ Balanced group.2) ∧ IsBare last ∧
    List.Forall₂ p as (groups.map Prod.snd) ∧ s = layOut groups last

namespace LaidOut

variable {α : Type} {p q : α → List Char → Prop} {a : α} {as : List α}
variable {gap inside s : List Char}

theorem of_isBare (hs : IsBare s) : LaidOut p [] s :=
  ⟨[], s, nofun, hs, .nil, rfl⟩

theorem cons (hgap : IsBare gap) (hinside : Balanced inside) (ha : p a inside)
    (h : LaidOut p as s) : LaidOut p (a :: as) (gap ++ (parenthesized inside ++ s)) := by
  obtain ⟨groups, last, hgroups, hlast, has, rfl⟩ := h
  refine ⟨(gap, inside) :: groups, last, ?_, hlast, .cons ha has, (layOut_cons ..).symm⟩
  exact List.forall_mem_cons.mpr ⟨⟨hgap, hinside⟩, hgroups⟩

theorem append_left (hgap : IsBare gap) (h : LaidOut p as s) : LaidOut p as (gap ++ s) := by
  obtain ⟨groups, last, hgroups, hlast, has, rfl⟩ := h
  obtain ⟨groups', last', hgroups', hlast', hsame, heq⟩ := exists_layOut_append hgap hgroups hlast
  exact ⟨groups', last', hgroups', hlast', hsame ▸ has, heq⟩

theorem imp (hpq : ∀ a t, p a t → q a t) (h : LaidOut p as s) : LaidOut q as s := by
  obtain ⟨groups, last, hgroups, hlast, has, rfl⟩ := h
  exact ⟨groups, last, hgroups, hlast, has.imp hpq, rfl⟩

theorem balanced (h : LaidOut p as s) : Balanced s := by
  obtain ⟨groups, last, hgroups, hlast, -, rfl⟩ := h
  induction groups with
  | nil => exact .of_isBare hlast
  | cons group groups ih =>
    obtain ⟨⟨hgap, hinside⟩, hothers⟩ := List.forall_mem_cons.mp hgroups
    rw [layOut_cons]
    exact (Balanced.of_isBare hgap).append (hinside.parenthesized.append (ih hothers))

end LaidOut

theorem commaSeparated_parenthesized (part : List Char) (parts : List (List Char)) :
    commaSeparated ((part :: parts).map parenthesized) =
      layOut (([], part) :: parts.map (", ".toList, ·)) [] := by
  rw [commaSeparated, List.map_cons, intercalate_cons]
  simp [layOut, List.flatMap_map]

end Text

namespace Wkt

open Text

variable {s : List Char}

theorem groupSpansFrom?_open (offset depth start : ℕ) (rest : List Char) :
    groupSpansFrom? offset depth start ('(' :: rest) =
      groupSpansFrom? (offset + 1) (depth + 1) (if depth = 0 then offset + 1 else start) rest := by
  rcases depth with _ | _ | depth <;> rfl

theorem groupSpansFrom?_close (offset start : ℕ) (rest : List Char) :
    groupSpansFrom? offset 1 start (')' :: rest) =
      (groupSpansFrom? (offset + 1) 0 start rest).map (⟨start, offset⟩ :: ·) := rfl

theorem groupSpansFrom?_close_inside (offset depth start : ℕ) (rest : List Char) :
    groupSpansFrom? offset (depth + 2) start (')' :: rest) =
      groupSpansFrom? (offset + 1) (depth + 1) start rest := rfl

theorem groupSpansFrom?_char {c : Char} (hopen : c ≠ '(') (hclose : c ≠ ')')
    (offset depth start : ℕ) (rest : List Char) :
    groupSpansFrom? offset depth start (c :: rest) =
      groupSpansFrom? (offset + c.utf8Size) depth start rest := by
  rcases depth with _ | _ | depth <;> rw [groupSpansFrom?, if_neg hopen, if_neg hclose]

theorem groupSpansFrom?_isBare (hs : IsBare s) (offset depth start : ℕ) (rest : List Char) :
    groupSpansFrom? offset depth start (s ++ rest) =
      groupSpansFrom? (offset + byteSize s) depth start rest := by
  induction s generalizing offset with
  | nil => rfl
  | cons c s ih =>
    obtain ⟨⟨hopen, hclose⟩, hs⟩ := List.forall_mem_cons.mp hs
    rw [List.cons_append, groupSpansFrom?_char hopen hclose, ih hs, byteSize_cons, Nat.add_assoc]

theorem groupSpansFrom?_balanced (hs : Balanced s) (offset depth start : ℕ) (rest : List Char) :
    groupSpansFrom? offset (depth + 1) start (s ++ rest) =
      groupSpansFrom? (offset + byteSize s) (depth + 1) start rest := by
  induction hs generalizing offset depth rest with
  | nil => rfl
  | char hopen hclose _ ih =>
    rw [List.cons_append, groupSpansFrom?_char hopen hclose, ih, byteSize_cons, Nat.add_assoc]
  | @group s t _ _ ihs iht =>
    have hsize : offset + byteSize (parenthesized s ++ t) =
        offset + 1 + byteSize s + 1 + byteSize t := by
      rw [byteSize_append, byteSize_parenthesized]
      omega
    rw [List.append_assoc, parenthesized_append, groupSpansFrom?_open,
      if_neg (Nat.succ_ne_zero depth), ihs, groupSpansFrom?_close_inside, iht, hsize]

theorem groupSpansFrom?_group (hs : Balanced s) (offset start : ℕ) (rest : List Char) :
    groupSpansFrom? offset 0 start (parenthesized s ++ rest) =
      (groupSpansFrom? (offset + byteSize (parenthesized s)) 0 (offset + 1) rest).map
        (⟨offset + 1, offset + 1 + byteSize s⟩ :: ·) := by
  have hsize : offset + byteSize (parenthesized s) = offset + 1 + byteSize s + 1 := by
    rw [byteSize_parenthesized]
    omega
  rw [parenthesized_append, groupSpansFrom?_open, if_pos rfl, groupSpansFrom?_balanced hs,
    groupSpansFrom?_close, hsize]

theorem cut_append (before part after : List Char) :
    cut ⟨byteSize before, byteSize before + byteSize part⟩ (before ++ (part ++ after)) =
      .ok part := by
  rw [cut, cut?_append]

/-- The spans of the groups of a laid out text, which may continue another, cut out what is inside
of them. -/
theorem groupSpansFrom?_layOut {groups : List (List Char × List Char)} {last : List Char}
    (hgroups : ∀ group ∈ groups, IsBare group.1 ∧ Balanced group.2) (hlast : IsBare last)
    (before : List Char) (start : ℕ) :
    ∃ spans, groupSpansFrom? (byteSize before) 0 start (layOut groups last) = some spans ∧
      spans.mapM (cut · (before ++ layOut groups last)) = .ok (groups.map Prod.snd) := by
  induction groups generalizing before start with
  | nil =>
    refine ⟨[], ?_, rfl⟩
    have hscan := groupSpansFrom?_isBare hlast (byteSize before) 0 start []
    rw [List.append_nil] at hscan
    exact hscan
  | cons group groups ih =>
    obtain ⟨gap, inside⟩ := group
    obtain ⟨⟨hgap, hinside⟩, hothers⟩ := List.forall_mem_cons.mp hgroups
    obtain ⟨spans, hspans, hcuts⟩ := ih hothers (before ++ gap ++ parenthesized inside)
      (byteSize (before ++ gap) + 1)
    refine ⟨⟨byteSize (before ++ gap ++ ['(']), byteSize (before ++ gap ++ ['(']) +
      byteSize inside⟩ :: spans, ?_, ?_⟩
    · have hstart : byteSize (before ++ gap ++ ['(']) = byteSize (before ++ gap) + 1 := by
        rw [byteSize_append]
        rfl
      rw [byteSize_append] at hspans
      rw [layOut_cons, groupSpansFrom?_isBare hgap, ← byteSize_append,
        groupSpansFrom?_group hinside, hspans, hstart]
      rfl
    · have htext : before ++ layOut ((gap, inside) :: groups) last =
          before ++ gap ++ parenthesized inside ++ layOut groups last := by
        simp [layOut_cons]
      have hfirst : before ++ gap ++ parenthesized inside ++ layOut groups last =
          before ++ gap ++ ['('] ++ (inside ++ (')' :: layOut groups last)) := by
        simp [parenthesized]
      rw [htext, List.mapM_cons, hcuts]
      nth_rewrite 1 [hfirst]
      rw [cut_append]
      rfl

theorem groups_layOut {groups : List (List Char × List Char)} {last : List Char}
    (hgroups : ∀ group ∈ groups, IsBare group.1 ∧ Balanced group.2) (hlast : IsBare last) :
    Wkt.groups (layOut groups last) = .ok (groups.map Prod.snd) := by
  obtain ⟨spans, hspans, hcuts⟩ := groupSpansFrom?_layOut hgroups hlast [] 0
  have hscan : groupSpans? (layOut groups last) = some spans := hspans
  simp only [Wkt.groups, hscan]
  exact hcuts

/-- Inside a group, a scan that comes to an end passes a balanced text and the parenthesis that
closes the group. -/
theorem exists_append_of_groupSpansFrom? {offset depth start : ℕ}
    (h : groupSpansFrom? offset (depth + 1) start s ≠ none) :
    ∃ inside rest offset' start', Balanced inside ∧ s = inside ++ ')' :: rest ∧
      groupSpansFrom? offset' depth start' rest ≠ none := by
  -- The induction is on the length because the text after an inner group is scanned as well.
  induction hlength : s.length using Nat.strongRecOn generalizing s offset depth start with
  | ind n ih =>
    cases s with
    | nil => exact absurd rfl h
    | cons c s =>
      rw [List.length_cons] at hlength
      by_cases hopen : c = '('
      · subst hopen
        rw [groupSpansFrom?_open] at h
        obtain ⟨inner, rest, _, _, hinner, rfl, hrest⟩ := ih _ (by omega) h rfl
        rw [List.length_append, List.length_cons] at hlength
        obtain ⟨inside, rest', offset', start', hinside, rfl, hrest'⟩ := ih _ (by omega) hrest rfl
        refine ⟨parenthesized inner ++ inside, rest', offset', start', .group hinner hinside, ?_,
          hrest'⟩
        simp [parenthesized]
      · by_cases hclose : c = ')'
        · subst hclose
          refine ⟨[], s, offset + 1, start, .nil, rfl, ?_⟩
          cases depth with
          | zero =>
            rw [groupSpansFrom?_close] at h
            exact fun hnone => h (by rw [hnone]; rfl)
          | succ depth => rwa [groupSpansFrom?_close_inside] at h
        · rw [groupSpansFrom?_char hopen hclose] at h
          obtain ⟨inside, rest, offset', start', hinside, rfl, hrest⟩ := ih _ (by omega) h rfl
          exact ⟨c :: inside, rest, offset', start', .char hopen hclose hinside, rfl, hrest⟩

/-- Outside of all groups, a text whose scan comes to an end is laid out as groups. -/
theorem exists_layOut_of_groupSpansFrom? {offset start : ℕ}
    (h : groupSpansFrom? offset 0 start s ≠ none) :
    ∃ groups last, (∀ group ∈ groups, IsBare group.1 ∧ Balanced group.2) ∧ IsBare last ∧
      s = layOut groups last := by
  induction hlength : s.length using Nat.strongRecOn generalizing s offset start with
  | ind n ih =>
    cases s with
    | nil => exact ⟨[], [], nofun, nofun, rfl⟩
    | cons c s =>
      rw [List.length_cons] at hlength
      by_cases hopen : c = '('
      · subst hopen
        rw [groupSpansFrom?_open] at h
        obtain ⟨inside, rest, _, _, hinside, rfl, hrest⟩ := exists_append_of_groupSpansFrom? h
        rw [List.length_append, List.length_cons] at hlength
        obtain ⟨groups, last, hgroups, hlast, rfl⟩ := ih _ (by omega) hrest rfl
        refine ⟨([], inside) :: groups, last, ?_, hlast, ?_⟩
        · exact List.forall_mem_cons.mpr ⟨⟨nofun, hinside⟩, hgroups⟩
        · simp [layOut_cons, parenthesized]
      · by_cases hclose : c = ')'
        · subst hclose
          exact absurd rfl h
        · rw [groupSpansFrom?_char hopen hclose] at h
          obtain ⟨groups, last, hgroups, hlast, rfl⟩ := ih _ (by omega) h rfl
          have hc : IsBare [c] := by simpa [IsBare] using ⟨hopen, hclose⟩
          obtain ⟨groups', last', hgroups', hlast', -, heq⟩ := exists_layOut_append hc hgroups hlast
          exact ⟨groups', last', hgroups', hlast', heq⟩

/-- What is found inside of the outermost parentheses of a text are the groups that it is laid out
as. -/
theorem exists_layOut_of_groups {parts : List (List Char)} (h : Wkt.groups s = .ok parts) :
    ∃ groups last, (∀ group ∈ groups, IsBare group.1 ∧ Balanced group.2) ∧ IsBare last ∧
      s = layOut groups last ∧ parts = groups.map Prod.snd := by
  have hscan : groupSpansFrom? 0 0 0 s ≠ none := by
    intro hnone
    rw [Wkt.groups, groupSpans?, hnone] at h
    contradiction
  obtain ⟨groups, last, hgroups, hlast, rfl⟩ := exists_layOut_of_groupSpansFrom? hscan
  rw [groups_layOut hgroups hlast] at h
  exact ⟨groups, last, hgroups, hlast, rfl, (Except.ok.inj h).symm⟩

/-- The texts inside of the outermost parentheses read as a list of values exactly if the text is
laid out as groups that do. -/
theorem groups_mapM_eq_some_iff {α : Type} {read : List Char → Option α} {as : List α} :
    (∃ parts, Wkt.groups s = .ok parts ∧ parts.mapM read = some as) ↔
      LaidOut (fun a inside => read inside = some a) as s := by
  constructor
  · rintro ⟨parts, hparts, has⟩
    obtain ⟨groups, last, hgroups, hlast, rfl, rfl⟩ := exists_layOut_of_groups hparts
    exact ⟨groups, last, hgroups, hlast, (mapM_eq_some_iff_forall₂.mp has).flip, rfl⟩
  · rintro ⟨groups, last, hgroups, hlast, has, rfl⟩
    exact ⟨_, groups_layOut hgroups hlast, mapM_eq_some_iff_forall₂.mpr has.flip⟩

theorem groups_commaSeparated {parts : List (List Char)} (h : ∀ part ∈ parts, Balanced part) :
    Wkt.groups (commaSeparated (parts.map parenthesized)) = .ok parts := by
  cases parts with
  | nil => rfl
  | cons part parts =>
    obtain ⟨hpart, hparts⟩ := List.forall_mem_cons.mp h
    rw [commaSeparated_parenthesized, groups_layOut]
    · simp [Function.comp_def]
    · simpa [IsBare, hpart] using hparts
    · simp [IsBare]

end Wkt
end FilterForest
