import FilterForest.Proofs.Geometry.Spelling

/-!
# Reading the documented dialect

Every text in the documented dialect is read as the geometry that it spells. The converse does not
hold: what follows the body and what stands between two groups is passed over, and all parentheses
are taken away from the ends of a point of many, with or without a partner. Apart from that the
dialect is kept. A text that is read is in it exactly if only blanks follow the body, the groups
have single commas between them, and each point of many is bare or has one pair of parentheses.
-/
namespace FilterForest

open Text

namespace Text

variable {α : Type} {p : α → List Char → Prop} {q r : List Char → Prop} {as : List α}
variable {s : List Char}

theorem IsBare.count_eq_zero (h : IsBare s) : s.count '(' = 0 ∧ s.count ')' = 0 :=
  ⟨List.count_eq_zero.mpr (isBare_iff.mp h).1, List.count_eq_zero.mpr (isBare_iff.mp h).2⟩

theorem Enclosed.imp (hqr : ∀ t, q t → r t) (h : Enclosed q s) : Enclosed r s := by
  obtain ⟨before, inside, after, hbefore, hinside, hafter, hs⟩ := h
  exact ⟨before, inside, after, hbefore, hqr inside hinside, hafter, hs⟩

theorem Enclosed.exists_part (h : Enclosed q s) : ∃ part, Enclosed (fun t => t = part ∧ q t) s := by
  obtain ⟨before, inside, after, hbefore, hinside, hafter, hs⟩ := h
  exact ⟨inside, before, inside, after, hbefore, ⟨rfl, hinside⟩, hafter, hs⟩

/-- Texts of groups, one at least, with a comma and blanks between any two of them. -/
def IsSeparated (q : List Char → Prop) (s : List Char) : Prop :=
  ∃ parts, Listed (fun part => Enclosed fun t => t = part ∧ Balanced t ∧ q t) parts s

theorem Listed.isSeparated (hp : ∀ a t, p a t → Balanced t ∧ q t)
    (h : Listed (fun a => Enclosed (p a)) as s) : IsSeparated q s := by
  induction h with
  | last h =>
    obtain ⟨part, hpart⟩ := h.exists_part
    exact ⟨[part], .last (hpart.imp fun t => .imp_right (hp _ t))⟩
  | more h _ ih =>
    obtain ⟨part, hpart⟩ := h.exists_part
    obtain ⟨parts, hparts⟩ := ih
    exact ⟨part :: parts, .more (hpart.imp fun t => .imp_right (hp _ t)) hparts⟩

/-- The values that groups between commas stand for are listed in the place of the groups. -/
theorem Listed.of_forall₂ {parts : List (List Char)}
    (h : Listed (fun part => Enclosed fun t => t = part ∧ Balanced t ∧ q t) parts s)
    (has : List.Forall₂ p as parts) : Listed (fun a => Enclosed fun t => p a t ∧ q t) as s := by
  induction h generalizing as with
  | last hpart =>
    obtain ⟨a, _, ha, hnil, rfl⟩ := List.forall₂_cons_right_iff.mp has
    obtain rfl := List.forall₂_nil_right_iff.mp hnil
    refine .last (hpart.imp ?_)
    rintro t ⟨rfl, -, ht⟩
    exact ⟨ha, ht⟩
  | more hpart _ ih =>
    obtain ⟨a, others, ha, hothers, rfl⟩ := List.forall₂_cons_right_iff.mp has
    refine .more (hpart.imp ?_) (ih hothers)
    rintro t ⟨rfl, -, ht⟩
    exact ⟨ha, ht⟩

theorem LaidOut.exists_groups (h : LaidOut p as s) :
    ∃ parts, Wkt.groups s = .ok parts ∧ List.Forall₂ p as parts := by
  obtain ⟨groups, last, hgroups, hlast, has, rfl⟩ := h
  exact ⟨_, Wkt.groups_layOut hgroups hlast, has⟩

theorem LaidOut.listed (h : LaidOut p as s) (hs : IsSeparated q s) :
    Listed (fun a => Enclosed fun t => p a t ∧ q t) as s := by
  obtain ⟨parts, hparts⟩ := hs
  -- The scan finds one list of groups, so that the two divisions of the text are the same.
  obtain ⟨found, hfound, has⟩ := h.exists_groups
  obtain ⟨found', hfound', heq⟩ := (hparts.laidOut fun _ _ ht => ht.2.1).exists_groups
  obtain rfl := Except.ok.inj (hfound.symm.trans hfound')
  have hsame : List.Forall₂ Eq parts found := heq.imp fun _ _ ht => ht.1.symm
  rw [List.forall₂_eq_eq_eq] at hsame
  subst hsame
  exact hparts.of_forall₂ has

theorem listed_enclosed_and_iff (hp : ∀ a t, p a t → Balanced t) :
    Listed (fun a => Enclosed fun t => p a t ∧ q t) as s ↔
      (as ≠ [] ∧ LaidOut p as s) ∧ IsSeparated q s := by
  constructor
  · intro h
    have hlaid := h.laidOut fun a t ht => hp a t ht.1
    exact ⟨⟨h.ne_nil, hlaid.imp fun _ _ => And.left⟩,
      h.isSeparated fun a t => .imp_left (hp a t)⟩
  · rintro ⟨⟨-, h⟩, hs⟩
    exact h.listed hs

theorem listed_and_iff (hp : ∀ a t, p a t → ',' ∉ t) :
    Listed (fun a t => p a t ∧ q t) as s ↔ Listed p as s ∧ ∀ part ∈ s.splitOn ',', q part := by
  constructor
  · intro h
    refine ⟨h.imp fun _ _ => And.left, ?_⟩
    induction h with
    | last h =>
      rw [List.splitOn_eq_singleton (hp _ _ h.1)]
      exact List.forall_mem_singleton.mpr h.2
    | more h _ ih =>
      rw [List.splitOn_append_cons_self_of_not_mem (hp _ _ h.1)]
      exact List.forall_mem_cons.mpr ⟨h.2, ih⟩
  · rintro ⟨h, hparts⟩
    induction h with
    | last h =>
      rw [List.splitOn_eq_singleton (hp _ _ h)] at hparts
      exact .last ⟨h, List.forall_mem_singleton.mp hparts⟩
    | more h _ ih =>
      rw [List.splitOn_append_cons_self_of_not_mem (hp _ _ h)] at hparts
      obtain ⟨hpart, hparts⟩ := List.forall_mem_cons.mp hparts
      exact .more ⟨h, hpart⟩ (ih hparts)

end Text

namespace Wkt

open Dialect

variable {g : Geometry} {s inside after : List Char}

theorem SpellsStripped.exists_count {c : Coord} (h : SpellsStripped c s) :
    ∃ before inside after, IsGap before ∧ SpellsPosition c inside ∧ IsGap after ∧
      s = before ++ (List.replicate (s.count '(') '(' ++
        (inside ++ (List.replicate (s.count ')') ')' ++ after))) := by
  obtain ⟨before, opened, inside, closed, after, hbefore, hopened, hinside, hclosed, hafter, rfl⟩ :=
    h
  refine ⟨before, inside, after, hbefore, hinside, hafter, ?_⟩
  obtain ⟨n, rfl⟩ : ∃ n, opened = List.replicate n '(' := ⟨_, List.eq_replicate_of_mem hopened⟩
  obtain ⟨m, rfl⟩ : ∃ m, closed = List.replicate m ')' := ⟨_, List.eq_replicate_of_mem hclosed⟩
  simp [hbefore.isBare.count_eq_zero, hinside.isBare.count_eq_zero, hafter.isBare.count_eq_zero,
    List.count_replicate]

/-- A point of many is spelled as documented if it is bare or has one pair of parentheses. -/
theorem pointOfMany_documented_iff {c : Coord} :
    documented.PointOfMany c s ↔ SpellsStripped c s ∧ (IsBare s ∨ Enclosed IsBare s) := by
  constructor
  · intro h
    refine ⟨spellsStripped_of_documented h, ?_⟩
    exact h.imp SpellsPosition.isBare (Enclosed.imp fun _ => SpellsPosition.isBare)
  · rintro ⟨hs, h⟩
    obtain ⟨before, inside, after, hbefore, hinside, hafter, heq⟩ := hs.exists_count
    rcases h with hbare | ⟨_, _, _, hgap, hbare, hgap', rfl⟩
    · rw [hbare.count_eq_zero.1, hbare.count_eq_zero.2] at heq
      obtain ⟨lead, x, between, y, tail, hlead, hbetween, hne, htail, hx, hy, rfl⟩ := hinside
      refine .inl ⟨before ++ lead, x, between, y, tail ++ after,
        List.forall_mem_append.mpr ⟨hbefore, hlead⟩, hbetween, hne,
        List.forall_mem_append.mpr ⟨htail, hafter⟩, hx, hy, ?_⟩
      simpa using heq
    · refine .inr ⟨before, inside, after, hbefore, hinside, hafter, ?_⟩
      simpa [parenthesized, hgap.isBare.count_eq_zero, hbare.count_eq_zero,
        hgap'.isBare.count_eq_zero] using heq

/-- A body with single commas between its groups, and with points of many that are bare or stand in
one pair of parentheses. -/
def IsOrderly : Geometry → List Char → Prop
  | .polygon _, inside | .multiLineString _, inside => IsSeparated (fun _ => True) inside
  | .multiPoint _, inside => ∀ part ∈ inside.splitOn ',', IsBare part ∨ Enclosed IsBare part
  | .multiPolygon _, inside => IsSeparated (IsSeparated fun _ => True) inside
  | .point _, _ | .lineString _, _ | .collection _, _ => True

theorem spellsBody_documented_iff :
    documented.SpellsBody g inside ↔ lenient.SpellsBody g inside ∧ IsOrderly g inside := by
  have hpositions : ∀ cs t, Listed SpellsPosition cs t → Balanced t :=
    fun _ _ => composes_balanced.listed fun _ _ => composes_balanced.position
  have hrings : ∀ rings t, documented.Grouped (Listed SpellsPosition) rings t ↔
      lenient.Grouped (Listed SpellsPosition) rings t ∧ IsSeparated (fun _ => True) t := by
    intro rings t
    rw [lenient, ← listed_enclosed_and_iff hpositions]
    simp only [and_true, documented]
  cases g with
  | point position => simp [SpellsBody, IsOrderly]
  | lineString positions => simp [SpellsBody, IsOrderly]
  | polygon rings => exact hrings rings inside
  | multiPoint positions =>
    show Listed documented.PointOfMany positions inside ↔ Listed SpellsStripped positions inside ∧ _
    rw [IsOrderly, ← listed_and_iff fun _ _ => SpellsStripped.comma_not_mem]
    exact ⟨Listed.imp fun _ _ => pointOfMany_documented_iff.mp,
      Listed.imp fun _ _ => pointOfMany_documented_iff.mpr⟩
  | multiLineString lines => exact hrings lines inside
  | multiPolygon polygons =>
    show documented.Grouped (documented.Grouped (Listed SpellsPosition)) polygons inside ↔
      lenient.Grouped (lenient.Grouped (Listed SpellsPosition)) polygons inside ∧ _
    have hgrouped : documented.Grouped (Listed SpellsPosition) = fun rings t =>
        lenient.Grouped (Listed SpellsPosition) rings t ∧ IsSeparated (fun _ => True) t := by
      funext rings t
      exact propext (hrings rings t)
    rw [hgrouped]
    exact listed_enclosed_and_iff fun _ _ h => h.2.balanced
  | collection parts => simp [SpellsBody]

theorem Dialect.lenient_of_documented (h : documented.Spells g s) : lenient.Spells g s := by
  obtain ⟨before, gap, inside, after, hbefore, hgap, hinside, hafter, hs⟩ := h
  exact ⟨before, gap, inside, after, hbefore, hgap, (spellsBody_documented_iff.mp hinside).1,
    IsGap.not_mem hafter rfl, hs⟩

/-- Texts with a keyword between gaps, followed by a body in parentheses that ends at the last
parenthesis that closes. -/
def IsFramed (g : Geometry) (inside after s : List Char) : Prop :=
  ∃ before gap, IsGap before ∧ IsGap gap ∧ ')' ∉ after ∧
    s = before ++ (g.keyword ++ (gap ++ (parenthesized inside ++ after)))

theorem IsFramed.unique {inside' after' : List Char} (h : IsFramed g inside after s)
    (h' : IsFramed g inside' after' s) : inside = inside' ∧ after = after' := by
  obtain ⟨before, gap, hbefore, hgap, hafter, rfl⟩ := h
  obtain ⟨before', gap', hbefore', hgap', hafter', heq⟩ := h'
  have hopen : ∀ {front back : List Char}, IsGap front → IsGap back →
      '(' ∉ front ++ (g.keyword ++ back) := by
    intro front back hfront hback
    simp only [List.mem_append, not_or]
    exact ⟨hfront.not_mem rfl, g.open_not_mem_keyword, hback.not_mem rfl⟩
  have hfirst : (before ++ (g.keyword ++ gap)) ++ '(' :: (inside ++ ')' :: after) =
      (before' ++ (g.keyword ++ gap')) ++ '(' :: (inside' ++ ')' :: after') := by
    simpa [parenthesized] using heq
  have hbehind := (append_cons_inj (hopen hbefore hgap) (hopen hbefore' hgap') hfirst).2
  have hlast : after.reverse ++ ')' :: inside.reverse =
      after'.reverse ++ ')' :: inside'.reverse := by
    simpa using congrArg List.reverse hbehind
  have hboth := append_cons_inj (by simpa using hafter) (by simpa using hafter') hlast
  exact ⟨List.reverse_inj.mp hboth.2, List.reverse_inj.mp hboth.1⟩

theorem IsFramed.spells_documented_iff (h : IsFramed g inside after s) :
    documented.Spells g s ↔ IsGap after ∧ documented.SpellsBody g inside := by
  constructor
  · rintro ⟨before, gap, inside', after', hbefore, hgap, hinside, hafter, hs⟩
    obtain ⟨rfl, rfl⟩ := h.unique ⟨before, gap, hbefore, hgap, IsGap.not_mem hafter rfl, hs⟩
    exact ⟨hafter, hinside⟩
  · rintro ⟨hafter, hinside⟩
    obtain ⟨before, gap, hbefore, hgap, -, hs⟩ := h
    exact ⟨before, gap, inside, after, hbefore, hgap, hinside, hafter, hs⟩

end Wkt

namespace Geometry

variable {g : Geometry} {s : List Char}

/-- Every text that spells a geometry in the documented dialect is read as this geometry. -/
theorem ofWkt?_of_documented (h : Wkt.Dialect.documented.Spells g s) : ofWkt? s = some g :=
  ofWkt?_eq_some_iff.mpr (Wkt.Dialect.lenient_of_documented h)

/-- Two points, the second with parentheses of its own, with blanks of several kinds and with
numbers in several forms. -/
def mixedPoints : List Char := "\tMULTIPOINT (1  2.0 ,( +3e0\n-.5E1 )) ".toList

theorem ofWkt?_mixedPoints :
    let points : Geometry := .multiPoint [⟨.ofInt 1, .ofInt 2⟩, ⟨.ofInt 3, .ofInt (-5)⟩]
    Wkt.Dialect.documented.Spells points mixedPoints ∧ ofWkt? mixedPoints = some points := by
  intro points
  have hbare : Wkt.SpellsPosition ⟨.ofInt 1, .ofInt 2⟩ "1  2.0 ".toList :=
    ⟨[], "1".toList, "  ".toList, "2.0".toList, " ".toList, by decide, by decide, by decide,
      by decide, by decide +kernel, by decide +kernel, rfl⟩
  have hinside : Wkt.SpellsPosition ⟨.ofInt 3, .ofInt (-5)⟩ " +3e0\n-.5E1 ".toList :=
    ⟨" ".toList, "+3e0".toList, "\n".toList, "-.5E1".toList, " ".toList, by decide, by decide,
      by decide, by decide, by decide +kernel, by decide +kernel, rfl⟩
  have hsecond : Wkt.Dialect.documented.PointOfMany ⟨.ofInt 3, .ofInt (-5)⟩
      "( +3e0\n-.5E1 )".toList :=
    Or.inr ⟨[], _, [], isGap_nil, hinside, isGap_nil, rfl⟩
  have hspells : Wkt.Dialect.documented.Spells points mixedPoints :=
    ⟨"\t".toList, " ".toList, _, " ".toList, by decide, by decide,
      .more (Or.inl hbare) (.last hsecond), (by decide : IsGap " ".toList), rfl⟩
  exact ⟨hspells, ofWkt?_of_documented hspells⟩

/-- A text is refused, or it has the frame of the geometry that is read. Then it is in the
documented dialect exactly if only a gap follows its body and the body is orderly. -/
theorem ofWkt?_eq_none_or_documented_iff (s : List Char) :
    ofWkt? s = none ∨ ∃ g inside after, ofWkt? s = some g ∧ Wkt.IsFramed g inside after s ∧
      (Wkt.Dialect.documented.Spells g s ↔ IsGap after ∧ Wkt.IsOrderly g inside) := by
  cases hread : ofWkt? s with
  | none => exact .inl rfl
  | some g =>
    obtain ⟨before, gap, inside, after, hbefore, hgap, hinside, hafter, hs⟩ :=
      ofWkt?_eq_some_iff.mp hread
    have hframed : Wkt.IsFramed g inside after s := ⟨before, gap, hbefore, hgap, hafter, hs⟩
    refine .inr ⟨g, inside, after, rfl, hframed, ?_⟩
    rw [hframed.spells_documented_iff, Wkt.spellsBody_documented_iff, and_iff_right hinside]

/-- A word after the body, a word between two rings, and a parenthesis that nothing closes. -/
theorem exists_read_not_documented :
    ((∃ g, ofWkt? "POINT(1 2) x".toList = some g) ∧
        ¬ ∃ g, Wkt.Dialect.documented.Spells g "POINT(1 2) x".toList) ∧
      ((∃ g, ofWkt? "POLYGON((0 0) x (1 1))".toList = some g) ∧
        ¬ ∃ g, Wkt.Dialect.documented.Spells g "POLYGON((0 0) x (1 1))".toList) ∧
      ((∃ g, ofWkt? "MULTIPOINT((1 2)".toList = some g) ∧
        ¬ ∃ g, Wkt.Dialect.documented.Spells g "MULTIPOINT((1 2)".toList) := by
  have hread : ∀ s : List Char, (ofWkt? s).isSome = true → ∃ g, ofWkt? s = some g :=
    fun _ => Option.isSome_iff_exists.mp
  have hstray : ∀ s : List Char, 'x' ∈ s → ¬ ∃ g, Wkt.Dialect.documented.Spells g s := by
    rintro s hs ⟨g, hg⟩
    exact absurd (Wkt.Dialect.spells_documented hg Wkt.composes_isWktChar 'x' hs) (by decide)
  refine ⟨⟨hread _ (by decide +kernel), hstray _ (by decide)⟩,
    ⟨hread _ (by decide +kernel), hstray _ (by decide)⟩, hread _ (by decide +kernel), ?_⟩
  rintro ⟨g, hg⟩
  have hbalanced := Wkt.Dialect.spells_documented hg Wkt.composes_balanced
  exact absurd hbalanced.count_eq (by decide)

end Geometry
end FilterForest
