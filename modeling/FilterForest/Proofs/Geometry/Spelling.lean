import FilterForest.Proofs.Geometry.Dialect

/-!
# The documented dialect

Drawn geometries are documented to have commas and blanks between their parts, any blanks at
parentheses and commas, and points of many with or without parentheses of their own. What holds of
the parts of such a text and passes to what is put together from them holds of the text.
-/
namespace FilterForest

open Text

namespace Text

variable {α : Type} {p : α → List Char → Prop} {as : List α} {s : List Char}

/-- Texts in one pair of parentheses with gaps around it. -/
def Enclosed (p : List Char → Prop) (s : List Char) : Prop :=
  ∃ before inside after, IsGap before ∧ p inside ∧ IsGap after ∧
    s = before ++ (parenthesized inside ++ after)

theorem IsGap.isBare (h : IsGap s) : IsBare s := isBare_iff.mpr ⟨h.not_mem rfl, h.not_mem rfl⟩

/-- Parts in parentheses between commas are laid out as groups. -/
theorem Listed.laidOut (hp : ∀ a t, p a t → Balanced t)
    (h : Listed (fun a => Enclosed (p a)) as s) : LaidOut p as s := by
  induction h with
  | last h =>
    obtain ⟨before, inside, after, hbefore, hinside, hafter, rfl⟩ := h
    exact .cons hbefore.isBare (hp _ _ hinside) hinside (.of_isBare hafter.isBare)
  | @more a _ _ t h _ ih =>
    obtain ⟨before, inside, after, hbefore, hinside, hafter, rfl⟩ := h
    have hgap : IsBare (after ++ [',']) :=
      List.forall_mem_append.mpr ⟨hafter.isBare, by simp⟩
    have hrest := LaidOut.cons hbefore.isBare (hp _ _ hinside) hinside (ih.append_left hgap)
    simpa using hrest

theorem Balanced.count_eq (h : Balanced s) : s.count '(' = s.count ')' := by
  induction h with
  | nil => rfl
  | char hopen hclose _ ih => rwa [List.count_cons_of_ne hopen, List.count_cons_of_ne hclose]
  | group _ _ ihs iht =>
    rw [parenthesized_append, List.count_cons_self, List.count_append,
      List.count_cons_of_ne (by decide), List.count_cons_of_ne (by decide), List.count_append,
      List.count_cons_self, ihs, iht]
    omega

end Text

namespace Wkt

/-- Properties of texts that pass from the parts of a spelling to all of it. -/
structure Composes (P : List Char → Prop) : Prop where
  append : ∀ {s t}, P s → P t → P (s ++ t)
  comma : P [',']
  parenthesized : ∀ {s}, P s → P (parenthesized s)
  gap : ∀ {s}, IsGap s → P s
  number : ∀ {s x}, Binary64.ofFiniteText? s = some x → P s
  keyword : ∀ g : Geometry, P g.keyword

namespace Composes

variable {P : List Char → Prop} {s : List Char}

theorem position (hP : Composes P) {c : Coord} (h : SpellsPosition c s) : P s := by
  obtain ⟨before, x, between, y, after, hbefore, hbetween, -, hafter, hx, hy, rfl⟩ := h
  exact hP.append (hP.gap hbefore) (hP.append (hP.number hx)
    (hP.append (hP.gap hbetween) (hP.append (hP.number hy) (hP.gap hafter))))

theorem enclosed (hP : Composes P) {p : List Char → Prop} (hp : ∀ t, p t → P t)
    (h : Enclosed p s) : P s := by
  obtain ⟨before, inside, after, hbefore, hinside, hafter, rfl⟩ := h
  exact hP.append (hP.gap hbefore)
    (hP.append (hP.parenthesized (hp inside hinside)) (hP.gap hafter))

theorem listed (hP : Composes P) {α : Type} {p : α → List Char → Prop} {as : List α}
    (hp : ∀ a t, p a t → P t) (h : Listed p as s) : P s := by
  induction h with
  | last h => exact hp _ _ h
  | more h _ ih => exact hP.append (hp _ _ h) (hP.append hP.comma ih)

end Composes

theorem isBare_of_ofFiniteText? {s : List Char} {x : Binary64}
    (h : Binary64.ofFiniteText? s = some x) : IsBare s := by
  have hnumber := Binary64.isNumberChar_of_ofFiniteText? h
  exact isBare_iff.mpr ⟨fun hmem => absurd (hnumber _ hmem) (by decide),
    fun hmem => absurd (hnumber _ hmem) (by decide)⟩

theorem isUpper_of_mem_keyword (g : Geometry) : ∀ c ∈ g.keyword, c.isUpper = true := by
  have hupper : ∀ s : List Char, s.all Char.isUpper = true → ∀ c ∈ s, c.isUpper = true :=
    fun s => List.all_eq_true.mp
  cases g <;> exact hupper _ rfl

theorem isBare_keyword (g : Geometry) : IsBare g.keyword := by
  have hupper := isUpper_of_mem_keyword g
  exact isBare_iff.mpr ⟨fun hmem => absurd (hupper _ hmem) (by decide),
    fun hmem => absurd (hupper _ hmem) (by decide)⟩

theorem composes_balanced : Composes Balanced where
  append := Balanced.append
  comma := .of_isBare (by simp [IsBare])
  parenthesized := Balanced.parenthesized
  gap h := .of_isBare h.isBare
  number h := .of_isBare (isBare_of_ofFiniteText? h)
  keyword g := .of_isBare (isBare_keyword g)

def isWktChar (c : Char) : Bool :=
  isBlank c || isNumberChar c || c.isUpper || c = ',' || c = '(' || c = ')'

theorem composes_isWktChar : Composes fun s => ∀ c ∈ s, isWktChar c = true where
  append hs ht := List.forall_mem_append.mpr ⟨hs, ht⟩
  comma := by simp [isWktChar]
  parenthesized {s} hs := by
    refine List.forall_mem_append.mpr ⟨List.forall_mem_cons.mpr ⟨rfl, hs⟩, ?_⟩
    exact List.forall_mem_singleton.mpr rfl
  gap h c hc := by simp [isWktChar, h c hc]
  number h c hc := by simp [isWktChar, Binary64.isNumberChar_of_ofFiniteText? h c hc]
  keyword g c hc := by simp [isWktChar, isUpper_of_mem_keyword g c hc]

namespace Dialect

/-- The dialect that drawn geometries are documented to have. Parts in parentheses stand between
commas, a point of many may stand in one pair of parentheses, and blanks follow the body. -/
def documented : Dialect where
  Grouped p := Listed fun a => Enclosed (p a)
  PointOfMany c s := SpellsPosition c s ∨ Enclosed (SpellsPosition c) s
  Tail := IsGap

variable {g : Geometry} {s : List Char}

/-- A property that passes from the parts of a spelling to all of it holds of a spelling. -/
theorem spells_documented (h : documented.Spells g s) {P : List Char → Prop} (hP : Composes P) :
    P s := by
  obtain ⟨before, gap, inside, after, hbefore, hgap, hinside, hafter, rfl⟩ := h
  have hposition : ∀ c t, SpellsPosition c t → P t := fun _ _ => hP.position
  have hpositions : ∀ cs t, Listed SpellsPosition cs t → P t := fun _ _ => hP.listed hposition
  have hrings : ∀ rings t, documented.Grouped (Listed SpellsPosition) rings t → P t :=
    fun _ _ => hP.listed fun ring _ => hP.enclosed (hpositions ring)
  have hbody : P inside := by
    cases g with
    | point position => exact hposition _ _ hinside
    | lineString positions => exact hpositions _ _ hinside
    | polygon rings => exact hrings _ _ hinside
    | multiPoint positions =>
      refine hP.listed (fun c t ht => ?_) hinside
      exact ht.elim (hposition c t) (hP.enclosed (hposition c))
    | multiLineString lines => exact hrings _ _ hinside
    | multiPolygon polygons =>
      exact hP.listed (fun rings _ => hP.enclosed (hrings rings)) hinside
    | collection parts => contradiction
  exact hP.append (hP.gap hbefore) (hP.append (hP.keyword g) (hP.append (hP.gap hgap)
    (hP.append (hP.parenthesized hbody) (hP.gap hafter))))

theorem spellsStripped_of_documented {c : Coord} (h : documented.PointOfMany c s) :
    SpellsStripped c s := by
  rcases h with h | ⟨before, inside, after, hbefore, hinside, hafter, rfl⟩
  · exact ⟨[], [], s, [], [], isGap_nil, nofun, h, nofun, isGap_nil, by simp⟩
  · exact ⟨before, ['('], inside, [')'], after, hbefore, by simp, hinside, by simp, hafter,
      by simp [parenthesized]⟩

end Dialect
end Wkt
end FilterForest
