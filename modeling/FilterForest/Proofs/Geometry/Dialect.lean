import FilterForest.Proofs.Geometry.Parsed
import FilterForest.Proofs.Number.Characters
import FilterForest.Proofs.Text.Split

/-!
# Dialects of well-known text

Which texts spell a geometry. All dialects have the same keywords, positions and lists of positions;
they differ in how parts in parentheses follow one another, in how one point of many is spelled, and
in what may follow the body. What is read has this form as well, with everything allowed that is
passed over: any text between parts and behind the body, and any parentheses at the ends of a point
of many. That is more than the documented dialect, which stands beside it.
-/
namespace FilterForest

open Text

theorem isTokenChar_of_isNumberChar {c : Char} (h : isNumberChar c = true) :
    isTokenChar c = true := by
  simp only [isNumberChar, Bool.or_eq_true, decide_eq_true_eq] at h
  rcases h with ((((hdigit | rfl) | rfl) | rfl) | rfl) | rfl
  · exact isTokenChar_of_isNumeric (isNumeric_of_isDigit hdigit)
  all_goals rfl

theorem Binary64.isSolid_of_ofFiniteText? {s : List Char} {x : Binary64}
    (h : ofFiniteText? s = some x) : IsSolid s := by
  intro c hc
  have htoken := isTokenChar_of_isNumberChar (isNumberChar_of_ofFiniteText? h c hc)
  simp only [isTokenChar, Bool.and_eq_true, Bool.not_eq_true'] at htoken
  exact htoken.1.1.1

namespace Wkt

/-- Two finite numbers with a gap between them and blanks around them. -/
def SpellsPosition (c : Coord) (s : List Char) : Prop :=
  ∃ before x between y after, IsGap before ∧ IsGap between ∧ between ≠ [] ∧ IsGap after ∧
    Binary64.ofFiniteText? x = some c.x ∧ Binary64.ofFiniteText? y = some c.y ∧
      s = before ++ (x ++ (between ++ (y ++ after)))

theorem position?_eq_some_iff {s : List Char} {c : Coord} :
    position? s = some c ↔ SpellsPosition c s := by
  constructor
  · intro h
    unfold position? at h
    split at h
    · next x y hwords =>
      split at h
      · next hx hy =>
        obtain rfl := Option.some.inj h
        obtain ⟨before, between, after, hbefore, hbetween, hne, hafter, rfl⟩ :=
          exists_append_of_words_pair hwords
        exact ⟨before, x, between, y, after, hbefore, hbetween, hne, hafter, hx, hy, rfl⟩
      · contradiction
    · contradiction
  · rintro ⟨before, x, between, y, after, hbefore, hbetween, hne, hafter, hx, hy, rfl⟩
    have hwords := words_pair hbefore (Binary64.isSolid_of_ofFiniteText? hx)
      (Binary64.ne_nil_of_ofFiniteText? hx) hbetween hne (Binary64.isSolid_of_ofFiniteText? hy)
      (Binary64.ne_nil_of_ofFiniteText? hy) hafter
    simp only [position?, hwords, hx, hy]

theorem SpellsPosition.isBlank_or_isNumberChar {c : Coord} {s : List Char}
    (h : SpellsPosition c s) : ∀ ch ∈ s, isBlank ch = true ∨ isNumberChar ch = true := by
  obtain ⟨before, x, between, y, after, hbefore, hbetween, -, hafter, hx, hy, rfl⟩ := h
  have hnumber : ∀ {t : List Char} {n : Binary64}, Binary64.ofFiniteText? t = some n →
      ∀ ch ∈ t, isBlank ch = true ∨ isNumberChar ch = true :=
    fun ht ch hch => .inr (Binary64.isNumberChar_of_ofFiniteText? ht ch hch)
  have hgap : ∀ {t : List Char}, IsGap t → ∀ ch ∈ t, isBlank ch = true ∨ isNumberChar ch = true :=
    fun ht ch hch => .inl (ht ch hch)
  simp only [List.forall_mem_append]
  exact ⟨hgap hbefore, hnumber hx, hgap hbetween, hnumber hy, hgap hafter⟩

theorem SpellsPosition.not_mem {c : Coord} {s : List Char} (h : SpellsPosition c s) {ch : Char}
    (hblank : isBlank ch = false) (hnumber : isNumberChar ch = false) : ch ∉ s :=
  fun hmem => (h.isBlank_or_isNumberChar ch hmem).elim (by simp [hblank]) (by simp [hnumber])

theorem SpellsPosition.isBare {c : Coord} {s : List Char} (h : SpellsPosition c s) : IsBare s :=
  isBare_iff.mpr ⟨h.not_mem rfl rfl, h.not_mem rfl rfl⟩

theorem positions?_eq_some_iff {s : List Char} {cs : List Coord} :
    positions? s = some cs ↔ Listed SpellsPosition cs s := by
  rw [positions?, mapM_splitOn_eq_some_iff]
  constructor
  · exact Listed.imp fun c part h => position?_eq_some_iff.mp h.2
  · exact Listed.imp fun c part h => ⟨h.not_mem rfl rfl, position?_eq_some_iff.mpr h⟩

/-- A position with any number of parentheses that open in front of it, and any number of
parentheses that close behind it. -/
def SpellsStripped (c : Coord) (s : List Char) : Prop :=
  ∃ before opened inside closed after, IsGap before ∧ (∀ ch ∈ opened, ch = '(') ∧
    SpellsPosition c inside ∧ (∀ ch ∈ closed, ch = ')') ∧ IsGap after ∧
      s = before ++ (opened ++ (inside ++ (closed ++ after)))

theorem SpellsPosition.ne_nil {c : Coord} {s : List Char} (h : SpellsPosition c s) : s ≠ [] := by
  obtain ⟨before, x, between, y, after, -, -, -, -, hx, -, rfl⟩ := h
  simp [Binary64.ne_nil_of_ofFiniteText? hx]

theorem SpellsPosition.dropWhile {c : Coord} {opened inside closed : List Char}
    (h : SpellsPosition c inside) (hopened : ∀ ch ∈ opened, ch = '(')
    (hclosed : ∀ ch ∈ closed, ch = ')') :
    (((opened ++ (inside ++ closed)).dropWhile (· = '(')).reverse.dropWhile (· = ')')).reverse =
      inside := by
  have hstart : (opened ++ (inside ++ closed)).dropWhile (· = '(') = inside ++ closed := by
    apply dropWhile_append_of_head (by simpa using hopened)
    rw [List.head?_append_of_ne_nil _ h.ne_nil]
    intro ch hch
    simpa using (h.isBare ch (List.mem_of_mem_head? hch)).1
  have hend : (closed.reverse ++ inside.reverse).dropWhile (· = ')') = inside.reverse := by
    apply dropWhile_append_of_head (by simpa using hclosed)
    rw [List.head?_reverse]
    intro ch hch
    simpa using (h.isBare ch (List.mem_of_mem_getLast? hch)).2
  rw [hstart, List.reverse_append, hend, List.reverse_reverse]

/-- Gaps at the ends are cut off, and the gaps around the position are where no parenthesis keeps
them. -/
theorem SpellsStripped.exists_trim {c : Coord} {s : List Char} (h : SpellsStripped c s) :
    ∃ opened inside closed, (∀ ch ∈ opened, ch = '(') ∧ SpellsPosition c inside ∧
      (∀ ch ∈ closed, ch = ')') ∧ trim s = opened ++ (inside ++ closed) := by
  obtain ⟨before, opened, inside, closed, after, hbefore, hopened, hinside, hclosed, hafter, rfl⟩ :=
    h
  obtain ⟨lead, x, between, y, tail, hlead, hbetween, hne, htail, hx, hy, rfl⟩ := hinside
  obtain ⟨lead', hlead', hstart⟩ := exists_trimStart_append (c := '(') rfl hopened hlead
    (trimStart_append (Binary64.isSolid_of_ofFiniteText? hx) (Binary64.ne_nil_of_ofFiniteText? hx)
      (between ++ (y ++ (tail ++ (closed ++ after)))))
  obtain ⟨tail', htail', hend⟩ := exists_append_trimEnd (c := ')') rfl hclosed htail
    (trimEnd_append (Binary64.isSolid_of_ofFiniteText? hy) (Binary64.ne_nil_of_ofFiniteText? hy)
      (opened ++ (lead' ++ (x ++ between))))
  refine ⟨opened, lead' ++ (x ++ (between ++ (y ++ tail'))), closed, hopened,
    ⟨lead', x, between, y, tail', hlead', hbetween, hne, htail', hx, hy, rfl⟩, hclosed, ?_⟩
  simp only [List.append_assoc] at hend ⊢
  calc
    trim (before ++ (opened ++ (lead ++ (x ++ (between ++ (y ++ (tail ++ (closed ++ after))))))))
    _ = trimEnd (opened ++ (lead' ++ (x ++ (between ++ (y ++ (tail ++ (closed ++ after))))))) := by
      rw [trim, trimStart_gap_append hbefore, hstart]
    _ = trimEnd ((opened ++ (lead' ++ (x ++ (between ++ (y ++ (tail ++ closed)))))) ++ after) := by
      simp only [List.append_assoc]
    _ = opened ++ (lead' ++ (x ++ (between ++ (y ++ (tail' ++ closed))))) := by
      rw [trimEnd_append_gap hafter, hend]

theorem pointOfMany?_eq_some_iff {s : List Char} {c : Coord} :
    pointOfMany? s = some c ↔ SpellsStripped c s := by
  constructor
  · intro h
    obtain ⟨before, after, hbefore, hafter, hs⟩ := exists_append_trim s
    obtain ⟨opened, hopened, hstart⟩ := exists_append_dropWhile (· = '(') (trim s)
    obtain ⟨closed, hclosed, hend⟩ :=
      exists_dropWhile_append (· = ')') ((trim s).dropWhile (· = '('))
    refine ⟨before, opened, _, closed, after, hbefore, by simpa using hopened,
      position?_eq_some_iff.mp h, by simpa using hclosed, hafter, ?_⟩
    rw [← List.append_assoc _ closed, ← hend, ← List.append_assoc opened, ← hstart, ← hs]
  · intro h
    obtain ⟨opened, inside, closed, hopened, hinside, hclosed, htrim⟩ := h.exists_trim
    rw [pointOfMany?, htrim]
    simp only [hinside.dropWhile hopened hclosed]
    exact position?_eq_some_iff.mpr hinside

theorem SpellsStripped.comma_not_mem {c : Coord} {s : List Char} (h : SpellsStripped c s) :
    ',' ∉ s := by
  obtain ⟨before, opened, inside, closed, after, hbefore, hopened, hinside, hclosed, hafter, rfl⟩ :=
    h
  simp only [List.mem_append, not_or]
  exact ⟨hbefore.not_mem rfl, fun hmem => absurd (hopened _ hmem) (by decide),
    hinside.not_mem rfl rfl, fun hmem => absurd (hclosed _ hmem) (by decide), hafter.not_mem rfl⟩

theorem points?_eq_some_iff {s : List Char} {cs : List Coord} :
    points? s = some cs ↔ Listed SpellsStripped cs s := by
  rw [points?, mapM_splitOn_eq_some_iff]
  constructor
  · exact Listed.imp fun c part h => pointOfMany?_eq_some_iff.mp h.2
  · exact Listed.imp fun c part h => ⟨h.comma_not_mem, pointOfMany?_eq_some_iff.mpr h⟩

/-- A list that is read group by group, and refused if it is empty, is read exactly if the text is
laid out as groups that spell its elements. -/
theorem toOption_eq_some_iff_laidOut {α : Type} {reading : Reading (List α)}
    {read : List Char → Option α} {p : α → List Char → Prop} {s : List Char} {as : List α}
    (hread : ∀ a part, read part = some a ↔ p a part)
    (hok : ∀ parts, groups s = .ok parts →
      reading.toOption = (parts.mapM read).filter fun as => !as.isEmpty)
    (herror : ∀ refusal, groups s = .error refusal → reading.toOption = none) :
    reading.toOption = some as ↔ as ≠ [] ∧ LaidOut p as s := by
  have hlaid : LaidOut (fun a inside => read inside = some a) as s ↔ LaidOut p as s :=
    ⟨LaidOut.imp fun a part => (hread a part).mp, LaidOut.imp fun a part => (hread a part).mpr⟩
  rw [← hlaid, ← groups_mapM_eq_some_iff]
  cases hgroups : groups s with
  | error refusal => simp [herror refusal hgroups]
  | ok parts =>
    rw [hok parts hgroups, Option.filter_eq_some_iff]
    simp [and_comm]

theorem toOption_rings_eq_some_iff {s : List Char} {rings : List (List Coord)} :
    (Wkt.rings s).toOption = some rings ↔
      rings ≠ [] ∧ LaidOut (Listed SpellsPosition) rings s :=
  toOption_eq_some_iff_laidOut (fun _ _ => positions?_eq_some_iff) (fun _ => toOption_rings)
    fun _ h => by simp [Wkt.rings, h, bind, Except.bind, Except.toOption]

theorem toOption_polygons_eq_some_iff {s : List Char} {polygons : List (List (List Coord))} :
    (Wkt.polygons s).toOption = some polygons ↔
      polygons ≠ [] ∧ LaidOut (fun rings inside =>
        rings ≠ [] ∧ LaidOut (Listed SpellsPosition) rings inside) polygons s :=
  toOption_eq_some_iff_laidOut (fun _ _ => toOption_rings_eq_some_iff) (fun _ => toOption_polygons)
    fun _ h => by simp [Wkt.polygons, h, bind, Except.bind, Except.toOption]

/-- What dialects of well-known text differ in. -/
structure Dialect where
  /-- How parts in parentheses that spell a list of values follow one another. -/
  Grouped {α : Type} (p : α → List Char → Prop) : List α → List Char → Prop
  /-- How one point of many is spelled. -/
  PointOfMany : Coord → List Char → Prop
  /-- What may follow the body. -/
  Tail : List Char → Prop

namespace Dialect

/-- The texts that spell a geometry inside of the parentheses after the keyword. -/
def SpellsBody (d : Dialect) : Geometry → List Char → Prop
  | .point position => SpellsPosition position
  | .lineString positions => Listed SpellsPosition positions
  | .polygon rings | .multiLineString rings => d.Grouped (Listed SpellsPosition) rings
  | .multiPoint positions => Listed d.PointOfMany positions
  | .multiPolygon polygons => d.Grouped (d.Grouped (Listed SpellsPosition)) polygons
  | .collection _ => fun _ => False

/-- The texts that spell a geometry: its keyword, with gaps around it, and its body in
parentheses. -/
def Spells (d : Dialect) (g : Geometry) (s : List Char) : Prop :=
  ∃ before gap inside after, IsGap before ∧ IsGap gap ∧ d.SpellsBody g inside ∧ d.Tail after ∧
    s = before ++ (g.keyword ++ (gap ++ (parenthesized inside ++ after)))

/-- What is read, which is more than the documented dialect has. Parts in parentheses, one at least,
stand between any texts without a parenthesis, all parentheses at the ends of a point of many are
passed over, with a partner or without, and so is what follows the last parenthesis that closes. -/
def lenient : Dialect where
  Grouped p as s := as ≠ [] ∧ LaidOut p as s
  PointOfMany := SpellsStripped
  Tail after := ')' ∉ after

end Dialect

theorem toOption_map_eq_some_iff {α β : Type} {f : α → β} (hf : Function.Injective f)
    {reading : Reading α} {a : α} :
    (f <$> reading).toOption = some (f a) ↔ reading.toOption = some a := by
  rw [toOption_map, ← Option.map_some, (Option.map_injective hf).eq_iff]

/-- The keyword of a geometry and a body are read as that geometry exactly if the body spells it. -/
theorem toOption_geometry_eq_some_iff {g : Geometry} {inside : List Char} :
    (geometry g.keyword inside).toOption = some g ↔ Dialect.lenient.SpellsBody g inside := by
  cases g with
  | point position =>
    show (Geometry.point <$> orMalformed (position? inside)).toOption = _ ↔ _
    rw [toOption_map_eq_some_iff fun _ _ => Geometry.point.inj, toOption_orMalformed]
    exact position?_eq_some_iff
  | lineString positions =>
    show (Geometry.lineString <$> orMalformed (positions? inside)).toOption = _ ↔ _
    rw [toOption_map_eq_some_iff fun _ _ => Geometry.lineString.inj, toOption_orMalformed]
    exact positions?_eq_some_iff
  | polygon rings =>
    show (Geometry.polygon <$> Wkt.rings inside).toOption = _ ↔ _
    rw [toOption_map_eq_some_iff fun _ _ => Geometry.polygon.inj]
    exact toOption_rings_eq_some_iff
  | multiPoint positions =>
    show (Geometry.multiPoint <$> orMalformed (points? inside)).toOption = _ ↔ _
    rw [toOption_map_eq_some_iff fun _ _ => Geometry.multiPoint.inj, toOption_orMalformed]
    exact points?_eq_some_iff
  | multiLineString lines =>
    show (Geometry.multiLineString <$> Wkt.rings inside).toOption = _ ↔ _
    rw [toOption_map_eq_some_iff fun _ _ => Geometry.multiLineString.inj]
    exact toOption_rings_eq_some_iff
  | multiPolygon polygons =>
    show (Geometry.multiPolygon <$> Wkt.polygons inside).toOption = _ ↔ _
    rw [toOption_map_eq_some_iff fun _ _ => Geometry.multiPolygon.inj]
    exact toOption_polygons_eq_some_iff
  | collection parts => exact ⟨nofun, nofun⟩

end Wkt

/-- A text is read as a geometry exactly if it spells it in the lenient way. -/
theorem Geometry.ofWkt?_eq_some_iff {s : List Char} {g : Geometry} :
    ofWkt? s = some g ↔ Wkt.Dialect.lenient.Spells g s := by
  constructor
  · intro h
    obtain ⟨word, hword, h⟩ := Wkt.exists_of_toOption_bind h
    obtain ⟨inside, hinside, h⟩ := Wkt.exists_of_toOption_bind h
    obtain ⟨rfl, -⟩ := Wkt.eq_keyword_and_isReadable_of_geometry h
    obtain ⟨before, gap, after, hbefore, hgap, hafter, hs⟩ :=
      Wkt.exists_append_of_read hword hinside g.open_not_mem_keyword
    exact ⟨before, gap, inside, after, hbefore, hgap, Wkt.toOption_geometry_eq_some_iff.mp h,
      hafter, hs⟩
  · rintro ⟨before, gap, inside, after, hbefore, hgap, hinside, hafter, rfl⟩
    obtain ⟨hsolid, hne⟩ := g.isSolid_keyword
    rw [ofWkt?, Wkt.read_framed hbefore g.open_not_mem_keyword hsolid hne hgap hafter]
    exact Wkt.toOption_geometry_eq_some_iff.mpr hinside

end FilterForest
