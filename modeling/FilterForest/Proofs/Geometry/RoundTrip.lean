import FilterForest.Proofs.Geometry.Groups
import FilterForest.Proofs.Text.Parts
import FilterForest.Proofs.Text.Recovers

/-!
# Geometries read back from well-known text

The reader finds again what the writer put together: a keyword and a body, the groups of the body,
the positions between commas, and the two numbers of a position. So a geometry reads back from its
text if it is not a collection, none of its lists is empty and its coordinates are finite. The text
of any other geometry does not read at all.
-/
namespace FilterForest

open Text

/-- The characters that stand neither between words nor between the parts of a body. -/
def isTokenChar (c : Char) : Bool := !isBlank c && c ≠ ',' && c ≠ '(' && c ≠ ')'

theorem isTokenChar_of_isNumeric {c : Char} (h : isNumeric c = true) : isTokenChar c = true := by
  simp only [isNumeric, Bool.or_eq_true, decide_eq_true_eq] at h
  rcases h with (hdigit | rfl) | rfl
  · have hne : ∀ other : Char, other.isDigit = false → c ≠ other := by
      rintro other hother rfl
      rw [hother] at hdigit
      contradiction
    simp [isTokenChar, isBlank_of_isDigit hdigit, hne]
  · rfl
  · rfl

namespace Binary64

variable {x : Binary64}

theorem isTokenChar_of_mem_plain {c : Char} (hc : c ∈ x.plain) : isTokenChar c = true := by
  have hname : ∀ s : List Char, s.all isTokenChar = true → c ∈ s → isTokenChar c = true :=
    fun s hs => List.all_eq_true.mp hs c
  cases x with
  | finite negative m => exact isTokenChar_of_isNumeric (isNumeric_of_mem_plain rfl hc)
  | infinite negative => cases negative <;> exact hname _ rfl hc
  | nan => exact hname _ rfl hc

theorem isSolid_plain (x : Binary64) : IsSolid x.plain := by
  intro c hc
  have htoken := isTokenChar_of_mem_plain hc
  simp only [isTokenChar, Bool.and_eq_true, Bool.not_eq_true'] at htoken
  exact htoken.1.1.1

theorem plain_nonempty (x : Binary64) : x.plain ≠ [] := by
  cases x with
  | finite negative m => exact plain_ne_nil rfl
  | infinite negative => cases negative <;> exact List.cons_ne_nil _ _
  | nan => exact List.cons_ne_nil _ _

theorem isFinite_of_same {x y : Binary64} (h : y.same x = true) (hx : x.isFinite = true) :
    y.isFinite = true := by
  cases x with
  | finite negative m => cases y <;> first | rfl | contradiction
  | infinite negative => contradiction
  | nan => contradiction

theorem recovers_plain (x : Binary64) :
    Recovers same (x.isFinite = true) x (ofFiniteText? x.plain) := by
  cases x with
  | finite negative m =>
    obtain ⟨y, hread, hsame⟩ := ofText?_plain (x := finite negative m) rfl
    rw [ofFiniteText?, hread, Option.filter_some, if_pos (isFinite_of_same hsame rfl)]
    exact ⟨rfl, hsame⟩
  | infinite negative => cases negative <;> exact Bool.false_ne_true
  | nan => exact Bool.false_ne_true

end Binary64

namespace Wkt

theorem words_wkt (c : Coord) : words c.wkt = [c.x.plain, c.y.plain] := by
  rw [Coord.wkt, words_append_blank rfl, words_of_isSolid c.x.isSolid_plain c.x.plain_nonempty,
    words_of_isSolid c.y.isSolid_plain c.y.plain_nonempty]
  rfl

theorem position?_cons_space (s : List Char) : position? (' ' :: s) = position? s := by
  rw [position?, position?, words_cons_blank rfl]

theorem recovers_position (c : Coord) : Recovers Coord.same c.IsFinite c (position? c.wkt) := by
  have hx := c.x.recovers_plain
  have hy := c.y.recovers_plain
  simp only [position?, words_wkt]
  cases hreadx : Binary64.ofFiniteText? c.x.plain with
  | none =>
    rw [hreadx] at hx
    exact fun hfinite => hx hfinite.1
  | some x =>
    rw [hreadx] at hx
    cases hready : Binary64.ofFiniteText? c.y.plain with
    | none =>
      rw [hready] at hy
      exact fun hfinite => hy hfinite.2
    | some y =>
      rw [hready] at hy
      exact ⟨⟨hx.1, hy.1⟩, Bool.and_eq_true_iff.mpr ⟨hx.2, hy.2⟩⟩

theorem eq_space_or_isTokenChar_of_mem_wkt {c : Coord} {ch : Char} (h : ch ∈ c.wkt) :
    ch = ' ' ∨ isTokenChar ch = true := by
  rcases List.mem_append.mp h with hx | hy
  · exact .inr (Binary64.isTokenChar_of_mem_plain hx)
  · rcases List.mem_cons.mp hy with rfl | hy
    · exact .inl rfl
    · exact .inr (Binary64.isTokenChar_of_mem_plain hy)

theorem comma_not_mem_wkt (c : Coord) : ',' ∉ c.wkt :=
  fun h => (eq_space_or_isTokenChar_of_mem_wkt h).elim (by decide) (by decide)

theorem isBare_wkt (c : Coord) : IsBare c.wkt := by
  intro ch hch
  rcases eq_space_or_isTokenChar_of_mem_wkt hch with rfl | htoken
  · decide
  · simp only [isTokenChar, Bool.and_eq_true, decide_eq_true_eq] at htoken
    exact ⟨htoken.1.2, htoken.2⟩

theorem mapM_splitOn_positionsWkt {read : List Char → Option Coord}
    (hspace : ∀ c : Coord, read (' ' :: c.wkt) = read c.wkt) (position : Coord)
    (positions : List Coord) :
    ((Geometry.positionsWkt (position :: positions)).splitOn ',').mapM read =
      (position :: positions).mapM fun c => read c.wkt := by
  rw [Geometry.positionsWkt, List.map_cons, splitOn_commaSeparated (comma_not_mem_wkt position)]
  · simp [Function.comp_def, hspace]
  · intro other hother
    obtain ⟨c, _, rfl⟩ := List.mem_map.mp hother
    exact comma_not_mem_wkt c

/-- A list of positions reads back exactly if it is filled with finite positions. -/
theorem recovers_splitOn {read : List Char → Option Coord} (hnil : read [] = none)
    (hspace : ∀ c : Coord, read (' ' :: c.wkt) = read c.wkt)
    (h : ∀ c, Recovers Coord.same c.IsFinite c (read c.wkt)) (positions : List Coord) :
    Recovers (sameList Coord.same) (Filled Coord.IsFinite positions) positions
      (((Geometry.positionsWkt positions).splitOn ',').mapM read) := by
  cases positions with
  | nil =>
    have hread : ((Geometry.positionsWkt []).splitOn ',').mapM read = none := by
      rw [Geometry.positionsWkt, List.map_nil, commaSeparated, List.intercalate_nil,
        List.splitOn_nil, List.mapM_cons, hnil]
      rfl
    rw [hread]
    exact fun hfilled => hfilled.1 rfl
  | cons position positions =>
    rw [mapM_splitOn_positionsWkt hspace]
    have hlist := recovers_mapM (position :: positions) fun c _ => h c
    cases hread : (position :: positions).mapM fun c => read c.wkt with
    | none =>
      rw [hread] at hlist
      exact fun hfilled => hlist hfilled.2
    | some read =>
      rw [hread] at hlist
      exact ⟨⟨List.cons_ne_nil _ _, hlist.1⟩, hlist.2⟩

theorem recovers_positions (positions : List Coord) :
    Recovers (sameList Coord.same) (Filled Coord.IsFinite positions) positions
      (positions? (Geometry.positionsWkt positions)) :=
  recovers_splitOn rfl (fun _ => position?_cons_space _) recovers_position positions

theorem dropWhile_isBare {s : List Char} (hs : IsBare s) :
    s.dropWhile (· = '(') = s ∧ (s.reverse.dropWhile (· = ')')).reverse = s := by
  constructor
  · cases s with
    | nil => rfl
    | cons c s => simp [(hs c List.mem_cons_self).1]
  · rcases s.eq_nil_or_concat' with rfl | ⟨s, c, rfl⟩
    · rfl
    · simp [(hs c (by simp)).2]

theorem trim_wkt (c : Coord) : trim c.wkt = c.wkt := by
  have hstart : trimStart c.wkt = c.wkt :=
    trimStart_append c.x.isSolid_plain c.x.plain_nonempty (' ' :: c.y.plain)
  have hend : trimEnd (c.x.plain ++ [' '] ++ c.y.plain) = c.x.plain ++ [' '] ++ c.y.plain :=
    trimEnd_append c.y.isSolid_plain c.y.plain_nonempty _
  rw [trim, hstart]
  simpa [Coord.wkt] using hend

theorem pointOfMany?_cons_space (s : List Char) : pointOfMany? (' ' :: s) = pointOfMany? s := by
  rw [pointOfMany?, pointOfMany?, trim, trim, trimStart_cons_blank rfl]

theorem pointOfMany?_wkt (c : Coord) : pointOfMany? c.wkt = position? c.wkt := by
  obtain ⟨hopen, hclose⟩ := dropWhile_isBare (isBare_wkt c)
  simp only [pointOfMany?, trim_wkt, hopen, hclose]

theorem recovers_points (positions : List Coord) :
    Recovers (sameList Coord.same) (Filled Coord.IsFinite positions) positions
      (points? (Geometry.positionsWkt positions)) := by
  apply recovers_splitOn rfl fun _ => pointOfMany?_cons_space _
  intro c
  rw [pointOfMany?_wkt]
  exact recovers_position c

theorem toOption_orMalformed {α : Type} (result : Option α) :
    (orMalformed result).toOption = result := by
  cases result <;> rfl

theorem toOption_map {α β : Type} (f : α → β) (reading : Reading α) :
    (f <$> reading).toOption = reading.toOption.map f := by
  cases reading <;> rfl

theorem toOption_mapM {α β : Type} (f : α → Reading β) (as : List α) :
    (as.mapM f).toOption = as.mapM fun a => (f a).toOption := by
  induction as with
  | nil => rfl
  | cons a as ih =>
    rw [List.mapM_cons, List.mapM_cons, ← ih]
    cases f a with
    | error refusal => rfl
    | ok b => cases as.mapM f <;> rfl

theorem toOption_rings {s : List Char} {parts : List (List Char)} (h : groups s = .ok parts) :
    (rings s).toOption = (parts.mapM positions?).filter fun rings => !rings.isEmpty := by
  have hgroups : rings s = (orMalformed (parts.mapM positions?)).bind fun found =>
      if found.isEmpty then .error .malformed else .ok found := by
    rw [rings, h]
    show (orMalformed (parts.mapM positions?)).bind _ = _
    cases orMalformed (parts.mapM positions?) with
    | error refusal => rfl
    | ok found => cases found <;> rfl
  rw [hgroups]
  cases hread : parts.mapM positions? with
  | none => rfl
  | some found => cases found <;> rfl

theorem toOption_polygons {s : List Char} {parts : List (List Char)} (h : groups s = .ok parts) :
    (polygons s).toOption =
      (parts.mapM fun part => (rings part).toOption).filter fun polygons => !polygons.isEmpty := by
  have hgroups : polygons s = (parts.mapM rings).bind fun found =>
      if found.isEmpty then .error .malformed else .ok found := by
    rw [polygons, h]
    show (parts.mapM rings).bind _ = _
    cases parts.mapM rings with
    | error refusal => rfl
    | ok found => cases found <;> rfl
  rw [hgroups, ← toOption_mapM]
  cases parts.mapM rings with
  | error refusal => rfl
  | ok found => cases found <;> rfl

theorem balanced_positionsWkt (positions : List Coord) :
    Balanced (Geometry.positionsWkt positions) := by
  apply Balanced.commaSeparated
  intro part hpart
  obtain ⟨c, _, rfl⟩ := List.mem_map.mp hpart
  exact .of_isBare (isBare_wkt c)

theorem balanced_ringsWkt (rings : List (List Coord)) : Balanced (Geometry.ringsWkt rings) := by
  apply Balanced.commaSeparated
  intro part hpart
  obtain ⟨ring, _, rfl⟩ := List.mem_map.mp hpart
  exact (balanced_positionsWkt ring).parenthesized

theorem groups_map_parenthesized {α : Type} {write : α → List Char}
    (h : ∀ a, Balanced (write a)) (as : List α) :
    groups (commaSeparated (as.map fun a => parenthesized (write a))) = .ok (as.map write) := by
  have hparts : ∀ part ∈ as.map write, Balanced part := by
    intro part hpart
    obtain ⟨a, _, rfl⟩ := List.mem_map.mp hpart
    exact h a
  rw [← groups_commaSeparated hparts, List.map_map]
  rfl

/-- Rings read back exactly if there are some and each of them does. -/
theorem recovers_rings (rings : List (List Coord)) :
    Recovers (sameList (sameList Coord.same)) (Filled (Filled Coord.IsFinite) rings) rings
      (Wkt.rings (Geometry.ringsWkt rings)).toOption := by
  rw [Geometry.ringsWkt,
    toOption_rings (groups_map_parenthesized balanced_positionsWkt rings), List.mapM_map]
  exact (recovers_mapM _ fun ring _ => recovers_positions ring).filled

theorem recovers_polygons (polygons : List (List (List Coord))) :
    Recovers (sameList (sameList (sameList Coord.same)))
      (Filled (Filled (Filled Coord.IsFinite)) polygons) polygons
      (Wkt.polygons (commaSeparated (polygons.map fun polygon =>
        parenthesized (Geometry.ringsWkt polygon)))).toOption := by
  rw [toOption_polygons (groups_map_parenthesized balanced_ringsWkt polygons), List.mapM_map]
  exact (recovers_mapM _ fun polygon _ => recovers_rings polygon).filled

theorem keyword_framed {word gap : List Char} (hopen : '(' ∉ word) (hsolid : IsSolid word)
    (hne : word ≠ []) (hgap : IsGap gap) (rest : List Char) :
    Wkt.keyword (word ++ (gap ++ '(' :: rest)) = .ok word := by
  have hfront : '(' ∉ word ++ gap := by
    rw [List.mem_append, not_or]
    exact ⟨hopen, hgap.not_mem rfl⟩
  have hcut := cut_append [] (word ++ gap) ('(' :: rest)
  rw [byteSize_nil, Nat.zero_add, List.nil_append] at hcut
  rw [← List.append_assoc, Wkt.keyword, keywordSpan?, offsetOf?_append hfront]
  show (cut _ _ >>= _) = _
  rw [hcut]
  exact congrArg Except.ok ((trimEnd_append_gap hgap word).trans (trimEnd_of_isSolid hsolid hne))

theorem body_framed {front after : List Char} (hfront : '(' ∉ front) (hafter : ')' ∉ after)
    (inside : List Char) : Wkt.body (front ++ (parenthesized inside ++ after)) = .ok inside := by
  have hsplit : front ++ (parenthesized inside ++ after) =
      (front ++ '(' :: inside) ++ ')' :: after := by
    simp [parenthesized]
  have hfirst : offsetOf? '(' (front ++ (parenthesized inside ++ after)) =
      some (byteSize front) :=
    offsetOf?_append hfront _
  have hlast : lastOffsetOf? ')' (front ++ (parenthesized inside ++ after)) =
      some (byteSize (front ++ '(' :: inside)) := by
    rw [hsplit, lastOffsetOf?_append hafter]
  have hstart : byteSize (front ++ ['(']) = byteSize front + 1 := by
    rw [byteSize_append]
    rfl
  have hstop : byteSize (front ++ '(' :: inside) = byteSize (front ++ ['(']) + byteSize inside := by
    rw [← byteSize_append, List.append_assoc]
    rfl
  have hlt : ¬ byteSize (front ++ '(' :: inside) ≤ byteSize front := by omega
  have htext : front ++ (parenthesized inside ++ after) =
      (front ++ ['(']) ++ (inside ++ ')' :: after) := by
    simp [parenthesized]
  rw [Wkt.body, bodySpan?, hfirst, hlast]
  simp only [hlt, if_false]
  rw [← hstart, hstop, htext]
  exact cut_append _ _ _

/-- A keyword and a body in parentheses are found again, with gaps around the keyword and any text
after the body that does not close a parenthesis. -/
theorem read_framed {before word gap after : List Char} (hbefore : IsGap before)
    (hopen : '(' ∉ word) (hsolid : IsSolid word) (hne : word ≠ []) (hgap : IsGap gap)
    (hafter : ')' ∉ after) (inside : List Char) :
    Wkt.read (before ++ (word ++ (gap ++ (parenthesized inside ++ after)))) =
      geometry word inside := by
  obtain ⟨tail, -, htail⟩ := exists_trimEnd_append after
  have hclose : ')' ∉ trimEnd after := fun hmem => hafter (by
    rw [htail]
    exact List.mem_append_left _ hmem)
  have hfront : '(' ∉ word ++ gap := by
    rw [List.mem_append, not_or]
    exact ⟨hopen, hgap.not_mem rfl⟩
  have htrim : trim (before ++ (word ++ (gap ++ (parenthesized inside ++ after)))) =
      word ++ (gap ++ (parenthesized inside ++ trimEnd after)) := by
    have hcut := trimEnd_append_cons (c := ')') rfl (word ++ (gap ++ '(' :: inside)) after
    rw [trim, trimStart_gap_append hbefore, trimStart_append hsolid hne]
    simpa [parenthesized] using hcut
  have hbody := body_framed hfront hclose inside
  rw [List.append_assoc] at hbody
  rw [Wkt.read, htrim]
  show (Wkt.keyword _ >>= _) = _
  rw [parenthesized_append, keyword_framed hopen hsolid hne hgap, ← parenthesized_append]
  show (Wkt.body _ >>= _) = _
  rw [hbody]
  rfl

end Wkt

namespace Geometry

/-- The geometries that can be read back. -/
def IsReadable : Geometry → Prop
  | point position => position.IsFinite
  | lineString positions | multiPoint positions => Filled Coord.IsFinite positions
  | polygon rings | multiLineString rings => Filled (Filled Coord.IsFinite) rings
  | multiPolygon polygons => Filled (Filled (Filled Coord.IsFinite)) polygons
  | collection _ => False

theorem isSolid_keyword (g : Geometry) : IsSolid g.keyword ∧ g.keyword ≠ [] := by
  have hsolid : ∀ s : List Char, s.all (fun c => !isBlank c) = true → IsSolid s := by
    intro s hs c hc
    simpa using List.all_eq_true.mp hs c hc
  cases g <;> exact ⟨hsolid _ rfl, List.cons_ne_nil _ _⟩

theorem open_not_mem_keyword (g : Geometry) : '(' ∉ g.keyword :=
  fun h => absurd (g.ne_open_of_mem_keyword _ h) (by decide)

theorem ofWkt?_wkt (g : Geometry) :
    ofWkt? g.wkt = (Wkt.geometry g.keyword g.wktBody).toOption := by
  obtain ⟨hsolid, hne⟩ := g.isSolid_keyword
  have hread : Wkt.read ([] ++ (g.keyword ++ ([] ++ (parenthesized g.wktBody ++ [])))) =
      Wkt.geometry g.keyword g.wktBody :=
    Wkt.read_framed isGap_nil g.open_not_mem_keyword hsolid hne isGap_nil List.not_mem_nil _
  rw [List.append_nil] at hread
  exact congrArg Except.toOption hread

theorem recovers_wkt (g : Geometry) : Recovers same g.IsReadable g (ofWkt? g.wkt) := by
  rw [ofWkt?_wkt]
  cases g with
  | point position =>
    show Recovers _ _ _ (Except.toOption (point <$> Wkt.orMalformed (Wkt.position? position.wkt)))
    rw [Wkt.toOption_map, Wkt.toOption_orMalformed]
    exact (Wkt.recovers_position position).map fun b => by rw [same]
  | lineString positions =>
    show Recovers _ _ _
      (Except.toOption (lineString <$> Wkt.orMalformed (Wkt.positions? (positionsWkt positions))))
    rw [Wkt.toOption_map, Wkt.toOption_orMalformed]
    exact (Wkt.recovers_positions positions).map fun b => by rw [same]
  | polygon rings =>
    show Recovers _ _ _ (Except.toOption (polygon <$> Wkt.rings (ringsWkt rings)))
    rw [Wkt.toOption_map]
    exact (Wkt.recovers_rings rings).map fun b => by rw [same]
  | multiPoint positions =>
    show Recovers _ _ _
      (Except.toOption (multiPoint <$> Wkt.orMalformed (Wkt.points? (positionsWkt positions))))
    rw [Wkt.toOption_map, Wkt.toOption_orMalformed]
    exact (Wkt.recovers_points positions).map fun b => by rw [same]
  | multiLineString lines =>
    show Recovers _ _ _ (Except.toOption (multiLineString <$> Wkt.rings (ringsWkt lines)))
    rw [Wkt.toOption_map]
    exact (Wkt.recovers_rings lines).map fun b => by rw [same]
  | multiPolygon polygons =>
    show Recovers _ _ _ (Except.toOption (multiPolygon <$> Wkt.polygons (commaSeparated
      (polygons.map fun polygon => parenthesized (ringsWkt polygon)))))
    rw [Wkt.toOption_map]
    exact (Wkt.recovers_polygons polygons).map fun b => by rw [same]
  | collection parts => exact not_false

/-- A geometry that is no collection, with no empty list and with finite coordinates, reads back
from its text as an equal one, and the text of any other geometry is refused. -/
theorem ofWkt?_wkt_same_or_none (g : Geometry) :
    (g.IsReadable → ∃ h, ofWkt? g.wkt = some h ∧ h.same g = true) ∧
      (¬ g.IsReadable → ofWkt? g.wkt = none) := by
  have hrecovers := g.recovers_wkt
  cases hread : ofWkt? g.wkt with
  | none =>
    rw [hread] at hrecovers
    exact ⟨fun hreadable => absurd hreadable hrecovers, fun _ => rfl⟩
  | some h =>
    rw [hread] at hrecovers
    exact ⟨fun _ => ⟨h, rfl, hrecovers.2⟩, fun hnot => absurd hrecovers.1 hnot⟩

/-- Two polygons, the first with a hole that has a corner at minus zero. -/
def islands : Geometry :=
  let corner (x y : ℤ) : Coord := ⟨.ofInt x, .ofInt y⟩
  .multiPolygon [[[corner 0 0, corner 9 0, corner 9 9], [corner 2 2, ⟨-.zero, .ofInt (-1)⟩]],
    [[corner 5 5, corner 6 5]]]

theorem ofWkt?_wkt_islands :
    (islands.IsReadable ∧ ∃ h, ofWkt? islands.wkt = some h ∧ h.same islands = true) ∧
      ¬ (polygon [[]]).IsReadable ∧ ofWkt? (polygon [[]]).wkt = none := by
  have hfinite : ∀ c ∈ [(0 : ℤ), 2, 5, 6, 9, -1], (Binary64.ofInt c).isFinite = true := by
    decide +kernel
  have hminus : (-Binary64.zero).isFinite = true := rfl
  have hreadable : islands.IsReadable := by
    simp [islands, IsReadable, Filled, Coord.IsFinite, hfinite, hminus]
  have hempty : ¬ (polygon [[]]).IsReadable := by
    simp [IsReadable, Filled]
  exact ⟨⟨hreadable, (ofWkt?_wkt_same_or_none islands).1 hreadable⟩, hempty,
    (ofWkt?_wkt_same_or_none (polygon [[]])).2 hempty⟩

end Geometry
end FilterForest
