import FilterForest.Geometry.Circle
import FilterForest.Proofs.Geometry.RoundTrip

/-!
# Geometries of a text

Whatever the text, a geometry that is read from it has no empty list, is no collection and has
finite coordinates: it is one that reads back, so that writing and reading it again changes nothing.
Its kind is named before the first parenthesis. The three numbers of a circle are finite too.
-/
namespace FilterForest

open Text

namespace Wkt

theorem filled_of_mapM {α β : Type} {p : α → Prop} {read : β → Option α} {bs : List β}
    {as : List α} (h : bs.mapM read = some as) (hne : as ≠ [])
    (hread : ∀ b a, read b = some a → p a) : Filled p as := by
  refine ⟨hne, fun a ha => ?_⟩
  obtain ⟨b, _, hb⟩ := exists_of_mem_mapM h ha
  exact hread b a hb

theorem isFinite_of_position? {s : List Char} {c : Coord} (h : position? s = some c) :
    c.IsFinite := by
  unfold position? at h
  split at h
  · split at h
    · next hx hy =>
      obtain rfl := Option.some.inj h
      exact ⟨Binary64.isFinite_of_ofFiniteText? hx, Binary64.isFinite_of_ofFiniteText? hy⟩
    · contradiction
  · contradiction

theorem filled_of_splitOn {read : List Char → Option Coord} {s : List Char} {positions : List Coord}
    (hread : ∀ part c, read part = some c → c.IsFinite)
    (h : (s.splitOn ',').mapM read = some positions) : Filled Coord.IsFinite positions := by
  refine filled_of_mapM h ?_ hread
  rintro rfl
  cases hparts : s.splitOn ',' with
  | nil => exact List.splitOn_ne_nil _ _ hparts
  | cons part parts =>
    rw [hparts, List.mapM_cons] at h
    obtain ⟨_, _, h⟩ := Option.bind_eq_some_iff.mp h
    obtain ⟨_, _, h⟩ := Option.bind_eq_some_iff.mp h
    exact nomatch Option.some.inj h

theorem filled_of_positions? {s : List Char} {positions : List Coord}
    (h : positions? s = some positions) : Filled Coord.IsFinite positions :=
  filled_of_splitOn (fun _ _ => isFinite_of_position?) h

theorem filled_of_points? {s : List Char} {positions : List Coord}
    (h : points? s = some positions) : Filled Coord.IsFinite positions :=
  filled_of_splitOn (fun _ _ => isFinite_of_position?) h

theorem filled_of_rings {s : List Char} {rings : List (List Coord)}
    (h : (Wkt.rings s).toOption = some rings) : Filled (Filled Coord.IsFinite) rings := by
  cases hgroups : groups s with
  | error refusal =>
    rw [Wkt.rings, hgroups] at h
    contradiction
  | ok parts =>
    rw [toOption_rings hgroups] at h
    obtain ⟨hread, hne⟩ := Option.filter_eq_some_iff.mp h
    exact filled_of_mapM hread (by simpa using hne) fun _ _ => filled_of_positions?

theorem filled_of_polygons {s : List Char} {polygons : List (List (List Coord))}
    (h : (Wkt.polygons s).toOption = some polygons) :
    Filled (Filled (Filled Coord.IsFinite)) polygons := by
  cases hgroups : groups s with
  | error refusal =>
    rw [Wkt.polygons, hgroups] at h
    contradiction
  | ok parts =>
    rw [toOption_polygons hgroups] at h
    obtain ⟨hread, hne⟩ := Option.filter_eq_some_iff.mp h
    exact filled_of_mapM hread (by simpa using hne) fun _ _ => filled_of_rings

/-- What a keyword and a body denote is of the kind that the keyword names, and it reads back. -/
theorem eq_keyword_and_isReadable_of_geometry {word body : List Char} {g : Geometry}
    (h : (geometry word body).toOption = some g) : word = g.keyword ∧ g.IsReadable := by
  unfold geometry at h
  split at h
  · next hword =>
    rw [toOption_map, toOption_orMalformed] at h
    obtain ⟨position, hread, rfl⟩ := Option.map_eq_some_iff.mp h
    exact ⟨hword, isFinite_of_position? hread⟩
  split at h
  · next hword =>
    rw [toOption_map, toOption_orMalformed] at h
    obtain ⟨positions, hread, rfl⟩ := Option.map_eq_some_iff.mp h
    exact ⟨hword, filled_of_positions? hread⟩
  split at h
  · next hword =>
    rw [toOption_map] at h
    obtain ⟨rings, hread, rfl⟩ := Option.map_eq_some_iff.mp h
    exact ⟨hword, filled_of_rings hread⟩
  split at h
  · next hword =>
    rw [toOption_map, toOption_orMalformed] at h
    obtain ⟨positions, hread, rfl⟩ := Option.map_eq_some_iff.mp h
    exact ⟨hword, filled_of_points? hread⟩
  split at h
  · next hword =>
    rw [toOption_map] at h
    obtain ⟨rings, hread, rfl⟩ := Option.map_eq_some_iff.mp h
    exact ⟨hword, filled_of_rings hread⟩
  split at h
  · next hword =>
    rw [toOption_map] at h
    obtain ⟨polygons, hread, rfl⟩ := Option.map_eq_some_iff.mp h
    exact ⟨hword, filled_of_polygons hread⟩
  · contradiction

theorem exists_append_of_keyword {s word : List Char} (h : keyword s = .ok word) :
    ∃ gap after, IsGap gap ∧ s = word ++ gap ++ '(' :: after := by
  rw [keyword, keywordSpan?] at h
  cases hstop : offsetOf? '(' s with
  | none =>
    rw [hstop] at h
    contradiction
  | some stop =>
    obtain ⟨before, after, rfl, -, rfl⟩ := exists_append_of_offsetOf? hstop
    have hcut := cut_append [] before ('(' :: after)
    rw [byteSize_nil, Nat.zero_add, List.nil_append] at hcut
    rw [hstop] at h
    change (cut _ _ >>= _) = _ at h
    rw [hcut] at h
    obtain ⟨gap, hgap, heq⟩ := exists_trimEnd_append before
    obtain rfl := Except.ok.inj h
    exact ⟨gap, after, hgap, by rw [← heq]⟩

theorem exists_append_of_body {s inside : List Char} (h : body s = .ok inside) :
    ∃ before after, '(' ∉ before ∧ ')' ∉ after ∧ s = before ++ (parenthesized inside ++ after) := by
  have hspan : bodySpan? s ≠ none := by
    intro hnone
    rw [body, hnone] at h
    contradiction
  rw [bodySpan?] at hspan
  cases hfirst : offsetOf? '(' s with
  | none => simp [hfirst] at hspan
  | some start =>
    cases hlast : lastOffsetOf? ')' s with
    | none => simp [hfirst, hlast] at hspan
    | some stop =>
      have hlt : start < stop := by simpa [hfirst, hlast] using hspan
      obtain ⟨before, rest, hs, hbefore, rfl⟩ := exists_append_of_offsetOf? hfirst
      obtain ⟨front, after, rfl, hafter, rfl⟩ := exists_append_of_lastOffsetOf? hlast
      -- The last parenthesis stands behind the first, so the text in front of it reaches past that.
      rcases List.append_eq_append_iff.mp hs with ⟨t, rfl, -⟩ | ⟨t, rfl, ht⟩
      · rw [byteSize_append] at hlt
        omega
      · cases t with
        | nil => simp at ht
        | cons c t =>
          obtain ⟨rfl, rfl⟩ := List.cons.inj ht
          have htext : (before ++ '(' :: t) ++ ')' :: after =
              before ++ (parenthesized t ++ after) := by
            simp [parenthesized]
          rw [htext, body_framed hbefore hafter] at h
          obtain rfl := Except.ok.inj h
          exact ⟨before, after, hbefore, hafter, htext⟩

/-- What is read stands in the text as a keyword and a body in parentheses. -/
theorem exists_append_of_read {s word inside : List Char} (hkeyword : keyword (trim s) = .ok word)
    (hbody : body (trim s) = .ok inside) (hword : '(' ∉ word) :
    ∃ before gap after, IsGap before ∧ IsGap gap ∧ ')' ∉ after ∧
      s = before ++ (word ++ (gap ++ (parenthesized inside ++ after))) := by
  obtain ⟨before, tail, hbefore, htail, hs⟩ := exists_append_trim s
  obtain ⟨gap, rest, hgap, hfirst⟩ := exists_append_of_keyword hkeyword
  obtain ⟨front, after, hfront, hafter, hlast⟩ := exists_append_of_body hbody
  -- Both decompositions divide the text at its first parenthesis.
  have hfront' : '(' ∉ word ++ gap := by
    rw [List.mem_append, not_or]
    exact ⟨hword, hgap.not_mem rfl⟩
  have heq : word ++ gap ++ '(' :: rest = front ++ '(' :: (inside ++ ')' :: after) := by
    rw [← hfirst, hlast, parenthesized_append]
  obtain ⟨rfl, -⟩ := append_cons_inj hfront' hfront heq
  refine ⟨before, gap, after ++ tail, hbefore, hgap, ?_, ?_⟩
  · rw [List.mem_append, not_or]
    exact ⟨hafter, htail.not_mem rfl⟩
  · rw [hlast] at hs
    simpa using hs

theorem exists_of_toOption_bind {α β : Type} {reading : Reading α} {next : α → Reading β} {b : β}
    (h : (reading >>= next).toOption = some b) :
    ∃ a, reading = .ok a ∧ (next a).toOption = some b := by
  cases reading with
  | error refusal => contradiction
  | ok a => exact ⟨a, rfl, h⟩

end Wkt

/-- A geometry that is read from a text is one that reads back. -/
theorem Geometry.isReadable_of_ofWkt? {s : List Char} {g : Geometry} (h : ofWkt? s = some g) :
    g.IsReadable := by
  obtain ⟨word, -, h⟩ := Wkt.exists_of_toOption_bind h
  obtain ⟨body, -, h⟩ := Wkt.exists_of_toOption_bind h
  exact (Wkt.eq_keyword_and_isReadable_of_geometry h).2

theorem Geometry.IsReadable.isFinite {g : Geometry} (h : g.IsReadable) : g.IsFinite := by
  cases g with
  | point position => exact .point h
  | lineString positions => exact .lineString h.2
  | polygon rings => exact .polygon fun ring hring => (h.2 ring hring).2
  | multiPoint positions => exact .multiPoint h.2
  | multiLineString lines => exact .multiLineString fun line hline => (h.2 line hline).2
  | multiPolygon polygons =>
    exact .multiPolygon fun rings hrings ring hring => ((h.2 rings hrings).2 ring hring).2
  | collection parts => contradiction

/-- The keyword of a geometry that is read stands alone before the first parenthesis that opens. -/
theorem Geometry.trim_before_eq_keyword_of_ofWkt? {s : List Char} {g : Geometry}
    (h : ofWkt? s = some g) :
    ∃ before after, s = before ++ '(' :: after ∧ '(' ∉ before ∧ trim before = g.keyword := by
  obtain ⟨word, hword, h⟩ := Wkt.exists_of_toOption_bind h
  obtain ⟨inside, hinside, h⟩ := Wkt.exists_of_toOption_bind h
  obtain ⟨rfl, -⟩ := Wkt.eq_keyword_and_isReadable_of_geometry h
  obtain ⟨before, gap, after, hbefore, hgap, -, hs⟩ :=
    Wkt.exists_append_of_read hword hinside g.open_not_mem_keyword
  obtain ⟨hsolid, hne⟩ := g.isSolid_keyword
  refine ⟨before ++ (g.keyword ++ gap), inside ++ ')' :: after, ?_, ?_,
    trim_between_gaps hbefore hsolid hne hgap⟩
  · simp [hs, parenthesized]
  · simp only [List.mem_append, not_or]
    exact ⟨hbefore.not_mem rfl, g.open_not_mem_keyword, hgap.not_mem rfl⟩

/-- Whatever is read from a text is no collection, has no empty list and only finite coordinates, is
of the kind that the word before the first parenthesis names, and is read again from its own text.
Geometries are equal here if their coordinates are, and the two zeros are equal numbers. -/
theorem Geometry.isReadable_and_stable_of_ofWkt? {s : List Char} {g : Geometry}
    (h : ofWkt? s = some g) :
    g.IsReadable ∧
      (∃ before after, s = before ++ '(' :: after ∧ '(' ∉ before ∧ trim before = g.keyword) ∧
        ∃ again, ofWkt? g.wkt = some again ∧ again.same g = true := by
  have hreadable := isReadable_of_ofWkt? h
  exact ⟨hreadable, trim_before_eq_keyword_of_ofWkt? h, g.recovers_wkt.exists_same hreadable⟩

/-- A polygon with blanks around it and with text around its rings, which is passed over. -/
def Geometry.strayPolygon : List Char := " POLYGON ( x(0 -0, 9 1)y(2 3) ) ".toList

theorem Geometry.isReadable_and_stable_strayPolygon :
    ∃ g, ofWkt? strayPolygon = some g ∧ g.wkt = "POLYGON((0 0, 9 1), (2 3))".toList ∧
      g.IsReadable ∧
      (∃ before after, strayPolygon = before ++ '(' :: after ∧ '(' ∉ before ∧
        trim before = g.keyword) ∧
      ∃ again, ofWkt? g.wkt = some again ∧ again.same g = true := by
  have htext : (ofWkt? strayPolygon).map wkt = some "POLYGON((0 0, 9 1), (2 3))".toList := by
    decide +kernel
  obtain ⟨g, hg, hwkt⟩ := Option.map_eq_some_iff.mp htext
  exact ⟨g, hg, hwkt, isReadable_and_stable_of_ofWkt? hg⟩

theorem Circle.isFinite_of_ofText? {s : List Char} {c : Circle} (h : ofText? s = some c) :
    c.center.IsFinite ∧ c.radius.isFinite = true := by
  obtain ⟨word, -, h⟩ := Wkt.exists_of_toOption_bind h
  split at h
  · obtain ⟨body, -, h⟩ := Wkt.exists_of_toOption_bind h
    rw [Wkt.toOption_orMalformed] at h
    unfold ofBody? at h
    split at h
    · split at h
      · next hx hy hradius =>
        obtain rfl := Option.some.inj h
        exact ⟨⟨Binary64.isFinite_of_ofFiniteText? hx, Binary64.isFinite_of_ofFiniteText? hy⟩,
          Binary64.isFinite_of_ofFiniteText? hradius⟩
      · contradiction
    · contradiction
  · contradiction

end FilterForest
