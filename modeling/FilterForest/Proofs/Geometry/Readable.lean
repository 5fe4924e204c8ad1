import FilterForest.Geometry.Wkt
import FilterForest.Proofs.Geometry.Same

/-!
# Equal geometries in well-known text

A number ends where something other than a digit, a minus or a point follows, a list ends with its
parenthesis, and a keyword ends where a parenthesis opens. So a geometry with finite coordinates is
read from the start of a text in one way only, up to the signs of zeros.
-/
namespace FilterForest

open Text

def isNumeric (c : Char) : Bool := c.isDigit || c = '-' || c = '.'

/-- Texts that no finite number runs into. -/
def EndsNumber (rest : List Char) : Prop := ∀ c ∈ rest.head?, isNumeric c = false

theorem isNumeric_of_isDigit {c : Char} (h : c.isDigit = true) : isNumeric c = true := by
  simp [isNumeric, h]

theorem Decimal.isNumeric_of_mem_plain {d : Decimal} {c : Char} (h : c ∈ d.plain) :
    isNumeric c = true := by
  unfold plain at h
  split at h
  · exact isNumeric_of_isDigit (d.isDigit_of_mem_wholeDigits h)
  · rcases List.mem_append.mp h with hwhole | hpoint
    · exact isNumeric_of_isDigit (d.isDigit_of_mem_wholeDigits hwhole)
    · rcases List.mem_cons.mp hpoint with rfl | hplace
      · rfl
      · exact isNumeric_of_isDigit (d.isDigit_of_mem_placeDigits hplace)

theorem Decimal.isNumeric_of_mem_integer {n : ℤ} {c : Char} (h : c ∈ integer n) :
    isNumeric c = true := by
  rcases mem_integer h with rfl | hdigit
  · rfl
  · exact isNumeric_of_isDigit hdigit

theorem Decimal.plain_ne_nil (d : Decimal) : d.plain ≠ [] := by
  unfold plain
  split
  · exact d.wholeDigits_ne_nil
  · exact List.append_ne_nil_of_left_ne_nil d.wholeDigits_ne_nil _

theorem Decimal.integer_ne_nil (n : ℤ) : integer n ≠ [] := by
  unfold integer
  split
  · exact List.cons_ne_nil _ _
  · exact digits_ne_nil _

namespace Binary64

variable {x y : Binary64}

theorem isNumeric_of_mem_plain (h : x.isFinite = true) {c : Char} (hc : c ∈ x.plain) :
    isNumeric c = true := by
  cases x with
  | infinite negative => contradiction
  | nan => contradiction
  | finite negative m =>
    unfold plain at hc
    split at hc
    · exact Decimal.isNumeric_of_mem_integer hc
    · rcases List.mem_append.mp hc with hsign | hsize
      · cases negative with
        | true =>
          obtain rfl := List.mem_singleton.mp hsign
          rfl
        | false => exact absurd hsign List.not_mem_nil
      · exact Decimal.isNumeric_of_mem_plain hsize

theorem plain_ne_nil (h : x.isFinite = true) : x.plain ≠ [] := by
  cases x with
  | infinite negative => contradiction
  | nan => contradiction
  | finite negative m =>
    unfold plain
    split
    · exact Decimal.integer_ne_nil _
    · exact List.append_ne_nil_of_right_ne_nil _ (Decimal.plain_ne_nil _)

theorem head_plain (h : x.isFinite = true) (rest : List Char) :
    ∃ c tail, x.plain ++ rest = c :: tail ∧ isNumeric c = true := by
  obtain ⟨c, tail, heq⟩ := List.exists_cons_of_ne_nil (plain_ne_nil h)
  exact ⟨c, tail ++ rest, by rw [heq, List.cons_append],
    isNumeric_of_mem_plain h (heq ▸ List.mem_cons_self)⟩

theorem unambiguous_plain (hx : x.isFinite = true) (hy : y.isFinite = true) :
    Unambiguous plain (same · · = true) EndsNumber x y := by
  intro r s hr hs heq
  obtain ⟨hplain, hrest⟩ := run_inj (fun _ => isNumeric_of_mem_plain hx)
    (fun _ => isNumeric_of_mem_plain hy) hr hs heq
  exact ⟨same_of_plain_eq hx hy hplain, hrest⟩

end Binary64

theorem endsNumber_cons {c : Char} (h : isNumeric c = false) (rest : List Char) :
    EndsNumber (c :: rest) := by
  intro head hhead
  obtain rfl := Option.some.inj hhead
  exact h

theorem delimits_position : Delimits EndsNumber ", ".toList ')' where
  separated := fun _ => endsNumber_cons rfl _
  closed := fun _ => endsNumber_cons rfl _
  distinct := fun _ _ heq => nomatch (List.cons.inj heq).1

theorem delimits_part : Delimits (fun _ => True) ", ".toList ')' where
  separated := fun _ => trivial
  closed := fun _ => trivial
  distinct := fun _ _ heq => nomatch (List.cons.inj heq).1

theorem parenthesized_append (body rest : List Char) :
    parenthesized body ++ rest = '(' :: (body ++ ')' :: rest) := by
  simp [parenthesized]

theorem unambiguous_parenthesized {α : Type} {write : α → List Char} {same : α → α → Bool}
    {stop : List Char → Prop} {as bs : List α} (hdelimits : Delimits stop ", ".toList ')')
    (hstart : ∀ a ∈ as, ∀ t t', write a ++ t ≠ ')' :: t')
    (hstart' : ∀ b ∈ bs, ∀ t t', write b ++ t ≠ ')' :: t')
    (h : ∀ a ∈ as, ∀ b ∈ bs, Unambiguous write (same · · = true) stop a b) :
    Unambiguous (fun cs => parenthesized (commaSeparated (cs.map write)))
      (sameList same · · = true) (fun _ => True) as bs := by
  intro r s _ _ heq
  simp only [parenthesized_append] at heq
  obtain ⟨hsame, hrest⟩ :=
    forall₂_of_intercalate hdelimits hstart hstart' h (List.cons.inj heq).2
  exact ⟨sameList_iff_forall₂.mpr hsame, hrest⟩

theorem parenthesized_append_ne (body r s : List Char) : parenthesized body ++ r ≠ ')' :: s :=
  fun heq => nomatch (List.cons.inj heq).1

namespace Coord

variable {a b : Coord}

theorem wkt_append (a : Coord) (rest : List Char) :
    a.wkt ++ rest = a.x.plain ++ ' ' :: (a.y.plain ++ rest) := by
  simp [wkt]

theorem wkt_append_ne (h : a.IsFinite) (r s : List Char) : a.wkt ++ r ≠ ')' :: s := by
  intro heq
  obtain ⟨c, tail, hhead, hc⟩ := Binary64.head_plain h.1 (' ' :: (a.y.plain ++ r))
  rw [wkt_append, hhead] at heq
  obtain rfl := (List.cons.inj heq).1
  contradiction

theorem unambiguous_wkt (ha : a.IsFinite) (hb : b.IsFinite) :
    Unambiguous wkt (same · · = true) EndsNumber a b := by
  intro r s hr hs heq
  rw [wkt_append, wkt_append] at heq
  obtain ⟨hx, hafter⟩ := Binary64.unambiguous_plain ha.1 hb.1 _ _ (endsNumber_cons rfl _)
    (endsNumber_cons rfl _) heq
  obtain ⟨hy, hrest⟩ := Binary64.unambiguous_plain ha.2 hb.2 _ _ hr hs (List.cons.inj hafter).2
  exact ⟨Bool.and_eq_true_iff.mpr ⟨hx, hy⟩, hrest⟩

theorem wkt_eq_of_same (h : a.same b = true) : a.wkt = b.wkt := by
  obtain ⟨hx, hy⟩ := Bool.and_eq_true_iff.mp h
  rw [wkt, wkt, Binary64.plain_eq_of_same hx, Binary64.plain_eq_of_same hy]

end Coord

theorem map_eq_of_sameList {α β : Type} {f : α → β} {same : α → α → Bool}
    {as bs : List α} (h : ∀ a ∈ as, ∀ b ∈ bs, same a b = true → f a = f b)
    (hsame : sameList same as bs = true) : as.map f = bs.map f := by
  induction as generalizing bs with
  | nil =>
    cases bs with
    | nil => rfl
    | cons b bs => contradiction
  | cons a as ih =>
    cases bs with
    | nil => contradiction
    | cons b bs =>
      obtain ⟨hfirst, hothers⟩ := Bool.and_eq_true_iff.mp hsame
      rw [List.map_cons, List.map_cons, h a List.mem_cons_self b List.mem_cons_self hfirst,
        ih (fun a ha b hb => h a (List.mem_cons_of_mem _ ha) b (List.mem_cons_of_mem _ hb)) hothers]

namespace Geometry

theorem unambiguous_positions {as bs : List Coord} (ha : ∀ c ∈ as, c.IsFinite)
    (hb : ∀ c ∈ bs, c.IsFinite) : Unambiguous (fun cs => parenthesized (positionsWkt cs))
      (sameList Coord.same · · = true) (fun _ => True) as bs :=
  unambiguous_parenthesized delimits_position (fun a hmem => Coord.wkt_append_ne (ha a hmem))
    (fun b hmem => Coord.wkt_append_ne (hb b hmem))
    fun a hmem b hmem' => Coord.unambiguous_wkt (ha a hmem) (hb b hmem')

theorem unambiguous_rings {as bs : List (List Coord)} (ha : ∀ ring ∈ as, ∀ c ∈ ring, c.IsFinite)
    (hb : ∀ ring ∈ bs, ∀ c ∈ ring, c.IsFinite) :
    Unambiguous (fun rings => parenthesized (ringsWkt rings))
      (sameList (sameList Coord.same) · · = true) (fun _ => True) as bs :=
  unambiguous_parenthesized delimits_part (fun _ _ => parenthesized_append_ne _)
    (fun _ _ => parenthesized_append_ne _)
    fun a hmem b hmem' => unambiguous_positions (ha a hmem) (hb b hmem')

theorem positionsWkt_eq_of_same {as bs : List Coord} (h : sameList Coord.same as bs = true) :
    positionsWkt as = positionsWkt bs :=
  congrArg commaSeparated (map_eq_of_sameList (fun _ _ _ _ => Coord.wkt_eq_of_same) h)

theorem ringsWkt_eq_of_same {as bs : List (List Coord)}
    (h : sameList (sameList Coord.same) as bs = true) : ringsWkt as = ringsWkt bs :=
  congrArg commaSeparated (map_eq_of_sameList
    (fun _ _ _ _ hsame => congrArg parenthesized (positionsWkt_eq_of_same hsame)) h)

theorem wktBody_collection (parts : List Geometry) :
    wktBody (collection parts) = commaSeparated (parts.map wkt) := by
  rw [wktBody, partsWkt_eq_map]

theorem ne_open_of_mem_keyword (g : Geometry) : ∀ c ∈ g.keyword, (c != '(') = true := by
  have hall : g.keyword.all (· != '(') = true := by
    cases g <;> rfl
  exact List.all_eq_true.mp hall

def kind : Geometry → Fin 7
  | point _ => 0
  | lineString _ => 1
  | polygon _ => 2
  | multiPoint _ => 3
  | multiLineString _ => 4
  | multiPolygon _ => 5
  | collection _ => 6

/-- The keywords in the order of the numbers of their kinds. -/
def keywords : Fin 7 → List Char :=
  ![ "POINT".toList, "LINESTRING".toList, "POLYGON".toList, "MULTIPOINT".toList,
    "MULTILINESTRING".toList, "MULTIPOLYGON".toList, "GEOMETRYCOLLECTION".toList]

theorem keywords_inj : ∀ i j, keywords i = keywords j → i = j := by decide

theorem keyword_eq (g : Geometry) : g.keyword = keywords g.kind := by
  cases g <;> rfl

theorem kind_eq_of_keyword {g h : Geometry} (heq : g.keyword = h.keyword) : g.kind = h.kind := by
  rw [keyword_eq, keyword_eq] at heq
  exact keywords_inj _ _ heq

/-- A keyword ends where a parenthesis opens. -/
theorem keyword_inj {s t : List Char} (hs : ∀ c ∈ s, (c != '(') = true)
    (ht : ∀ c ∈ t, (c != '(') = true) {body body' r r' : List Char}
    (heq : s ++ parenthesized body ++ r = t ++ parenthesized body' ++ r') :
    s = t ∧ parenthesized body ++ r = parenthesized body' ++ r' := by
  rw [List.append_assoc, List.append_assoc] at heq
  have hopen : ∀ body rest : List Char, ∀ c ∈ (parenthesized body ++ rest).head?,
      (c != '(') = false := by
    intro body rest c hc
    obtain rfl := Option.some.inj hc
    rfl
  exact run_inj hs ht (hopen _ _) (hopen _ _) heq

theorem wkt_append_ne (g : Geometry) (r s : List Char) : g.wkt ++ r ≠ ')' :: s := by
  intro heq
  cases g <;> exact nomatch (List.cons.inj heq).1

theorem unambiguous_position {a b : Coord} (ha : a.IsFinite) (hb : b.IsFinite) :
    Unambiguous (fun c => parenthesized c.wkt) (Coord.same · · = true) (fun _ => True) a b := by
  intro r s _ _ heq
  simp only [parenthesized_append] at heq
  obtain ⟨hsame, hrest⟩ := Coord.unambiguous_wkt ha hb _ _ (delimits_position.closed r)
    (delimits_position.closed s) (List.cons.inj heq).2
  exact ⟨hsame, (List.cons.inj hrest).2⟩

/-- Geometries are told apart by their keywords, or else by what is in the parentheses. -/
theorem unambiguous_of_body {g h : Geometry}
    (hbody : g.kind = h.kind → Unambiguous (fun g => parenthesized g.wktBody)
      (same · · = true) (fun _ => True) g h) :
    Unambiguous wkt (same · · = true) (fun _ => True) g h := by
  intro r s hr hs heq
  obtain ⟨hkeyword, hrest⟩ := keyword_inj g.ne_open_of_mem_keyword h.ne_open_of_mem_keyword heq
  exact hbody (kind_eq_of_keyword hkeyword) r s hr hs hrest

/-- A geometry with finite coordinates is read from the start of a text in one way only. -/
theorem unambiguous_wkt {g h : Geometry} (hg : g.IsFinite) (hh : h.IsFinite) :
    Unambiguous wkt (same · · = true) (fun _ => True) g h := by
  induction hg generalizing h with
  | point hfinite =>
    apply unambiguous_of_body
    intro hkind
    cases hh with
    | point hfinite' =>
      simp only [Unambiguous, wktBody, same]
      exact unambiguous_position hfinite hfinite'
    | _ => simp [kind] at hkind
  | lineString hfinite =>
    apply unambiguous_of_body
    intro hkind
    cases hh with
    | lineString hfinite' =>
      simp only [Unambiguous, wktBody, same]
      exact unambiguous_positions hfinite hfinite'
    | _ => simp [kind] at hkind
  | polygon hfinite =>
    apply unambiguous_of_body
    intro hkind
    cases hh with
    | polygon hfinite' =>
      simp only [Unambiguous, wktBody, same]
      exact unambiguous_rings hfinite hfinite'
    | _ => simp [kind] at hkind
  | multiPoint hfinite =>
    apply unambiguous_of_body
    intro hkind
    cases hh with
    | multiPoint hfinite' =>
      simp only [Unambiguous, wktBody, same]
      exact unambiguous_positions hfinite hfinite'
    | _ => simp [kind] at hkind
  | multiLineString hfinite =>
    apply unambiguous_of_body
    intro hkind
    cases hh with
    | multiLineString hfinite' =>
      simp only [Unambiguous, wktBody, same]
      exact unambiguous_rings hfinite hfinite'
    | _ => simp [kind] at hkind
  | multiPolygon hfinite =>
    apply unambiguous_of_body
    intro hkind
    cases hh with
    | multiPolygon hfinite' =>
      simp only [Unambiguous, wktBody, same]
      exact unambiguous_parenthesized delimits_part (fun _ _ => parenthesized_append_ne _)
        (fun _ _ => parenthesized_append_ne _)
        fun a hmem b hmem' => unambiguous_rings (hfinite a hmem) (hfinite' b hmem')
    | _ => simp [kind] at hkind
  | collection hparts ih =>
    apply unambiguous_of_body
    intro hkind
    cases hh with
    | collection hparts' =>
      simp only [Unambiguous, wktBody_collection, same, sameParts_eq_sameList]
      exact unambiguous_parenthesized delimits_part (fun a _ => wkt_append_ne a)
        (fun b _ => wkt_append_ne b) fun a hmem b hmem' => ih a hmem (hparts' b hmem')
    | _ => simp [kind] at hkind

theorem wkt_eq_of_body {g h : Geometry} (hkind : g.kind = h.kind)
    (hbody : g.wktBody = h.wktBody) : g.wkt = h.wkt := by
  rw [wkt, wkt, keyword_eq, keyword_eq, hkind, hbody]

/-- Equal geometries have the same text. -/
theorem wkt_eq_of_same {g h : Geometry} (hg : g.IsFinite) (hsame : g.same h = true) :
    g.wkt = h.wkt := by
  induction hg generalizing h with
  | point _ =>
    cases h with
    | point position' =>
      refine wkt_eq_of_body rfl ?_
      simp only [same] at hsame
      simp only [wktBody, Coord.wkt_eq_of_same hsame]
    | _ => exact absurd hsame Bool.false_ne_true
  | lineString _ =>
    cases h with
    | lineString positions' =>
      refine wkt_eq_of_body rfl ?_
      simp only [same] at hsame
      simp only [wktBody, positionsWkt_eq_of_same hsame]
    | _ => exact absurd hsame Bool.false_ne_true
  | polygon _ =>
    cases h with
    | polygon rings' =>
      refine wkt_eq_of_body rfl ?_
      simp only [same] at hsame
      simp only [wktBody, ringsWkt_eq_of_same hsame]
    | _ => exact absurd hsame Bool.false_ne_true
  | multiPoint _ =>
    cases h with
    | multiPoint positions' =>
      refine wkt_eq_of_body rfl ?_
      simp only [same] at hsame
      simp only [wktBody, positionsWkt_eq_of_same hsame]
    | _ => exact absurd hsame Bool.false_ne_true
  | multiLineString _ =>
    cases h with
    | multiLineString lines' =>
      refine wkt_eq_of_body rfl ?_
      simp only [same] at hsame
      simp only [wktBody, ringsWkt_eq_of_same hsame]
    | _ => exact absurd hsame Bool.false_ne_true
  | multiPolygon _ =>
    cases h with
    | multiPolygon polygons' =>
      refine wkt_eq_of_body rfl ?_
      simp only [same] at hsame
      simp only [wktBody]
      rw [map_eq_of_sameList
        (fun _ _ _ _ hrings => congrArg parenthesized (ringsWkt_eq_of_same hrings)) hsame]
    | _ => exact absurd hsame Bool.false_ne_true
  | collection _ ih =>
    cases h with
    | collection parts' =>
      refine wkt_eq_of_body rfl ?_
      simp only [same, sameParts_eq_sameList] at hsame
      rw [wktBody_collection, wktBody_collection,
        map_eq_of_sameList (fun a hmem b _ hpart => ih a hmem hpart) hsame]
    | _ => exact absurd hsame Bool.false_ne_true

end Geometry
end FilterForest
