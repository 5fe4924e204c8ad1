import FilterForest.Proofs.Predicate.Literal

/-!
# Texts with quoted strings

Two scanners of query text. One toggles at every quote whether it is inside of a literal, and counts
the parentheses outside. The other reads what the literals stand for, a doubled quote as one, and
keeps the text around them; both see the same outside. A text is quoted if every parenthesis outside
of its literals has its partner and the literals stand for some strings, in some text around them;
texts are put together from plain ones, literals and groups in parentheses.
-/
namespace FilterForest
namespace Text

/-- What a scanner knows at a place of a text: whether it is inside of a literal, and the number of
open parentheses. -/
structure Place where
  inside : Bool
  depth : ℤ
deriving DecidableEq

/-- Goes on by one character. Parentheses inside of a literal do not count. -/
def Place.next (place : Place) (c : Char) : Place :=
  if c = '\x27' then { place with inside := !place.inside }
  else if place.inside then place
  else if c = '(' then { place with depth := place.depth + 1 }
  else if c = ')' then { place with depth := place.depth - 1 }
  else place

/-- The places after each character of a text. -/
def places (start : Place) : List Char → List Place
  | [] => []
  | c :: rest => start.next c :: places (start.next c) rest

def placeAfter (start : Place) (s : List Char) : Place := s.foldl Place.next start

/-- A text without what stands in its literals, and the strings that they stand for. -/
structure Reading where
  frame : List Char
  strings : List (List Char)
deriving DecidableEq

namespace Reading

/-- What is read of a text that goes on with another. -/
def before (frame : List Char) (strings : List (List Char)) (rest : Reading) : Reading :=
  ⟨frame ++ rest.frame, strings ++ rest.strings⟩

def inString (c : Char) (reading : Reading) : Reading :=
  { reading with strings := reading.strings.modifyHead (c :: ·) }

end Reading

/-- Reads a text from outside or from inside of a literal, where the rest of it is the first string.
A literal that does not end is not read. -/
def read? : Bool → List Char → Option Reading
  | false, [] => some ⟨[], []⟩
  | false, c :: rest =>
    if c = '\x27' then (read? true rest).map (.before [c] [])
    else (read? false rest).map (.before [c] [])
  | true, [] => none
  | true, '\x27' :: '\x27' :: rest => (read? true rest).map (.inString '\x27')
  | true, '\x27' :: rest => (read? false rest).map (.before ['\x27'] [[]])
  | true, c :: rest => (read? true rest).map (.inString c)

/-- What stands outside of the literals of a text, read from outside or from inside of one. -/
def outside : Bool → List Char → List Char
  | _, [] => []
  | inside, c :: rest =>
    if c = '\x27' then outside (!inside) rest
    else if inside then outside inside rest
    else c :: outside inside rest

def IsUnmarked (s : List Char) : Prop := ∀ c ∈ s, c ≠ '(' ∧ c ≠ ')' ∧ c ≠ '\x27'

instance (s : List Char) : Decidable (IsUnmarked s) := List.decidableBAll _ s

/-- Texts that a literal can stand before, since they do not continue it. -/
def EndsString (s : List Char) : Prop := s.head? ≠ some '\x27'

variable {c : Char} {s t frame frame' rest : List Char} {strings strings' : List String}

theorem Place.next_open (depth : ℤ) : next ⟨false, depth⟩ '(' = ⟨false, depth + 1⟩ := by
  simp [next]

theorem Place.next_close (depth : ℤ) : next ⟨false, depth + 1⟩ ')' = ⟨false, depth⟩ := by
  simp [next]

theorem Place.next_char (hc : c ≠ '(' ∧ c ≠ ')' ∧ c ≠ '\x27') (depth : ℤ) :
    next ⟨false, depth⟩ c = ⟨false, depth⟩ := by
  simp [next, hc]

theorem places_append (start : Place) (s t : List Char) :
    places start (s ++ t) = places start s ++ places (placeAfter start s) t := by
  induction s generalizing start with
  | nil => rfl
  | cons c s ih => rw [List.cons_append, places, places, ih, List.cons_append]; rfl

theorem placeAfter_cons (start : Place) (c : Char) (s : List Char) :
    placeAfter start (c :: s) = placeAfter (start.next c) s := rfl

theorem placeAfter_append (start : Place) (s t : List Char) :
    placeAfter start (s ++ t) = placeAfter (placeAfter start s) t := List.foldl_append

theorem read?_char (hc : c ≠ '\x27') (rest : List Char) :
    read? false (c :: rest) = (read? false rest).map (.before [c] []) := by
  rw [read?, if_neg hc]

theorem read?_open (rest : List Char) :
    read? false ('\x27' :: rest) = (read? true rest).map (.before ['\x27'] []) := by
  rw [read?, if_pos rfl]

theorem read?_inside (hc : c ≠ '\x27') (rest : List Char) :
    read? true (c :: rest) = (read? true rest).map (.inString c) := by
  rw [read?]
  · rintro - rfl
    exact absurd rfl hc
  · exact hc

theorem read?_doubled (rest : List Char) :
    read? true ('\x27' :: '\x27' :: rest) = (read? true rest).map (.inString '\x27') := rfl

theorem read?_close (h : EndsString rest) :
    read? true ('\x27' :: rest) = (read? false rest).map (.before ['\x27'] [[]]) := by
  rw [read?]
  rintro rest' rfl
  exact h rfl

theorem outside_frame {inside : Bool} {r : Reading} (h : read? inside s = some r) :
    outside inside r.frame = outside inside s := by
  fun_induction read? inside s generalizing r with
  | case1 =>
    obtain rfl := Option.some.inj h
    rfl
  | case2 rest ih =>
    obtain ⟨r, hr, rfl⟩ := Option.map_eq_some_iff.mp h
    simp [Reading.before, outside, ih hr]
  | case3 c rest hc ih =>
    obtain ⟨r, hr, rfl⟩ := Option.map_eq_some_iff.mp h
    simp [Reading.before, outside, hc, ih hr]
  | case4 => contradiction
  | case5 rest ih =>
    obtain ⟨r, hr, rfl⟩ := Option.map_eq_some_iff.mp h
    simp [Reading.inString, outside, ih hr]
  | case6 rest _ ih =>
    obtain ⟨r, hr, rfl⟩ := Option.map_eq_some_iff.mp h
    simp [Reading.before, outside, ih hr]
  | case7 c rest _ hc ih =>
    obtain ⟨r, hr, rfl⟩ := Option.map_eq_some_iff.mp h
    have hne : c ≠ '\x27' := hc
    simp [Reading.inString, outside, hne, ih hr]

theorem EndsString.cons (hc : c ≠ '\x27') (rest : List Char) : EndsString (c :: rest) :=
  fun heq => hc (Option.some.inj heq)

theorem EndsString.append (hs : EndsString s) (hrest : EndsString rest) :
    EndsString (s ++ rest) := by
  cases s with
  | nil => exact hrest
  | cons c s => exact hs

theorem Reading.before_before (r : Reading) (v w : List (List Char)) :
    Reading.before frame v (Reading.before frame' w r) =
      Reading.before (frame ++ frame') (v ++ w) r := by
  simp [before]

theorem quoteText_eq (v : List Char) :
    quoteText v = '\x27' :: (v.flatMap doubled ++ ['\x27']) := rfl

/-- Inside of a literal the depth stays, and its last quote ends it. -/
theorem placeAfter_doubled (v : List Char) (depth : ℤ) :
    placeAfter ⟨true, depth⟩ (v.flatMap doubled ++ ['\x27']) = ⟨false, depth⟩ ∧
      ∀ place ∈ places ⟨true, depth⟩ (v.flatMap doubled ++ ['\x27']), place.depth = depth := by
  induction v with
  | nil => simp [placeAfter, places, Place.next]
  | cons c v ih =>
    rw [List.flatMap_cons, List.append_assoc, placeAfter_append, places_append]
    by_cases hc : c = '\x27'
    · subst hc
      rw [doubled_quote]
      simpa [placeAfter, places, Place.next] using ih
    · rw [doubled_of_ne hc]
      simpa [placeAfter, places, Place.next, hc] using ih

theorem read?_flatMap_doubled (v : List Char) (hrest : EndsString rest) :
    read? true (v.flatMap doubled ++ '\x27' :: rest) =
      (read? false rest).map (.before ['\x27'] [v]) := by
  induction v with
  | nil => exact read?_close hrest
  | cons c v ih =>
    have hread : read? true ((c :: v).flatMap doubled ++ '\x27' :: rest) =
        (read? true (v.flatMap doubled ++ '\x27' :: rest)).map (.inString c) := by
      rw [List.flatMap_cons, List.append_assoc]
      by_cases hc : c = '\x27'
      · subst hc
        rw [doubled_quote]
        exact read?_doubled _
      · rw [doubled_of_ne hc]
        exact read?_inside hc _
    rw [hread, ih, Option.map_map]
    rfl

/-- A text that a scanner leaves as it came to it, outside of all literals and at the same depth,
with its frame and its strings. -/
structure Quoted (s frame : List Char) (strings : List String) : Prop where
  closed (depth : ℤ) : placeAfter ⟨false, depth⟩ s = ⟨false, depth⟩
  level (depth : ℤ) : ∀ place ∈ places ⟨false, depth⟩ s, depth ≤ place.depth
  read (rest : List Char) : EndsString rest → read? false (s ++ rest) =
    (read? false rest).map (.before frame (strings.map String.toList))

namespace Quoted

theorem nil : Quoted [] [] [] where
  closed _ := rfl
  level _ _ hplace := nomatch hplace
  read rest _ := by
    have hid : Reading.before [] ([].map String.toList) = id := rfl
    rw [hid, Option.map_id, List.nil_append, id]

/-- A literal ends before a text that does not start with a quote. -/
theorem append (hs : Quoted s frame strings) (ht : Quoted t frame' strings')
    (hends : EndsString t) : Quoted (s ++ t) (frame ++ frame') (strings ++ strings') where
  closed depth := by rw [placeAfter_append, hs.closed, ht.closed]
  level depth := by
    rw [places_append, hs.closed, List.forall_mem_append]
    exact ⟨hs.level depth, ht.level depth⟩
  read rest hrest := by
    rw [List.append_assoc, hs.read _ (hends.append hrest), ht.read rest hrest, Option.map_map,
      List.map_append]
    congr 1
    funext r
    exact r.before_before _ _

theorem cons (hc : c ≠ '(' ∧ c ≠ ')' ∧ c ≠ '\x27') (hs : Quoted s frame strings) :
    Quoted (c :: s) (c :: frame) strings := by
  refine ⟨fun depth => ?_, fun depth => ?_, fun rest hrest => ?_⟩
  · rw [placeAfter_cons, Place.next_char hc]
    exact hs.closed depth
  · rw [places, Place.next_char hc, List.forall_mem_cons]
    exact ⟨le_rfl, hs.level depth⟩
  · rw [List.cons_append, read?_char hc.2.2, hs.read rest hrest, Option.map_map]
    rfl

theorem unmarked_append (hs : IsUnmarked s) (ht : Quoted t frame strings) :
    Quoted (s ++ t) (s ++ frame) strings := by
  induction s with
  | nil => exact ht
  | cons c s ih =>
    obtain ⟨hc, hs⟩ := List.forall_mem_cons.mp hs
    exact (ih hs).cons hc

theorem of_isUnmarked (hs : IsUnmarked s) : Quoted s s [] := by
  have happend := nil.unmarked_append hs
  rwa [List.append_nil] at happend

theorem places_parenthesized (hs : Quoted s frame strings) (depth : ℤ) :
    places ⟨false, depth⟩ (parenthesized s) =
      (⟨false, depth + 1⟩ :: places ⟨false, depth + 1⟩ s) ++ [⟨false, depth⟩] := by
  rw [parenthesized, List.cons_append, places, Place.next_open, places_append, hs.closed, places,
    Place.next_close, places, List.cons_append]

/-- The depth of a group is back at zero after its last character and no earlier. -/
theorem exists_places_parenthesized (hs : Quoted s frame strings) :
    ∃ inner, places ⟨false, 0⟩ (parenthesized s) = inner ++ [⟨false, 0⟩] ∧
      ∀ place ∈ inner, 0 < place.depth := by
  refine ⟨_, hs.places_parenthesized 0, List.forall_mem_cons.mpr ⟨by decide, ?_⟩⟩
  exact fun place hplace => Int.add_one_le_iff.mp (hs.level _ place hplace)

theorem parenthesized (hs : Quoted s frame strings) :
    Quoted (parenthesized s) (parenthesized frame) strings where
  closed depth := by
    rw [Text.parenthesized, List.cons_append, placeAfter_cons, Place.next_open, placeAfter_append,
      hs.closed]
    exact Place.next_close depth
  level depth := by
    rw [hs.places_parenthesized, List.forall_mem_append, List.forall_mem_cons,
      List.forall_mem_singleton]
    refine ⟨⟨by simp, fun place hplace => ?_⟩, le_rfl⟩
    exact (Int.le_add_one le_rfl).trans (hs.level (depth + 1) place hplace)
  read rest hrest := by
    rw [parenthesized_append, read?_char (by decide), hs.read _ (.cons (by decide) rest),
      read?_char (by decide), Option.map_map, Option.map_map]
    congr 1
    funext r
    simp [Reading.before, Text.parenthesized]

theorem literal (v : String) : Quoted (quoteText v.toList) (quoteText []) [v] where
  closed depth := by
    rw [quoteText_eq, placeAfter_cons]
    exact (placeAfter_doubled v.toList depth).1
  level depth := by
    rw [quoteText_eq, places, List.forall_mem_cons]
    exact ⟨le_rfl, fun place hplace => ((placeAfter_doubled v.toList depth).2 place hplace).ge⟩
  read rest hrest := by
    rw [quoteText_append, read?_open, read?_flatMap_doubled _ hrest, Option.map_map]
    rfl

theorem separated (hs : Quoted s frame strings) {separator : List Char}
    (hseparator : IsUnmarked separator) (hne : separator ≠ [])
    (ht : Quoted t frame' strings') :
    Quoted (s ++ separator ++ t) (frame ++ separator ++ frame') (strings ++ strings') := by
  obtain ⟨c, rest, rfl⟩ := List.exists_cons_of_ne_nil hne
  have hends : EndsString (c :: rest ++ t) := .cons (hseparator c List.mem_cons_self).2.2 _
  rw [List.append_assoc, List.append_assoc]
  exact hs.append (.unmarked_append hseparator ht) hends

theorem intercalate {α : Type*} {separator : List Char} (hseparator : IsUnmarked separator)
    (hne : separator ≠ []) {text frame : α → List Char} {strings : α → List String}
    {items : List α} (h : ∀ a ∈ items, Quoted (text a) (frame a) (strings a)) :
    Quoted (separator.intercalate (items.map text)) (separator.intercalate (items.map frame))
      (items.flatMap strings) := by
  induction items with
  | nil => exact nil
  | cons a items ih =>
    obtain ⟨ha, hitems⟩ := List.forall_mem_cons.mp h
    cases items with
    | nil => simpa using ha
    | cons b items =>
      rw [List.map_cons, List.map_cons, List.map_cons, List.map_cons, List.intercalate_cons_cons,
        List.intercalate_cons_cons, List.flatMap_cons]
      exact ha.separated hseparator hne (ih hitems)

end Quoted

end Text
end FilterForest
