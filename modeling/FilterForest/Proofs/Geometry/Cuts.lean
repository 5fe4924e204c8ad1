import FilterForest.Proofs.Geometry.Parsed

/-!
# Cuts at characters

Whatever the text, the spans that a reader cuts out have their offsets in order, inside the text and
at characters of it. That holds also of the spans that a scan cuts out before it finds out that the
parentheses do not match. So no reading is refused because of a span.
-/
namespace FilterForest
namespace Text

/-- Whether a character starts, or the text ends, at an offset. -/
def IsBoundary (offset : ℕ) (s : List Char) : Prop :=
  ∃ before after, s = before ++ after ∧ byteSize before = offset

/-- Whether the offsets of a span are in order, inside a text and at characters of it. -/
structure Span.LiesIn (span : Span) (s : List Char) : Prop where
  ordered : span.start ≤ span.stop
  inside : span.stop ≤ byteSize s
  start : IsBoundary span.start s
  stop : IsBoundary span.stop s

variable {s : List Char} {span : Span}

theorem isBoundary_append (before after : List Char) :
    IsBoundary (byteSize before) (before ++ after) :=
  ⟨before, after, rfl, rfl⟩

theorem IsBoundary.le_byteSize {offset : ℕ} (h : IsBoundary offset s) : offset ≤ byteSize s := by
  obtain ⟨before, after, rfl, rfl⟩ := h
  rw [byteSize_append]
  exact Nat.le_add_right _ _

theorem Span.LiesIn.of_boundaries {start stop : ℕ} (hordered : start ≤ stop)
    (hstart : IsBoundary start s) (hstop : IsBoundary stop s) : (⟨start, stop⟩ : Span).LiesIn s :=
  ⟨hordered, hstop.le_byteSize, hstart, hstop⟩

theorem eq_nil_of_byteSize (h : byteSize s = 0) : s = [] := by
  cases s with
  | nil => rfl
  | cons c s =>
    have hpos := c.utf8Size_pos
    rw [byteSize_cons] at h
    omega

theorem eq_append_of_divide? {offset : ℕ} {before after : List Char}
    (h : divide? offset s = some (before, after)) :
    s = before ++ after ∧ byteSize before = offset := by
  induction s generalizing offset before with
  | nil =>
    cases offset with
    | zero =>
      obtain ⟨rfl, rfl⟩ := Prod.mk.inj (Option.some.inj h)
      exact ⟨rfl, rfl⟩
    | succ offset => contradiction
  | cons c s ih =>
    cases offset with
    | zero =>
      obtain ⟨rfl, rfl⟩ := Prod.mk.inj (Option.some.inj h)
      exact ⟨rfl, rfl⟩
    | succ offset =>
      rw [divide?] at h
      split at h
      · obtain ⟨⟨front, rest⟩, hrest, heq⟩ := Option.map_eq_some_iff.mp h
        obtain ⟨rfl, rfl⟩ := Prod.mk.inj heq
        obtain ⟨rfl, hsize⟩ := ih hrest
        refine ⟨rfl, ?_⟩
        rw [byteSize_cons, hsize]
        omega
      · contradiction

/-- Of two boundaries the one that comes first divides what stands before the other. -/
theorem exists_append_of_liesIn (h : span.LiesIn s) :
    ∃ before part after, s = before ++ (part ++ after) ∧
      span = ⟨byteSize before, byteSize before + byteSize part⟩ := by
  obtain ⟨start, stop⟩ := span
  obtain ⟨before, rest, rfl, hstart⟩ := h.start
  obtain ⟨front, after, heq, hstop⟩ := h.stop
  have hordered := h.ordered
  simp only at hstart hstop hordered
  rcases List.append_eq_append_iff.mp heq with ⟨part, rfl, rfl⟩ | ⟨part, rfl, rfl⟩
  · rw [byteSize_append] at hstop
    exact ⟨before, part, after, rfl, by rw [hstart, ← hstop, ← hstart]⟩
  · rw [byteSize_append] at hstart
    obtain rfl : part = [] := eq_nil_of_byteSize (by omega)
    rw [byteSize_nil, Nat.add_zero] at hstart
    obtain rfl : start = stop := by omega
    exact ⟨front, [], rest, List.append_assoc .., by rw [hstop, byteSize_nil, Nat.add_zero]⟩

theorem cut?_isSome_iff : (∃ part, cut? span s = some part) ↔ span.LiesIn s := by
  constructor
  · rintro ⟨part, h⟩
    obtain ⟨start, stop⟩ := span
    rw [cut?] at h
    split at h
    · next hordered =>
      obtain ⟨⟨before, rest⟩, hstart, h⟩ := Option.bind_eq_some_iff.mp h
      obtain ⟨⟨part, after⟩, hstop, rfl⟩ := Option.map_eq_some_iff.mp h
      obtain ⟨rfl, rfl⟩ := eq_append_of_divide? hstart
      obtain ⟨rfl, hsize⟩ := eq_append_of_divide? hstop
      refine .of_boundaries hordered (isBoundary_append before _) ?_
      refine ⟨before ++ part, after, by simp, ?_⟩
      simp only at hordered hsize
      rw [byteSize_append, hsize]
      omega
    · contradiction
  · intro h
    obtain ⟨before, part, after, rfl, rfl⟩ := exists_append_of_liesIn h
    exact ⟨part, cut?_append before part after⟩

end Text

namespace Wkt

open Text

variable {α β : Type} {s : List Char}

theorem exists_cut_iff {span : Span} : (∃ part, cut span s = .ok part) ↔ span.LiesIn s := by
  rw [← cut?_isSome_iff]
  unfold cut
  cases cut? span s <;> simp

theorem liesIn_of_keywordSpan? {span : Span} (h : keywordSpan? s = some span) : span.LiesIn s := by
  obtain ⟨stop, hstop, rfl⟩ := Option.map_eq_some_iff.mp h
  obtain ⟨before, after, rfl, -, rfl⟩ := exists_append_of_offsetOf? hstop
  exact .of_boundaries (Nat.zero_le _) (isBoundary_append [] _) (isBoundary_append before _)

theorem liesIn_of_bodySpan? {span : Span} (h : bodySpan? s = some span) : span.LiesIn s := by
  unfold bodySpan? at h
  split at h
  · next start stop hstart hstop =>
    split at h
    · contradiction
    · next hlt =>
      obtain rfl := Option.some.inj h
      obtain ⟨before, after, hs, -, rfl⟩ := exists_append_of_offsetOf? hstart
      obtain ⟨front, tail, rfl, -, rfl⟩ := exists_append_of_lastOffsetOf? hstop
      refine .of_boundaries (Nat.not_le.mp hlt) ?_ (isBoundary_append front _)
      refine ⟨before ++ ['('], after, by simp [hs], ?_⟩
      rw [byteSize_append]
      rfl
  · contradiction

/-- The spans that a scan for groups cuts out, up to the end of the text or to a parenthesis that
closes none. -/
def capturedSpansFrom (offset depth start : ℕ) : List Char → List Span
  | [] => []
  | c :: rest =>
    if c = '(' then
      capturedSpansFrom (offset + c.utf8Size) (depth + 1) (if depth = 0 then offset + 1 else start)
        rest
    else if c = ')' then
      match depth with
      | 0 => []
      | 1 => ⟨start, offset⟩ :: capturedSpansFrom (offset + c.utf8Size) 0 start rest
      | depth + 2 => capturedSpansFrom (offset + c.utf8Size) (depth + 1) start rest
    else capturedSpansFrom (offset + c.utf8Size) depth start rest

def capturedSpans (s : List Char) : List Span := capturedSpansFrom 0 0 0 s

theorem capturedSpansFrom_open (offset depth start : ℕ) (rest : List Char) :
    capturedSpansFrom offset depth start ('(' :: rest) = capturedSpansFrom (offset + 1) (depth + 1)
      (if depth = 0 then offset + 1 else start) rest := by
  rcases depth with _ | _ | depth <;> rfl

theorem capturedSpansFrom_close (offset start : ℕ) (rest : List Char) :
    capturedSpansFrom offset 1 start (')' :: rest) =
      ⟨start, offset⟩ :: capturedSpansFrom (offset + 1) 0 start rest := rfl

theorem capturedSpansFrom_close_inside (offset depth start : ℕ) (rest : List Char) :
    capturedSpansFrom offset (depth + 2) start (')' :: rest) =
      capturedSpansFrom (offset + 1) (depth + 1) start rest := rfl

theorem capturedSpansFrom_char {c : Char} (hopen : c ≠ '(') (hclose : c ≠ ')')
    (offset depth start : ℕ) (rest : List Char) :
    capturedSpansFrom offset depth start (c :: rest) =
      capturedSpansFrom (offset + c.utf8Size) depth start rest := by
  rcases depth with _ | _ | depth <;> rw [capturedSpansFrom, if_neg hopen, if_neg hclose]

/-- A scan that comes to an end has cut out what it answers with. -/
theorem capturedSpansFrom_of_groupSpansFrom? {offset depth start : ℕ} {spans : List Span}
    (h : groupSpansFrom? offset depth start s = some spans) :
    capturedSpansFrom offset depth start s = spans := by
  induction s generalizing offset depth start spans with
  | nil =>
    rw [groupSpansFrom?] at h
    split at h
    · exact Option.some.inj h
    · contradiction
  | cons c s ih =>
    by_cases hopen : c = '('
    · subst hopen
      rw [groupSpansFrom?_open] at h
      rw [capturedSpansFrom_open, ih h]
    · by_cases hclose : c = ')'
      · subst hclose
        rcases depth with _ | _ | depth
        · contradiction
        · rw [groupSpansFrom?_close] at h
          obtain ⟨others, hothers, rfl⟩ := Option.map_eq_some_iff.mp h
          rw [capturedSpansFrom_close, ih hothers]
        · rw [groupSpansFrom?_close_inside] at h
          rw [capturedSpansFrom_close_inside, ih h]
      · rw [groupSpansFrom?_char hopen hclose] at h
        rw [capturedSpansFrom_char hopen hclose, ih h]

/-- As long as the outermost open parenthesis stands before the place where a scan goes on, all that
the scan cuts out lies in the text. -/
theorem liesIn_of_mem_capturedSpansFrom {before rest : List Char} {depth start : ℕ}
    (hstart : depth ≠ 0 → start ≤ byteSize before ∧ IsBoundary start (before ++ rest)) {span : Span}
    (h : span ∈ capturedSpansFrom (byteSize before) depth start rest) :
    span.LiesIn (before ++ rest) := by
  induction rest generalizing before depth start with
  | nil => contradiction
  | cons c rest ih =>
    have hnext : byteSize (before ++ [c]) = byteSize before + c.utf8Size := by
      rw [byteSize_append, byteSize_cons, byteSize_nil, Nat.add_zero]
    have htext : before ++ c :: rest = before ++ [c] ++ rest := by simp
    have hkeep : depth ≠ 0 →
        start ≤ byteSize (before ++ [c]) ∧ IsBoundary start (before ++ [c] ++ rest) := by
      intro hdepth
      rw [hnext, ← htext]
      exact (hstart hdepth).imp_left Nat.le_add_right_of_le
    by_cases hopen : c = '('
    · subst hopen
      rw [capturedSpansFrom_open] at h
      rw [htext]
      refine ih (fun _ => ?_) (hnext ▸ h)
      split
      · exact ⟨le_rfl, isBoundary_append _ _⟩
      · next hdepth => exact hkeep hdepth
    · by_cases hclose : c = ')'
      · subst hclose
        rcases depth with _ | _ | depth
        · contradiction
        · rw [capturedSpansFrom_close] at h
          rcases List.mem_cons.mp h with rfl | hothers
          · obtain ⟨hle, hboundary⟩ := hstart Nat.one_ne_zero
            exact .of_boundaries hle hboundary (isBoundary_append before _)
          · rw [htext]
            exact ih (fun hzero => absurd rfl hzero) (hnext ▸ hothers)
        · rw [capturedSpansFrom_close_inside] at h
          rw [htext]
          exact ih (fun _ => hkeep (Nat.succ_ne_zero _)) (hnext ▸ h)
      · rw [capturedSpansFrom_char hopen hclose] at h
        rw [htext]
        exact ih hkeep (hnext ▸ h)

theorem liesIn_of_mem_capturedSpans {span : Span} (h : span ∈ capturedSpans s) :
    span.LiesIn s := by
  show span.LiesIn ([] ++ s)
  exact liesIn_of_mem_capturedSpansFrom (fun hzero => absurd rfl hzero) h

/-- What a reader can cut out of a text that it is given, and out of the parts that it has cut out
of it: a keyword and a body, the groups of the body, and the groups of a group. -/
inductive Cuts (s : List Char) : Span → List Char → Prop
  | keyword {span : Span} (h : keywordSpan? (trim s) = some span) : Cuts s span (trim s)
  | body {span : Span} (h : bodySpan? (trim s) = some span) : Cuts s span (trim s)
  | group {span : Span} {inside : List Char} (hinside : Wkt.body (trim s) = .ok inside)
    (h : span ∈ capturedSpans inside) : Cuts s span inside
  | nested {span outer : Span} {inside part : List Char} (hinside : Wkt.body (trim s) = .ok inside)
    (houter : outer ∈ capturedSpans inside) (hpart : cut outer inside = .ok part)
    (h : span ∈ capturedSpans part) : Cuts s span part

theorem Cuts.liesIn {span : Span} {t : List Char} (h : Cuts s span t) : span.LiesIn t := by
  cases h with
  | keyword h => exact liesIn_of_keywordSpan? h
  | body h => exact liesIn_of_bodySpan? h
  | group hinside h => exact liesIn_of_mem_capturedSpans h
  | nested hinside houter hpart h => exact liesIn_of_mem_capturedSpans h

/-- Readings that are not refused because of a span. -/
def IsSafe (reading : Reading α) : Prop := ∀ span, reading ≠ .error (.badSpan span)

theorem isSafe_ok (a : α) : IsSafe (.ok a) := nofun

theorem isSafe_malformed : IsSafe (.error .malformed : Reading α) := nofun

theorem isSafe_orMalformed (result : Option α) : IsSafe (orMalformed result) := by
  cases result with
  | none => exact isSafe_malformed
  | some a => exact isSafe_ok a

theorem isSafe_cut {span : Span} (h : span.LiesIn s) : IsSafe (cut span s) := by
  obtain ⟨part, hpart⟩ := exists_cut_iff.mpr h
  rw [hpart]
  exact isSafe_ok part

theorem IsSafe.bind {reading : Reading α} {next : α → Reading β} (h : IsSafe reading)
    (hnext : ∀ a, reading = .ok a → IsSafe (next a)) : IsSafe (reading >>= next) := by
  cases reading with
  | ok a => exact hnext a rfl
  | error refusal =>
    intro span heq
    exact h span (congrArg Except.error (Except.error.inj heq))

theorem IsSafe.map {reading : Reading α} (h : IsSafe reading) (f : α → β) :
    IsSafe (f <$> reading) :=
  h.bind fun a _ => isSafe_ok (f a)

theorem isSafe_mapM {read : α → Reading β} {as : List α} (h : ∀ a ∈ as, IsSafe (read a)) :
    IsSafe (as.mapM read) := by
  induction as with
  | nil => exact isSafe_ok []
  | cons a as ih =>
    obtain ⟨ha, has⟩ := List.forall_mem_cons.mp h
    rw [List.mapM_cons]
    exact ha.bind fun b _ => (ih has).bind fun bs _ => isSafe_ok (b :: bs)

theorem eq_some_of_orMalformed {result : Option α} {a : α} (h : orMalformed result = .ok a) :
    result = some a := by
  cases result with
  | none => contradiction
  | some b => exact congrArg some (Except.ok.inj h)

theorem isSafe_keyword (s : List Char) : IsSafe (keyword s) := by
  refine (isSafe_orMalformed _).bind fun span hspan => ?_
  have hlies := liesIn_of_keywordSpan? (eq_some_of_orMalformed hspan)
  exact (isSafe_cut hlies).bind fun word _ => isSafe_ok (trimEnd word)

theorem isSafe_body (s : List Char) : IsSafe (body s) := by
  refine (isSafe_orMalformed _).bind fun span hspan => ?_
  exact isSafe_cut (liesIn_of_bodySpan? (eq_some_of_orMalformed hspan))

theorem isSafe_groups (s : List Char) : IsSafe (groups s) := by
  refine (isSafe_orMalformed _).bind fun spans hspans => isSafe_mapM fun span hspan => ?_
  have hcaptured : capturedSpans s = spans :=
    capturedSpansFrom_of_groupSpansFrom? (eq_some_of_orMalformed hspans)
  exact isSafe_cut (liesIn_of_mem_capturedSpans (hcaptured ▸ hspan))

theorem isSafe_rings (s : List Char) : IsSafe (rings s) := by
  refine (isSafe_groups s).bind fun parts _ => (isSafe_orMalformed _).bind fun found _ => ?_
  cases found with
  | nil => exact isSafe_malformed
  | cons ring rings => exact isSafe_ok _

theorem isSafe_polygons (s : List Char) : IsSafe (polygons s) := by
  refine (isSafe_groups s).bind fun parts _ => ?_
  refine (isSafe_mapM fun part _ => isSafe_rings part).bind fun found _ => ?_
  cases found with
  | nil => exact isSafe_malformed
  | cons polygon polygons => exact isSafe_ok _

theorem isSafe_geometry (word inside : List Char) : IsSafe (geometry word inside) := by
  unfold geometry
  split_ifs
  · exact (isSafe_orMalformed _).map _
  · exact (isSafe_orMalformed _).map _
  · exact (isSafe_rings _).map _
  · exact (isSafe_orMalformed _).map _
  · exact (isSafe_rings _).map _
  · exact (isSafe_polygons _).map _
  · exact isSafe_malformed

theorem isSafe_read (s : List Char) : IsSafe (Wkt.read s) :=
  (isSafe_keyword _).bind fun word _ => (isSafe_body _).bind fun inside _ =>
    isSafe_geometry word inside

theorem isSafe_readCircle (s : List Char) : IsSafe (Circle.read s) := by
  refine (isSafe_keyword _).bind fun word _ => ?_
  split
  · exact (isSafe_body _).bind fun inside _ => isSafe_orMalformed _
  · exact isSafe_malformed

/-- Whatever a reader cuts out, of the text or of a part of it at any depth, lies there: the offsets
are in order, inside the text and at characters. That is what a cut needs, so none fails, and
neither a geometry nor a circle is refused because of a span. A scan for groups that comes to an end
has cut out the spans that it answers with. -/
theorem cuts_lie_in_texts (s : List Char) :
    (∀ span t, Cuts s span t → span.LiesIn t) ∧
    (∀ span t, (∃ part, cut span t = .ok part) ↔ span.LiesIn t) ∧
    (∀ t spans, groupSpans? t = some spans → capturedSpans t = spans) ∧
    ∀ span, Wkt.read s ≠ .error (.badSpan span) ∧ Circle.read s ≠ .error (.badSpan span) :=
  ⟨fun _ _ h => h.liesIn, fun _ _ => exists_cut_iff,
    fun _ _ h => capturedSpansFrom_of_groupSpansFrom? h,
    fun span => ⟨isSafe_read s span, isSafe_readCircle s span⟩⟩

/-- A text whose parentheses do not match, with a wide character inside of a group that is cut out
before the scan comes to the one that closes none. -/
def brokenRings : List Char := "\tPOLYGON((ß), (x)) , (y))".toList

theorem cuts_lie_in_texts_brokenRings :
    Wkt.read brokenRings = .error .malformed ∧
    Cuts brokenRings ⟨1, 3⟩ "(ß), (x)) , (y)".toList ∧
    (⟨1, 3⟩ : Span).LiesIn "(ß), (x)) , (y)".toList ∧
    groupSpans? "(ß), (x)".toList = some [⟨1, 3⟩, ⟨7, 8⟩] ∧
    capturedSpans "(ß), (x)".toList = [⟨1, 3⟩, ⟨7, 8⟩] := by
  have hcut : Cuts brokenRings ⟨1, 3⟩ "(ß), (x)) , (y)".toList := .group rfl (by decide)
  have hscan : groupSpans? "(ß), (x)".toList = some [⟨1, 3⟩, ⟨7, 8⟩] := by decide
  obtain ⟨hlies, -, hcaptured, -⟩ := cuts_lie_in_texts brokenRings
  exact ⟨rfl, hcut, hlies _ _ hcut, hscan, hcaptured _ _ hscan⟩

end Wkt
end FilterForest
