import FilterForest.Geometry.Wkt
import FilterForest.Proofs.Text.Unambiguous
import FilterForest.Text.Blank
import FilterForest.Text.Span

/-!
# Parts of a text

What a reader takes apart: words between blanks, parts between commas, a text between the blanks
around it, and what stands before or after a symbol. Each is found again in a text that was put
together from it.
-/
namespace FilterForest
namespace Text

/-- Texts without a blank. -/
def IsSolid (s : List Char) : Prop := ∀ c ∈ s, isBlank c = false

/-- Texts of blanks alone. -/
def IsGap (s : List Char) : Prop := ∀ c ∈ s, isBlank c = true

instance (s : List Char) : Decidable (IsGap s) :=
  decidable_of_iff (s.all isBlank = true) List.all_eq_true

theorem isGap_nil : IsGap [] := List.forall_mem_nil _

theorem IsGap.not_mem {gap : List Char} (hgap : IsGap gap) {c : Char} (hc : isBlank c = false) :
    c ∉ gap :=
  fun hmem => absurd (hgap c hmem) (by simp [hc])

theorem isBlank_of_isDigit {c : Char} (h : c.isDigit = true) : isBlank c = false := by
  have hrange : 48 ≤ c.toNat ∧ c.toNat ≤ 57 := by
    simpa [Char.isDigit, UInt32.le_iff_toNat_le] using h
  simp only [isBlank, blankRanges, List.any_cons, List.any_nil, Bool.or_false,
    Bool.or_eq_false_iff, Bool.and_eq_false_iff, decide_eq_false_iff_not, Nat.not_le]
  omega

theorem words_nil : words [] = [] := rfl

theorem words_append_blank {blank : Char} (hblank : isBlank blank = true) (s t : List Char) :
    words (s ++ blank :: t) = words s ++ words t := by
  rw [words, List.splitOnP_append_cons _ _ hblank, List.filter_append]
  rfl

theorem words_cons_blank {blank : Char} (hblank : isBlank blank = true) (t : List Char) :
    words (blank :: t) = words t := by
  rw [← List.nil_append (blank :: t), words_append_blank hblank, words_nil, List.nil_append]

theorem words_of_isSolid {s : List Char} (hs : IsSolid s) (hne : s ≠ []) : words s = [s] := by
  rw [words, List.splitOnP_eq_singleton hs]
  simp [hne]

/-- Parts between commas are found again, each but the first with the space in front of it. -/
theorem splitOn_commaSeparated {part : List Char} {parts : List (List Char)}
    (hpart : ',' ∉ part) (hparts : ∀ other ∈ parts, ',' ∉ other) :
    (commaSeparated (part :: parts)).splitOn ',' = part :: parts.map (' ' :: ·) := by
  have hsplit : commaSeparated (part :: parts) =
      [','].intercalate (part :: parts.map (' ' :: ·)) := by
    rw [commaSeparated, intercalate_cons, intercalate_cons, List.flatMap_map]
    rfl
  have hcomma : ∀ other ∈ part :: parts.map (' ' :: ·), ',' ∉ other := by
    simpa [hpart] using hparts
  rw [hsplit, List.splitOn_intercalate _ hcomma (List.cons_ne_nil _ _)]

theorem trimStart_append {s : List Char} (hs : IsSolid s) (hne : s ≠ []) (t : List Char) :
    trimStart (s ++ t) = s ++ t := by
  cases s with
  | nil => contradiction
  | cons c s => simp [trimStart, hs c List.mem_cons_self]

theorem trimStart_cons_blank {blank : Char} (hblank : isBlank blank = true) (s : List Char) :
    trimStart (blank :: s) = trimStart s := by
  simp [trimStart, hblank]

theorem trimEnd_append {t : List Char} (ht : IsSolid t) (hne : t ≠ []) (s : List Char) :
    trimEnd (s ++ t) = s ++ t := by
  rcases t.eq_nil_or_concat' with rfl | ⟨t, c, rfl⟩
  · contradiction
  · simp [trimEnd, ht c (by simp)]

theorem trimEnd_of_isSolid {s : List Char} (hs : IsSolid s) (hne : s ≠ []) : trimEnd s = s := by
  have hend := trimEnd_append hs hne []
  rwa [List.nil_append] at hend

theorem exists_append_dropWhile (p : Char → Bool) (s : List Char) :
    ∃ run, (∀ c ∈ run, p c = true) ∧ s = run ++ s.dropWhile p :=
  ⟨s.takeWhile p, List.all_eq_true.mp List.all_takeWhile, List.takeWhile_append_dropWhile.symm⟩

theorem exists_dropWhile_append (p : Char → Bool) (s : List Char) :
    ∃ run, (∀ c ∈ run, p c = true) ∧ s = (s.reverse.dropWhile p).reverse ++ run := by
  obtain ⟨run, hrun, heq⟩ := exists_append_dropWhile p s.reverse
  refine ⟨run.reverse, fun c hc => hrun c (List.mem_reverse.mp hc), ?_⟩
  rw [← List.reverse_append, ← heq, List.reverse_reverse]

theorem exists_append_trimStart (s : List Char) : ∃ gap, IsGap gap ∧ s = gap ++ trimStart s :=
  exists_append_dropWhile isBlank s

theorem exists_trimEnd_append (s : List Char) : ∃ gap, IsGap gap ∧ s = trimEnd s ++ gap :=
  exists_dropWhile_append isBlank s

theorem trimStart_gap_append {gap : List Char} (hgap : IsGap gap) (s : List Char) :
    trimStart (gap ++ s) = trimStart s :=
  List.dropWhile_append_of_pos hgap

theorem trimEnd_append_gap {gap : List Char} (hgap : IsGap gap) (s : List Char) :
    trimEnd (s ++ gap) = trimEnd s := by
  have hreverse : IsGap gap.reverse := fun c hc => hgap c (List.mem_reverse.mp hc)
  rw [trimEnd, List.reverse_append, List.dropWhile_append_of_pos hreverse, ← trimEnd]

theorem trim_between_gaps {before s after : List Char} (hbefore : IsGap before) (hs : IsSolid s)
    (hne : s ≠ []) (hafter : IsGap after) : trim (before ++ (s ++ after)) = s := by
  rw [trim, trimStart_gap_append hbefore, trimStart_append hs hne, trimEnd_append_gap hafter,
    trimEnd_of_isSolid hs hne]

theorem exists_append_trim (s : List Char) :
    ∃ before after, IsGap before ∧ IsGap after ∧ s = before ++ (trim s ++ after) := by
  obtain ⟨before, hbefore, hstart⟩ := exists_append_trimStart s
  obtain ⟨after, hafter, hend⟩ := exists_trimEnd_append (trimStart s)
  exact ⟨before, after, hbefore, hafter, by rw [trim, ← hend, ← hstart]⟩

theorem trimEnd_append_cons {c : Char} (hc : isBlank c = false) (s t : List Char) :
    trimEnd (s ++ c :: t) = s ++ c :: trimEnd t := by
  have hdrop : (t.reverse ++ c :: s.reverse).dropWhile isBlank =
      t.reverse.dropWhile isBlank ++ c :: s.reverse := by
    rw [List.dropWhile_append]
    split
    · next hempty => simp [List.isEmpty_iff.mp hempty, hc]
    · rfl
  simp [trimEnd, hdrop]

/-- At the start of a text a gap is cut off, and it is kept behind a run of another character. -/
theorem exists_trimStart_append {c : Char} (hc : isBlank c = false) {run gap rest : List Char}
    (hrun : ∀ d ∈ run, d = c) (hgap : IsGap gap) (hrest : trimStart rest = rest) :
    ∃ gap', IsGap gap' ∧ trimStart (run ++ (gap ++ rest)) = run ++ (gap' ++ rest) := by
  cases run with
  | nil => exact ⟨[], isGap_nil, by rw [List.nil_append, trimStart_gap_append hgap, hrest]; rfl⟩
  | cons d run =>
    obtain rfl := hrun d List.mem_cons_self
    exact ⟨gap, hgap, by simp [trimStart, hc]⟩

theorem exists_append_trimEnd {c : Char} (hc : isBlank c = false) {run gap rest : List Char}
    (hrun : ∀ d ∈ run, d = c) (hgap : IsGap gap) (hrest : trimEnd rest = rest) :
    ∃ gap', IsGap gap' ∧ trimEnd (rest ++ (gap ++ run)) = rest ++ (gap' ++ run) := by
  have hrest' : trimStart rest.reverse = rest.reverse := by
    have hreverse := congrArg List.reverse hrest
    rwa [trimEnd, List.reverse_reverse] at hreverse
  have hrun' : ∀ d ∈ run.reverse, d = c := fun d hd => hrun d (List.mem_reverse.mp hd)
  have hreverse : IsGap gap.reverse := fun d hd => hgap d (List.mem_reverse.mp hd)
  obtain ⟨gap', hgap', heq⟩ := exists_trimStart_append hc hrun' hreverse hrest'
  refine ⟨gap'.reverse, fun d hd => hgap' d (List.mem_reverse.mp hd), ?_⟩
  have htext : (rest ++ (gap ++ run)).reverse = run.reverse ++ (gap.reverse ++ rest.reverse) := by
    simp
  rw [trimEnd, htext, ← trimStart, heq]
  simp

theorem offsetOf?_append {c : Char} {s : List Char} (hs : c ∉ s) (rest : List Char) :
    offsetOf? c (s ++ c :: rest) = some (byteSize s) := by
  induction s with
  | nil => simp [offsetOf?]
  | cons head s ih =>
    obtain ⟨hhead, hs⟩ : c ≠ head ∧ c ∉ s := by simpa using hs
    rw [List.cons_append, offsetOf?, if_neg (Ne.symm hhead), ih hs]
    rfl

theorem exists_append_of_offsetOf? {c : Char} {s : List Char} {offset : ℕ}
    (h : offsetOf? c s = some offset) :
    ∃ before after, s = before ++ c :: after ∧ c ∉ before ∧ byteSize before = offset := by
  induction s generalizing offset with
  | nil => contradiction
  | cons head s ih =>
    rw [offsetOf?] at h
    split at h
    · next heq =>
      obtain rfl := Option.some.inj h
      exact ⟨[], s, by rw [heq, List.nil_append], List.not_mem_nil, rfl⟩
    · next hne =>
      obtain ⟨rest, hrest, rfl⟩ := Option.map_eq_some_iff.mp h
      obtain ⟨before, after, rfl, hbefore, rfl⟩ := ih hrest
      refine ⟨head :: before, after, List.cons_append.symm, ?_, rfl⟩
      exact List.not_mem_cons_of_ne_of_not_mem (Ne.symm hne) hbefore

theorem lastOffsetOf?_eq_none_iff {c : Char} {s : List Char} :
    lastOffsetOf? c s = none ↔ c ∉ s := by
  induction s with
  | nil => simp [lastOffsetOf?]
  | cons head s ih =>
    rw [lastOffsetOf?, List.mem_cons, not_or, ← ih]
    cases lastOffsetOf? c s with
    | none => simp [eq_comm]
    | some offset => simp

theorem lastOffsetOf?_append {c : Char} {rest : List Char} (hrest : c ∉ rest) (s : List Char) :
    lastOffsetOf? c (s ++ c :: rest) = some (byteSize s) := by
  induction s with
  | nil => simp [lastOffsetOf?, lastOffsetOf?_eq_none_iff.mpr hrest]
  | cons head s ih =>
    rw [List.cons_append, lastOffsetOf?, ih]
    rfl

theorem exists_append_of_lastOffsetOf? {c : Char} {s : List Char} {offset : ℕ}
    (h : lastOffsetOf? c s = some offset) :
    ∃ before after, s = before ++ c :: after ∧ c ∉ after ∧ byteSize before = offset := by
  induction s generalizing offset with
  | nil => contradiction
  | cons head s ih =>
    rw [lastOffsetOf?] at h
    split at h
    · next rest hrest =>
      obtain rfl := Option.some.inj h
      obtain ⟨before, after, rfl, hafter, rfl⟩ := ih hrest
      exact ⟨head :: before, after, List.cons_append.symm, hafter, rfl⟩
    · next hnone =>
      split at h
      · next heq =>
        obtain rfl := Option.some.inj h
        exact ⟨[], s, by rw [heq, List.nil_append], lastOffsetOf?_eq_none_iff.mp hnone, rfl⟩
      · contradiction

end Text
end FilterForest
