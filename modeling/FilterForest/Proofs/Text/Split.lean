import FilterForest.Proofs.Text.Parts

/-!
# Texts that are split

What a text is made of, once its words or the parts between its commas are known. A word is a run
without blanks that ends with the text or at a blank, and in front of the first word there are only
blanks; the parts between commas have no comma. So reading the words or the parts of a text says how
the text is put together.
-/
namespace FilterForest
namespace Text

section Words

variable {s : List Char}

theorem words_gap_append {gap : List Char} (hgap : IsGap gap) (s : List Char) :
    words (gap ++ s) = words s := by
  induction gap with
  | nil => rfl
  | cons blank gap ih =>
    obtain ⟨hblank, hgap⟩ := List.forall_mem_cons.mp hgap
    rw [List.cons_append, words_cons_blank hblank, ih hgap]

theorem words_of_isGap (h : IsGap s) : words s = [] := by
  rw [← List.append_nil s, words_gap_append h, words_nil]

theorem words_append_gap {gap : List Char} (hgap : IsGap gap) (s : List Char) :
    words (s ++ gap) = words s := by
  cases gap with
  | nil => rw [List.append_nil]
  | cons blank gap =>
    obtain ⟨hblank, hgap⟩ := List.forall_mem_cons.mp hgap
    rw [words_append_blank hblank, words_of_isGap hgap, List.append_nil]

/-- A run without blanks is a word if it ends with the text or at a blank. -/
theorem words_append {word rest : List Char} (hword : IsSolid word) (hne : word ≠ [])
    (hrest : ∀ c ∈ rest.head?, isBlank c = true) : words (word ++ rest) = word :: words rest := by
  cases rest with
  | nil => rw [List.append_nil, words_of_isSolid hword hne, words_nil]
  | cons blank rest =>
    have hblank : isBlank blank = true := hrest blank rfl
    rw [words_append_blank hblank, words_of_isSolid hword hne, words_cons_blank hblank]
    rfl

theorem isGap_or_exists_word (s : List Char) : IsGap s ∨
    ∃ before word rest, IsGap before ∧ IsSolid word ∧ word ≠ [] ∧
      (∀ c ∈ rest.head?, isBlank c = true) ∧ s = before ++ (word ++ rest) := by
  obtain ⟨before, hbefore, hs⟩ := exists_append_trimStart s
  have hsplit := List.takeWhile_append_dropWhile (p := fun c => !isBlank c) (l := trimStart s)
  cases hstart : trimStart s with
  | nil =>
    rw [hstart, List.append_nil] at hs
    exact .inl (hs ▸ hbefore)
  | cons c rest =>
    have hc : isBlank c = false := by
      have hhead := List.head?_dropWhile_not isBlank s
      rw [← trimStart, hstart] at hhead
      simpa using hhead
    refine .inr ⟨before, _, _, hbefore, ?_, ?_, ?_, hs.trans (congrArg (before ++ ·) hsplit.symm)⟩
    · exact fun d hd => by simpa using List.all_eq_true.mp List.all_takeWhile d hd
    · rw [hstart, List.takeWhile_cons_of_pos (by simpa using hc)]
      exact List.cons_ne_nil _ _
    · intro d hd
      have hhead := List.head?_dropWhile_not (fun c => !isBlank c) (trimStart s)
      rw [hd] at hhead
      simpa using hhead

theorem words_eq_nil_iff : words s = [] ↔ IsGap s := by
  refine ⟨fun h => ?_, words_of_isGap⟩
  rcases isGap_or_exists_word s with hgap | ⟨before, word, rest, hbefore, hword, hne, hrest, rfl⟩
  · exact hgap
  · rw [words_gap_append hbefore, words_append hword hne hrest] at h
    contradiction

/-- The first word of a text has no blank in it, stands after a gap, and is followed by a text with
the other words, which starts with a blank if it is not empty. -/
theorem exists_append_of_words {word : List Char} {others : List (List Char)}
    (h : words s = word :: others) :
    ∃ before rest, IsGap before ∧ IsSolid word ∧ (∀ c ∈ rest.head?, isBlank c = true) ∧
      s = before ++ (word ++ rest) ∧ words rest = others := by
  rcases isGap_or_exists_word s with hgap | ⟨before, word', rest, hbefore, hword, hne, hrest, rfl⟩
  · rw [words_of_isGap hgap] at h
    contradiction
  · rw [words_gap_append hbefore, words_append hword hne hrest] at h
    obtain ⟨rfl, hothers⟩ := List.cons.inj h
    exact ⟨before, rest, hbefore, hword, hrest, rfl, hothers⟩

theorem words_pair {before x between y after : List Char} (hbefore : IsGap before)
    (hx : IsSolid x) (hxne : x ≠ []) (hbetween : IsGap between) (hne : between ≠ [])
    (hy : IsSolid y) (hyne : y ≠ []) (hafter : IsGap after) :
    words (before ++ (x ++ (between ++ (y ++ after)))) = [x, y] := by
  have hblank : ∀ c ∈ (between ++ (y ++ after)).head?, isBlank c = true := by
    obtain ⟨blank, rest, rfl⟩ := List.exists_cons_of_ne_nil hne
    intro c hc
    obtain rfl := Option.some.inj hc
    exact hbetween _ List.mem_cons_self
  rw [words_gap_append hbefore, words_append hx hxne hblank, words_gap_append hbetween,
    words_append_gap hafter, words_of_isSolid hy hyne]

theorem exists_append_of_words_pair {x y : List Char} (h : words s = [x, y]) :
    ∃ before between after, IsGap before ∧ IsGap between ∧ between ≠ [] ∧ IsGap after ∧
      s = before ++ (x ++ (between ++ (y ++ after))) := by
  obtain ⟨before, rest, hbefore, -, hhead, rfl, hrest⟩ := exists_append_of_words h
  obtain ⟨between, after, hbetween, hy, -, rfl, hafter⟩ := exists_append_of_words hrest
  refine ⟨before, between, after, hbefore, hbetween, ?_, words_eq_nil_iff.mp hafter, rfl⟩
  rintro rfl
  obtain ⟨c, y, rfl⟩ := List.exists_cons_of_ne_nil
    (ne_nil_of_mem_words (hrest ▸ List.mem_cons_self))
  exact absurd (hhead c rfl) (by simp [hy c List.mem_cons_self])

end Words

section Listed

variable {α : Type}

/-- Parts with a comma between any two of them, one part at least. -/
inductive Listed (p : α → List Char → Prop) : List α → List Char → Prop
  | last {a : α} {s : List Char} (h : p a s) : Listed p [a] s
  | more {a : α} {s : List Char} {as : List α} {t : List Char} (h : p a s) (ht : Listed p as t) :
    Listed p (a :: as) (s ++ ',' :: t)

namespace Listed

variable {p q : α → List Char → Prop} {as : List α} {s : List Char}

theorem imp (hpq : ∀ a t, p a t → q a t) (h : Listed p as s) : Listed q as s := by
  induction h with
  | last h => exact .last (hpq _ _ h)
  | more h _ ih => exact .more (hpq _ _ h) ih

theorem ne_nil (h : Listed p as s) : as ≠ [] := by
  cases h <;> exact List.cons_ne_nil _ _

end Listed

/-- A text reads part by part between its commas as a list of values exactly if it lists texts
without a comma that read as these values. -/
theorem mapM_splitOn_eq_some_iff {read : List Char → Option α} {s : List Char} {as : List α} :
    (s.splitOn ',').mapM read = some as ↔
      Listed (fun a part => ',' ∉ part ∧ read part = some a) as s := by
  constructor
  · intro h
    -- The induction is on the length because what follows the first comma is the next text.
    induction hlength : s.length using Nat.strongRecOn generalizing s as with
    | ind n ih =>
      by_cases hmem : ',' ∈ s
      · obtain ⟨part, rest, rfl, hpart⟩ := List.eq_append_cons_of_mem hmem
        rw [List.splitOn_append_cons_self_of_not_mem hpart, List.mapM_cons] at h
        obtain ⟨a, ha, h⟩ := Option.bind_eq_some_iff.mp h
        obtain ⟨others, hothers, h⟩ := Option.bind_eq_some_iff.mp h
        obtain rfl := Option.some.inj h
        have hlt : rest.length < n := by
          rw [← hlength, List.length_append, List.length_cons]
          omega
        exact .more ⟨hpart, ha⟩ (ih _ hlt hothers rfl)
      · rw [List.splitOn_eq_singleton hmem, List.mapM_cons] at h
        obtain ⟨a, ha, h⟩ := Option.bind_eq_some_iff.mp h
        obtain rfl := Option.some.inj h
        exact .last ⟨hmem, ha⟩
  · intro h
    induction h with
    | last h => rw [List.splitOn_eq_singleton h.1, List.mapM_cons, h.2]; rfl
    | more h _ ih =>
      rw [List.splitOn_append_cons_self_of_not_mem h.1, List.mapM_cons, h.2, ih]
      rfl

end Listed

end Text
end FilterForest
