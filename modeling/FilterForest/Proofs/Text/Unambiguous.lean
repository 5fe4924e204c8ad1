import Mathlib.Data.List.Forall2

/-!
# Unambiguous writing

A writing is unambiguous for two elements if they are the same as soon as they are written alike in
front of two rests, and the rests are the same then as well. What may follow an element is a part of
the notion: digits in front of a digit are ambiguous, digits in front of a comma are not. A list
with separators and a closing symbol is unambiguous if its elements are.
-/
namespace FilterForest
namespace Text

variable {σ α : Type}

section Runs

variable {p : σ → Bool} {s rest : List σ}

theorem takeWhile_append_of_head (hs : ∀ c ∈ s, p c = true)
    (hrest : ∀ c ∈ rest.head?, p c = false) : (s ++ rest).takeWhile p = s := by
  rw [List.takeWhile_append_of_pos hs]
  cases rest with
  | nil => simp
  | cons c rest => simp [hrest c rfl]

theorem dropWhile_append_of_head (hs : ∀ c ∈ s, p c = true)
    (hrest : ∀ c ∈ rest.head?, p c = false) : (s ++ rest).dropWhile p = rest := by
  rw [List.dropWhile_append_of_pos hs]
  cases rest with
  | nil => simp
  | cons c rest => simp [hrest c rfl]

theorem run_inj {s' rest' : List σ} (hs : ∀ c ∈ s, p c = true) (hs' : ∀ c ∈ s', p c = true)
    (hrest : ∀ c ∈ rest.head?, p c = false) (hrest' : ∀ c ∈ rest'.head?, p c = false)
    (h : s ++ rest = s' ++ rest') : s = s' ∧ rest = rest' := by
  constructor
  · rw [← takeWhile_append_of_head hs hrest, h, takeWhile_append_of_head hs' hrest']
  · rw [← dropWhile_append_of_head hs hrest, h, dropWhile_append_of_head hs' hrest']

theorem append_cons_inj {c : σ} {s' rest' : List σ} (hs : c ∉ s) (hs' : c ∉ s')
    (h : s ++ c :: rest = s' ++ c :: rest') : s = s' ∧ rest = rest' := by
  classical
  have hrun : ∀ {t : List σ}, c ∉ t → ∀ d ∈ t, decide (d ≠ c) = true :=
    fun ht d hd => decide_eq_true (ne_of_mem_of_not_mem hd ht)
  obtain ⟨hfront, hbehind⟩ := run_inj (hrun hs) (hrun hs') (by simp) (by simp) h
  exact ⟨hfront, (List.cons.inj hbehind).2⟩

end Runs

/-- Two elements that are written alike in front of allowed rests are the same, and so are the
rests. -/
def Unambiguous (write : α → List σ) (same : α → α → Prop) (stop : List σ → Prop) (a b : α) :
    Prop :=
  ∀ r s, stop r → stop s → write a ++ r = write b ++ s → same a b ∧ r = s

/-- Both a separator and a closing symbol may follow an element, and they are told apart. -/
structure Delimits (stop : List σ → Prop) (separator : List σ) (close : σ) : Prop where
  separated : ∀ r, stop (separator ++ r)
  closed : ∀ r, stop (close :: r)
  distinct : ∀ r s, separator ++ r ≠ close :: s

theorem intercalate_cons (separator s : List σ) (parts : List (List σ)) :
    separator.intercalate (s :: parts) = s ++ parts.flatMap (separator ++ ·) := by
  induction parts generalizing s with
  | nil => simp
  | cons t parts ih =>
    rw [List.intercalate_cons_cons, ih, List.flatMap_cons, List.append_assoc, List.append_assoc]

theorem map_eq_map_iff {β : Type} {f : α → β} {same : α → α → Prop} {as bs : List α}
    (h : ∀ a ∈ as, ∀ b ∈ bs, f a = f b ↔ same a b) :
    as.map f = bs.map f ↔ List.Forall₂ same as bs := by
  induction as generalizing bs with
  | nil => cases bs <;> simp
  | cons a as ih =>
    cases bs with
    | nil => simp
    | cons b bs =>
      rw [List.map_cons, List.map_cons, List.cons_eq_cons, List.forall₂_cons,
        h a List.mem_cons_self b List.mem_cons_self,
        ih fun a ha b hb => h a (List.mem_cons_of_mem _ ha) b (List.mem_cons_of_mem _ hb)]

theorem map_eq_map_iff_map_eq_map {β γ : Type} {f : α → β} {g : α → γ} {as bs : List α}
    (h : ∀ a b, f a = f b ↔ g a = g b) : as.map f = bs.map f ↔ as.map g = bs.map g := by
  rw [map_eq_map_iff fun a _ b _ => h a b, map_eq_map_iff fun _ _ _ _ => Iff.rfl]

variable {write : α → List σ} {same : α → α → Prop} {stop : List σ → Prop}
variable {separator : List σ} {close : σ} {as bs : List α} {r s : List σ}

/-- Elements after a separator each are read one by one up to the closing symbol. -/
theorem forall₂_of_flatMap (hdelimits : Delimits stop separator close)
    (h : ∀ a ∈ as, ∀ b ∈ bs, Unambiguous write same stop a b)
    (heq : as.flatMap (separator ++ write ·) ++ close :: r =
      bs.flatMap (separator ++ write ·) ++ close :: s) : List.Forall₂ same as bs ∧ r = s := by
  have hstop : ∀ (cs : List α) (t : List σ),
      stop (cs.flatMap (separator ++ write ·) ++ close :: t) := by
    intro cs t
    cases cs with
    | nil => exact hdelimits.closed t
    | cons c cs =>
      rw [List.flatMap_cons, List.append_assoc, List.append_assoc]
      exact hdelimits.separated _
  induction as generalizing bs with
  | nil =>
    cases bs with
    | nil => exact ⟨.nil, (List.cons.inj heq).2⟩
    | cons b bs =>
      rw [List.flatMap_cons, List.append_assoc, List.append_assoc] at heq
      exact absurd heq.symm (hdelimits.distinct _ _)
  | cons a as ih =>
    rw [List.flatMap_cons, List.append_assoc, List.append_assoc] at heq
    cases bs with
    | nil => exact absurd heq (hdelimits.distinct _ _)
    | cons b bs =>
      rw [List.flatMap_cons, List.append_assoc, List.append_assoc] at heq
      obtain ⟨hsame, hrest⟩ := h a List.mem_cons_self b List.mem_cons_self _ _ (hstop as r)
        (hstop bs s) (List.append_cancel_left heq)
      obtain ⟨hothers, hend⟩ := ih
        (fun a ha b hb => h a (List.mem_cons_of_mem _ ha) b (List.mem_cons_of_mem _ hb)) hrest
      exact ⟨.cons hsame hothers, hend⟩

/-- Elements between separators are read one by one up to the closing symbol. -/
theorem forall₂_of_intercalate (hdelimits : Delimits stop separator close)
    (hstart : ∀ a ∈ as, ∀ t t', write a ++ t ≠ close :: t')
    (hstart' : ∀ b ∈ bs, ∀ t t', write b ++ t ≠ close :: t')
    (h : ∀ a ∈ as, ∀ b ∈ bs, Unambiguous write same stop a b)
    (heq : separator.intercalate (as.map write) ++ close :: r =
      separator.intercalate (bs.map write) ++ close :: s) : List.Forall₂ same as bs ∧ r = s := by
  have hsplit : ∀ (c : α) (cs : List α) (t : List σ),
      separator.intercalate ((c :: cs).map write) ++ close :: t =
        write c ++ (cs.flatMap (separator ++ write ·) ++ close :: t) := by
    intro c cs t
    rw [List.map_cons, intercalate_cons, List.flatMap_map, List.append_assoc]
  cases as with
  | nil =>
    cases bs with
    | nil => exact ⟨.nil, (List.cons.inj heq).2⟩
    | cons b bs =>
      rw [hsplit] at heq
      exact absurd heq.symm (hstart' b List.mem_cons_self _ _)
  | cons a as =>
    rw [hsplit] at heq
    cases bs with
    | nil => exact absurd heq (hstart a List.mem_cons_self _ _)
    | cons b bs =>
      -- One more separator in front makes all elements alike.
      rw [hsplit] at heq
      apply forall₂_of_flatMap hdelimits h
      simp only [List.flatMap_cons, List.append_assoc, heq]

end Text
end FilterForest
