import FilterForest.Proofs.Calendar.Written
import Mathlib.Data.List.Induction

/-!
# What the readers of moments take

A reader of a part takes it from the start of a text and leaves the end of it. Dates and times of
day end in a digit. So a text that ends in a letter is no moment without an offset, and at the end
of a moment with an offset that offset is written.
-/
namespace FilterForest

open Text

/-- How an offset in minutes is written: a letter for universal time itself, else a sign with hours
and minutes. -/
inductive WritesOffset : List Char → ℤ → Prop
  | universal {letter : Char} (hletter : letter = 'Z' ∨ letter = 'z') : WritesOffset [letter] 0
  | ahead {hours minutes : ℕ} (hhours : hours < 24) (hminutes : minutes < 60) :
    WritesOffset ('+' :: Date.padded 2 hours ++ ':' :: Date.padded 2 minutes)
      (60 * hours + minutes)
  | behind {sign : Char} {hours minutes : ℕ} (hsign : sign = '-' ∨ sign = '\u2212')
    (hhours : hours < 24) (hminutes : minutes < 60) :
    WritesOffset (sign :: Date.padded 2 hours ++ ':' :: Date.padded 2 minutes)
      (-(60 * hours + minutes))

/-- The texts of the first form, which has an offset at its end. -/
def Carries (s : List Char) (offset : ℤ) : Prop :=
  (Moment.ofRfc3339? (trim s)).isSome = true ∧
    ∃ written, written <:+ trim s ∧ WritesOffset written offset

namespace Date

theorem exists_of_isDigit {c : Char} (h : c.isDigit = true) :
    ∃ n < 10, c.toNat = 48 + n ∧ c.toNat - '0'.toNat = n := by
  have hzero : '0'.toNat = 48 := rfl
  have hnine : '9'.toNat = 57 := rfl
  have hrange := Char.isDigit_iff_toNat.mp h
  exact ⟨c.toNat - '0'.toNat, by omega, by omega, rfl⟩

theorem ofDigitChars_concat (s : List Char) (c : Char) :
    Nat.ofDigitChars 10 (s ++ [c]) 0 = 10 * Nat.ofDigitChars 10 s 0 + (c.toNat - '0'.toNat) := by
  rw [Nat.ofDigitChars_append, Nat.ofDigitChars_cons, Nat.ofDigitChars_nil]

theorem ofDigitChars_lt {s : List Char} (h : ∀ c ∈ s, c.isDigit = true) :
    Nat.ofDigitChars 10 s 0 < 10 ^ s.length := by
  induction s using List.reverseRecOn with
  | nil => simp
  | append_singleton s c ih =>
    have hs := ih fun d hd => h d (List.mem_append_left _ hd)
    obtain ⟨n, hn, -, hc⟩ := exists_of_isDigit (h c (by simp))
    rw [ofDigitChars_concat, hc, List.length_append, List.length_singleton, Nat.pow_succ]
    omega

/-- Digits are known by their number and the number they stand for. -/
theorem eq_of_ofDigitChars_eq {s t : List Char} (hs : ∀ c ∈ s, c.isDigit = true)
    (ht : ∀ c ∈ t, c.isDigit = true) (hlength : s.length = t.length)
    (h : Nat.ofDigitChars 10 s 0 = Nat.ofDigitChars 10 t 0) : s = t := by
  -- From the end: a number is ten times the number in front of its last digit, and that digit.
  induction s using List.reverseRecOn generalizing t with
  | nil => exact (List.eq_nil_of_length_eq_zero hlength.symm).symm
  | append_singleton s c ih =>
    rcases t.eq_nil_or_concat' with rfl | ⟨t, d, rfl⟩
    · simp at hlength
    · rw [ofDigitChars_concat, ofDigitChars_concat] at h
      obtain ⟨m, hm, hcode, hc⟩ := exists_of_isDigit (hs c (by simp))
      obtain ⟨n, hn, hcode', hd⟩ := exists_of_isDigit (ht d (by simp))
      obtain rfl : s = t := ih (fun x hx => hs x (by simp [hx])) (fun x hx => ht x (by simp [hx]))
        (by simpa using hlength) (by omega)
      obtain rfl : c = d := Char.toNat_inj.mp (by omega)
      rfl

end Date

namespace Moment

theorem eq_padded_append_of_takeExactly {width n : ℕ} {s rest : List Char} (hwidth : 0 < width)
    (h : takeExactly width s = some (n, rest)) :
    s = Date.padded width n ++ rest ∧ n < 10 ^ width := by
  simp only [takeExactly] at h
  split at h
  · next hdigits =>
    obtain ⟨rfl, rfl⟩ := Prod.mk.inj (Option.some.inj h)
    simp only [Bool.and_eq_true, decide_eq_true_eq, List.all_eq_true] at hdigits
    obtain ⟨hlength, hdigit⟩ := hdigits
    have hlt := Date.ofDigitChars_lt hdigit
    rw [hlength] at hlt
    have hpadded : Date.padded width (Nat.ofDigitChars 10 (s.take width) 0) = s.take width :=
      Date.eq_of_ofDigitChars_eq (fun _ => Date.isDigit_of_mem_padded) hdigit
        (by rw [Date.length_padded hwidth hlt, hlength]) (Date.ofDigitChars_padded _ _)
    exact ⟨by rw [hpadded, List.take_append_drop], hlt⟩
  · contradiction

section suffixes

variable {α β : Type} {s rest : List Char}

/-- Readers of parts that end in a digit. -/
def EndsInDigit (take : Taking α) : Prop :=
  ∀ ⦃s a rest⦄, take s = some (a, rest) → ∃ c, c.isDigit = true ∧ c :: rest <:+ s

theorem EndsInDigit.suffix {take : Taking α} (htake : EndsInDigit take) {a : α}
    (h : take s = some (a, rest)) : rest <:+ s := by
  obtain ⟨c, -, hsuffix⟩ := htake h
  exact (List.suffix_cons c rest).trans hsuffix

theorem EndsInDigit.map {take : Taking α} (htake : EndsInDigit take) (f : α → β) :
    EndsInDigit fun s => (take s).map fun taken => (f taken.1, taken.2) := by
  intro s b rest h
  obtain ⟨⟨a, rest⟩, ha, heq⟩ := Option.map_eq_some_iff.mp h
  obtain ⟨-, rfl⟩ := Prod.mk.inj heq
  exact htake ha

theorem exists_digit_suffix {digits : List Char} (hne : digits ≠ [])
    (h : ∀ c ∈ digits, c.isDigit = true) (rest : List Char) :
    ∃ c, c.isDigit = true ∧ c :: rest <:+ digits ++ rest := by
  rcases digits.eq_nil_or_concat' with rfl | ⟨front, c, rfl⟩
  · contradiction
  · exact ⟨c, h c (by simp), front, by simp⟩

theorem endsInDigit_takeUpTo (most : ℕ) : EndsInDigit (takeUpTo most) := by
  intro s n rest h
  simp only [takeUpTo] at h
  split at h
  · contradiction
  · next hne =>
    obtain ⟨-, rfl⟩ := Prod.mk.inj (Option.some.inj h)
    have hprefix : (s.take most).takeWhile Char.isDigit <+: s :=
      (List.takeWhile_prefix _).trans (List.take_prefix _ _)
    obtain ⟨c, hc, hsuffix⟩ := exists_digit_suffix (fun hnil => hne (List.isEmpty_iff.mpr hnil))
      (List.all_eq_true.mp List.all_takeWhile) (s.drop _)
    refine ⟨c, hc, ?_⟩
    rwa [List.prefix_iff_eq_append.mp hprefix] at hsuffix

theorem endsInDigit_takeExactly {count : ℕ} (hcount : 0 < count) :
    EndsInDigit (takeExactly count) := by
  intro s n rest h
  obtain ⟨rfl, hlt⟩ := eq_padded_append_of_takeExactly hcount h
  refine exists_digit_suffix ?_ (fun _ => Date.isDigit_of_mem_padded) rest
  rw [← List.length_pos_iff, Date.length_padded hcount hlt]
  exact hcount

theorem endsInDigit_takeAll : EndsInDigit takeAll := fun _ _ _ h => endsInDigit_takeUpTo _ h

theorem trimStart_suffix (s : List Char) : trimStart s <:+ s := List.dropWhile_suffix _

theorem endsInDigit_takeField : EndsInDigit takeField := by
  intro s n rest h
  obtain ⟨c, hc, hsuffix⟩ := endsInDigit_takeUpTo 2 h
  exact ⟨c, hc, hsuffix.trans (trimStart_suffix s)⟩

theorem endsInDigit_takeYear : EndsInDigit takeYear := by
  intro s n rest h
  have hsigned : ∀ {sign : Char} {digits : List Char} {f : ℕ → ℤ}, trimStart s = sign :: digits →
      ((takeAll digits).map fun taken => (f taken.1, taken.2)) = some (n, rest) →
      ∃ c, c.isDigit = true ∧ c :: rest <:+ s := by
    intro sign digits f hs hdigits
    obtain ⟨c, hc, hsuffix⟩ := endsInDigit_takeAll.map f hdigits
    have hdigits' : digits <:+ s := (hs ▸ List.suffix_cons sign digits).trans (trimStart_suffix s)
    exact ⟨c, hc, hsuffix.trans hdigits'⟩
  unfold takeYear at h
  split at h
  · next hs => exact hsigned (f := fun n => -(n : ℤ)) hs h
  · next hs => exact hsigned (f := fun n => (n : ℤ)) hs h
  · obtain ⟨c, hc, hsuffix⟩ := (endsInDigit_takeUpTo 4).map Nat.cast h
    exact ⟨c, hc, hsuffix.trans (trimStart_suffix s)⟩

theorem exists_cons_of_expect {accepted : Char → Bool} (h : expect accepted s = some rest) :
    ∃ c, accepted c = true ∧ s = c :: rest := by
  cases s with
  | nil => contradiction
  | cons c s =>
    rw [expect] at h
    split at h
    · next hc =>
      obtain rfl := Option.some.inj h
      exact ⟨c, hc, rfl⟩
    · contradiction

theorem expect_suffix {accepted : Char → Bool} (h : expect accepted s = some rest) :
    rest <:+ s := by
  obtain ⟨c, -, rfl⟩ := exists_cons_of_expect h
  exact List.suffix_cons c rest

theorem endsInDigit_takeDate {year : Taking ℤ} {field : Taking ℕ} (hyear : EndsInDigit year)
    (hfield : EndsInDigit field) : EndsInDigit (takeDate year field) := by
  intro s d rest h
  simp only [takeDate, Option.bind_eq_bind, Option.bind_eq_some_iff, Prod.exists] at h
  obtain ⟨y, s₁, h₁, s₂, h₂, m, s₃, h₃, s₄, h₄, day, s₅, h₅, date, -, heq⟩ := h
  obtain ⟨-, rfl⟩ := Prod.mk.inj (Option.some.inj heq)
  obtain ⟨c, hc, hsuffix⟩ := hfield h₅
  have hmonth := (expect_suffix h₄).trans (hfield.suffix h₃)
  have hstart := (expect_suffix h₂).trans (hyear.suffix h₁)
  exact ⟨c, hc, hsuffix.trans (hmonth.trans hstart)⟩

theorem endsInDigit_takeClock {field : Taking ℕ} (hfield : EndsInDigit field) :
    EndsInDigit (takeClock field) := by
  intro s d rest h
  simp only [takeClock, Option.bind_eq_bind, Option.bind_eq_some_iff, Prod.exists] at h
  obtain ⟨hour, s₁, h₁, s₂, h₂, minute, s₃, h₃, s₄, h₄, second, s₅, h₅, clock, -, heq⟩ := h
  obtain ⟨-, rfl⟩ := Prod.mk.inj (Option.some.inj heq)
  obtain ⟨c, hc, hsuffix⟩ := hfield h₅
  have hminute := (expect_suffix h₄).trans (hfield.suffix h₃)
  have hstart := (expect_suffix h₂).trans (hfield.suffix h₁)
  exact ⟨c, hc, hsuffix.trans (hminute.trans hstart)⟩

theorem dropFraction_suffix (h : dropFraction s = some rest) : rest <:+ s := by
  unfold dropFraction at h
  split at h
  · obtain ⟨⟨n, rest⟩, hn, rfl⟩ := Option.map_eq_some_iff.mp h
    exact (endsInDigit_takeAll.suffix hn).trans (List.suffix_cons _ _)
  · obtain rfl := Option.some.inj h
    exact List.suffix_rfl

theorem exists_cons_of_takeOffsetSign {negative : Bool}
    (h : takeOffsetSign s = some (negative, rest)) :
    ∃ sign, s = sign :: rest ∧ if negative then sign = '-' ∨ sign = '\u2212' else sign = '+' := by
  unfold takeOffsetSign at h
  split at h
  · obtain ⟨rfl, rfl⟩ := Prod.mk.inj (Option.some.inj h)
    exact ⟨'+', rfl, rfl⟩
  · obtain ⟨rfl, rfl⟩ := Prod.mk.inj (Option.some.inj h)
    exact ⟨'-', rfl, .inl rfl⟩
  · obtain ⟨rfl, rfl⟩ := Prod.mk.inj (Option.some.inj h)
    exact ⟨'\u2212', rfl, .inr rfl⟩
  · contradiction

theorem exists_append_of_takeOffset {offset : ℤ} (h : takeOffset s = some (offset, rest)) :
    ∃ written, s = written ++ rest ∧ WritesOffset written offset := by
  unfold takeOffset at h
  split at h
  · next hletter =>
    obtain ⟨rfl, rfl⟩ := Prod.mk.inj (Option.some.inj h)
    obtain ⟨letter, haccepted, rfl⟩ := exists_cons_of_expect hletter
    exact ⟨[letter], rfl, .universal (by simpa using haccepted)⟩
  · simp only [Option.bind_eq_bind, Option.bind_eq_some_iff, Prod.exists] at h
    obtain ⟨negative, s₁, h₁, hours, s₂, h₂, s₃, h₃, minutes, s₄, h₄, hend⟩ := h
    obtain ⟨sign, rfl, hsign⟩ := exists_cons_of_takeOffsetSign h₁
    obtain ⟨rfl, -⟩ := eq_padded_append_of_takeExactly (by decide) h₂
    obtain ⟨colon, hcolon, rfl⟩ := exists_cons_of_expect h₃
    obtain ⟨rfl, -⟩ := eq_padded_append_of_takeExactly (by decide) h₄
    obtain rfl : colon = ':' := of_decide_eq_true hcolon
    split at hend
    · next hrange =>
      obtain ⟨rfl, rfl⟩ := Prod.mk.inj (Option.some.inj hend)
      refine ⟨sign :: Date.padded 2 hours ++ ':' :: Date.padded 2 minutes, by simp, ?_⟩
      cases negative with
      | true => exact .behind hsign hrange.1 hrange.2
      | false => exact hsign ▸ .ahead hrange.1 hrange.2
    · contradiction

theorem eq_of_suffix {c d : Char} (hc : [c] <:+ s) (hd : [d] <:+ s) : c = d := by
  obtain ⟨front, rfl⟩ := hc
  obtain ⟨front', heq⟩ := hd
  exact (List.cons.inj (List.append_inj' heq rfl).2).1.symm

end suffixes

variable {s : List Char} {m : Moment}

theorem exists_parts_of_ofRfc3339? (h : ofRfc3339? s = some m) :
    ∃ s₁ s₂ s₃ s₄,
      takeDate (fun s => (takeExactly 4 s).map fun (n, rest) => ((n : ℤ), rest)) (takeExactly 2) s =
        some (m.date, s₁) ∧
      expect (fun c => c = 'T' || c = 't' || c = ' ') s₁ = some s₂ ∧
      takeClock (takeExactly 2) s₂ = some (m.clock, s₃) ∧ dropFraction s₃ = some s₄ ∧
      takeOffset s₄ = some (m.offset, []) := by
  simp only [ofRfc3339?, Option.bind_eq_bind, Option.bind_eq_some_iff, Prod.exists] at h
  obtain ⟨d, s₁, h₁, s₂, h₂, c, s₃, h₃, s₄, h₄, offset, s₅, h₅, hend⟩ := h
  split at hend
  · next hnil =>
    obtain rfl := Option.some.inj hend
    exact ⟨s₁, s₂, s₃, s₄, h₁, h₂, h₃, h₄, hnil.1 ▸ h₅⟩
  · contradiction

theorem exists_parts_of_ofLocal? (h : ofLocal? s = some m) :
    m = universal m.date m.clock ∧ ∃ s₁ s₂, takeDate takeYear takeField s = some (m.date, s₁) ∧
      expect (· = 'T') s₁ = some s₂ ∧ takeClock takeField s₂ = some (m.clock, []) := by
  simp only [ofLocal?, Option.bind_eq_bind, Option.bind_eq_some_iff, Prod.exists] at h
  obtain ⟨d, s₁, h₁, s₂, h₂, c, s₃, h₃, hend⟩ := h
  split at hend
  · next hnil =>
    obtain rfl := Option.some.inj hend
    exact ⟨rfl, s₁, s₂, h₁, h₂, hnil ▸ h₃⟩
  · contradiction

theorem takeDate_of_ofDay? (h : ofDay? s = some m) :
    m = ofDate m.date ∧ takeDate takeYear takeField s = some (m.date, []) := by
  simp only [ofDay?, Option.bind_eq_bind, Option.bind_eq_some_iff, Prod.exists] at h
  obtain ⟨d, s₁, h₁, hend⟩ := h
  split at hend
  · next hnil =>
    obtain rfl := Option.some.inj hend
    exact ⟨rfl, hnil ▸ h₁⟩
  · contradiction

theorem exists_suffix_of_ofRfc3339? (h : ofRfc3339? s = some m) :
    ∃ written, written <:+ s ∧ WritesOffset written m.offset := by
  obtain ⟨s₁, s₂, s₃, s₄, h₁, h₂, h₃, h₄, h₅⟩ := exists_parts_of_ofRfc3339? h
  obtain ⟨written, hwritten, hwrites⟩ := exists_append_of_takeOffset h₅
  rw [List.append_nil] at hwritten
  have hpair : EndsInDigit (takeExactly 2) := endsInDigit_takeExactly (by decide)
  have hfour : EndsInDigit (takeExactly 4) := endsInDigit_takeExactly (by decide)
  have hdate := (endsInDigit_takeDate (hfour.map fun n => (n : ℤ)) hpair).suffix h₁
  have hclock := (endsInDigit_takeClock hpair).suffix h₃
  have hrest := (dropFraction_suffix h₄).trans (hclock.trans ((expect_suffix h₂).trans hdate))
  exact ⟨written, hwritten ▸ hrest, hwrites⟩

theorem exists_digit_of_ofRfc3339? (h : ofRfc3339? s = some m) :
    ∃ c rest, c.isDigit = true ∧ s = c :: rest := by
  obtain ⟨_, _, _, _, hdate, -⟩ := exists_parts_of_ofRfc3339? h
  simp only [takeDate, Option.bind_eq_bind, Option.bind_eq_some_iff, Option.map_eq_some_iff,
    Prod.exists] at hdate
  obtain ⟨-, -, ⟨n, rest, hyear, -⟩, -⟩ := hdate
  obtain ⟨rfl, hlt⟩ := eq_padded_append_of_takeExactly (by decide) hyear
  obtain ⟨c, digits, hdigits⟩ := List.exists_cons_of_length_pos
    ((Date.length_padded (by decide) hlt).symm ▸ (by decide : 0 < 4))
  exact ⟨c, digits ++ rest, Date.isDigit_of_mem_padded (hdigits ▸ List.mem_cons_self),
    by rw [hdigits]; rfl⟩

theorem exists_digit_suffix_of_ofLocal? (h : ofLocal? s = some m) :
    ∃ c, c.isDigit = true ∧ [c] <:+ s := by
  obtain ⟨-, s₁, s₂, h₁, h₂, h₃⟩ := exists_parts_of_ofLocal? h
  obtain ⟨c, hc, hsuffix⟩ := endsInDigit_takeClock endsInDigit_takeField h₃
  have hdate := (endsInDigit_takeDate endsInDigit_takeYear endsInDigit_takeField).suffix h₁
  exact ⟨c, hc, hsuffix.trans ((expect_suffix h₂).trans hdate)⟩

theorem exists_digit_suffix_of_ofDay? (h : ofDay? s = some m) :
    ∃ c, c.isDigit = true ∧ [c] <:+ s :=
  endsInDigit_takeDate endsInDigit_takeYear endsInDigit_takeField (takeDate_of_ofDay? h).2

/-- A text that starts and ends with other characters than digits is no moment. -/
theorem ofText?_of_signed {sign last : Char} {middle : List Char} (hsign : sign.isDigit = false)
    (hlast : last.isDigit = false) (htrim : trim s = sign :: middle ++ [last]) :
    ofText? s = none := by
  -- The first form starts with a digit, the two others end in one.
  have hend : ∀ {c : Char}, c.isDigit = true → ¬[c] <:+ sign :: middle ++ [last] := by
    intro c hc hsuffix
    obtain rfl := eq_of_suffix hsuffix (List.suffix_append _ [last])
    exact Bool.false_ne_true (hlast.symm.trans hc)
  have hoffset : ofRfc3339? (sign :: middle ++ [last]) = none := by
    refine Option.eq_none_iff_forall_ne_some.mpr fun m hm => ?_
    obtain ⟨c, rest, hc, heq⟩ := exists_digit_of_ofRfc3339? hm
    obtain rfl : sign = c := (List.cons.inj heq).1
    exact Bool.false_ne_true (hsign.symm.trans hc)
  have hlocal : ofLocal? (sign :: middle ++ [last]) = none := by
    refine Option.eq_none_iff_forall_ne_some.mpr fun m hm => ?_
    obtain ⟨c, hc, hsuffix⟩ := exists_digit_suffix_of_ofLocal? hm
    exact hend hc hsuffix
  have hday : ofDay? (sign :: middle ++ [last]) = none := by
    refine Option.eq_none_iff_forall_ne_some.mpr fun m hm => ?_
    obtain ⟨c, hc, hsuffix⟩ := exists_digit_suffix_of_ofDay? hm
    exact hend hc hsuffix
  simp only [ofText?, htrim, hoffset, hlocal, hday]
  rfl

end Moment

theorem WritesOffset.eq_zero_or_digit {written : List Char} {offset : ℤ}
    (h : WritesOffset written offset) : offset = 0 ∨ ∃ c, c.isDigit = true ∧ [c] <:+ written := by
  have hdigits : ∀ (front : List Char) {minutes : ℕ}, minutes < 60 →
      ∃ c, c.isDigit = true ∧ [c] <:+ front ++ ':' :: Date.padded 2 minutes := by
    intro front minutes hminutes
    have hlength : (Date.padded 2 minutes).length = 2 :=
      Date.length_padded (by decide) (Nat.lt_trans hminutes (by decide))
    have hne : Date.padded 2 minutes ≠ [] := List.ne_nil_of_length_eq_add_one hlength
    obtain ⟨c, hc, hsuffix⟩ :=
      Moment.exists_digit_suffix hne (fun _ => Date.isDigit_of_mem_padded) []
    rw [List.append_nil] at hsuffix
    exact ⟨c, hc, hsuffix.trans ((List.suffix_cons ':' _).trans (List.suffix_append front _))⟩
  cases h with
  | universal hletter => exact .inl rfl
  | ahead hhours hminutes => exact .inr (hdigits _ hminutes)
  | behind hsign hhours hminutes => exact .inr (hdigits _ hminutes)

/-- A text that ends in a letter carries no offset other than zero. -/
theorem eq_zero_of_carries {s : List Char} {offset : ℤ} {letter : Char} (h : Carries s offset)
    (hend : [letter] <:+ trim s) (hletter : letter.isDigit = false) : offset = 0 := by
  obtain ⟨-, written, hsuffix, hwrites⟩ := h
  rcases hwrites.eq_zero_or_digit with hzero | ⟨c, hc, hdigit⟩
  · exact hzero
  · obtain rfl := Moment.eq_of_suffix hend (hdigit.trans hsuffix)
    exact absurd (hletter.symm.trans hc) Bool.false_ne_true

end FilterForest
