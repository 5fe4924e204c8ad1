import FilterForest.Calendar.Reader
import FilterForest.Proofs.Calendar.Days
import FilterForest.Proofs.Text.Parts
import Mathlib.Algebra.Ring.Nat
import Mathlib.Data.List.Forall2

/-!
# Dates and times of day as texts

A date has one text, and no two dates share theirs. A stamp is a date and a time of day in
universal time. If the year has four digits, the stamp has the form of twenty characters in which
every part has its place; any other year is written with a sign, and then the stamp does not.
-/
namespace FilterForest

open Text

/-- How a stamp is laid out: a digit for each of the letters Y, M, D, H and S. -/
def stampForm : List Char := "YYYY-MM-DDTHH:MM:SSZ".toList

def digitMarks : List Char := ['Y', 'M', 'D', 'H', 'S']

/-- A character at the place of a mark: a digit for a letter that stands for one, else the mark
itself. -/
def FitsMark (mark c : Char) : Prop := if mark ∈ digitMarks then c.isDigit = true else c = mark

instance (mark c : Char) : Decidable (FitsMark mark c) :=
  inferInstanceAs (Decidable (if mark ∈ digitMarks then c.isDigit = true else c = mark))

/-- Texts of the form `YYYY-MM-DDTHH:MM:SSZ`. -/
def IsStamp (s : List Char) : Prop := List.Forall₂ FitsMark stampForm s

instance (s : List Char) : Decidable (IsStamp s) :=
  inferInstanceAs (Decidable (List.Forall₂ FitsMark stampForm s))

namespace Date

section padded

variable {width n : ℕ}

theorem isDigit_of_mem_padded {c : Char} (h : c ∈ padded width n) : c.isDigit = true := by
  rcases List.mem_append.mp h with hzero | hdigit
  · rw [List.eq_of_mem_replicate hzero]
    rfl
  · exact Decimal.isDigit_of_mem_digits hdigit

theorem length_padded (hwidth : 0 < width) (h : n < 10 ^ width) :
    (padded width n).length = width := by
  have hle : (Decimal.digits n).length ≤ width :=
    (Nat.length_toDigits_le_iff (by decide) hwidth).mpr h
  rw [padded, List.length_append, List.length_replicate, Nat.sub_add_cancel hle]

theorem ofDigitChars_padded (width n : ℕ) : Nat.ofDigitChars 10 (padded width n) 0 = n := by
  rw [padded, Nat.ofDigitChars_append, Nat.ofDigitChars_replicate_zero, Nat.mul_zero,
    Decimal.ofDigitChars_digits]

theorem padded_injective (width : ℕ) : Function.Injective (padded width) :=
  Function.LeftInverse.injective (ofDigitChars_padded width)

/-- A number of so many digits is read back, and the rest is left. -/
theorem takeExactly_padded (hwidth : 0 < width) (h : n < 10 ^ width) (rest : List Char) :
    Moment.takeExactly width (padded width n ++ rest) = some (n, rest) := by
  have hlength := length_padded hwidth h
  have hdigits : (padded width n).all Char.isDigit = true :=
    List.all_eq_true.mpr fun _ => isDigit_of_mem_padded
  simp only [Moment.takeExactly]
  rw [List.take_left' hlength, List.drop_left' hlength, ofDigitChars_padded, hlength, hdigits]
  simp

theorem forall₂_padded (hwidth : 0 < width) (h : n < 10 ^ width) {mark : Char}
    (hmark : mark ∈ digitMarks) :
    List.Forall₂ FitsMark (List.replicate width mark) (padded width n) := by
  refine List.forall₂_iff_zip.mpr ⟨by rw [List.length_replicate, length_padded hwidth h], ?_⟩
  intro m c hmem
  obtain ⟨hm, hc⟩ := List.of_mem_zip hmem
  rw [List.eq_of_mem_replicate hm, FitsMark, if_pos hmark]
  exact isDigit_of_mem_padded hc

end padded

/-- The dates whose year is written as four digits. -/
def HasPlainYear (d : Date) : Prop := 0 ≤ d.year ∧ d.year ≤ 9999

instance (d : Date) : Decidable d.HasPlainYear :=
  inferInstanceAs (Decidable (0 ≤ d.year ∧ d.year ≤ 9999))

theorem HasPlainYear.natAbs_lt {d : Date} (h : d.HasPlainYear) : d.year.natAbs < 10 ^ 4 := by
  unfold HasPlainYear at h
  omega

/-- The sign in front of a year that is not plain. -/
def yearSign (year : ℤ) : Char := if year < 0 then '-' else '+'

theorem isDigit_yearSign (year : ℤ) : (yearSign year).isDigit = false := by
  unfold yearSign
  split <;> rfl

theorem yearText_of_plain {year : ℤ} (h : 0 ≤ year ∧ year ≤ 9999) :
    yearText year = padded 4 year.natAbs := if_pos h

theorem yearText_of_signed {year : ℤ} (h : ¬(0 ≤ year ∧ year ≤ 9999)) :
    yearText year = yearSign year :: padded 4 year.natAbs := if_neg h

theorem yearText_injective : Function.Injective yearText := by
  have hsign : ∀ {y z : ℤ} {s : List Char}, padded 4 y.natAbs ≠ yearSign z :: s := by
    intro y z s heq
    have hmem : yearSign z ∈ padded 4 y.natAbs := heq ▸ List.mem_cons_self
    exact Bool.false_ne_true ((isDigit_yearSign z).symm.trans (isDigit_of_mem_padded hmem))
  intro y z heq
  by_cases hy : 0 ≤ y ∧ y ≤ 9999 <;> by_cases hz : 0 ≤ z ∧ z ≤ 9999
  · rw [yearText_of_plain hy, yearText_of_plain hz] at heq
    have := padded_injective 4 heq
    omega
  · rw [yearText_of_plain hy, yearText_of_signed hz] at heq
    exact absurd heq hsign
  · rw [yearText_of_signed hy, yearText_of_plain hz] at heq
    exact absurd heq.symm hsign
  · rw [yearText_of_signed hy, yearText_of_signed hz] at heq
    obtain ⟨hhead, htail⟩ := List.cons.inj heq
    have := padded_injective 4 htail
    unfold yearSign at hhead
    split at hhead <;> split at hhead <;> first | contradiction | omega

theorem day_lt (d : Date) : d.day < 10 ^ 2 := by
  have hle := d.day_le
  have hdays : daysInMonth d.year d.month ≤ 31 := by
    unfold daysInMonth
    split
    · split <;> decide
    all_goals decide
  omega

theorem month_lt (d : Date) : d.month < 10 ^ 2 := by
  have := d.month_range
  omega

theorem forall₂_text {d : Date} (h : d.HasPlainYear) :
    List.Forall₂ FitsMark "YYYY-MM-DD".toList d.text := by
  have hyear : List.Forall₂ FitsMark (List.replicate 4 'Y') (padded 4 d.year.natAbs) :=
    forall₂_padded (by decide) h.natAbs_lt (by decide)
  have hmonth : List.Forall₂ FitsMark (List.replicate 2 'M') (padded 2 d.month) :=
    forall₂_padded (by decide) d.month_lt (by decide)
  have hday : List.Forall₂ FitsMark (List.replicate 2 'D') (padded 2 d.day) :=
    forall₂_padded (by decide) d.day_lt (by decide)
  have hhyphen : FitsMark '-' '-' := by decide
  have hform : "YYYY-MM-DD".toList = List.replicate 4 'Y' ++ '-' :: List.replicate 2 'M' ++
      '-' :: List.replicate 2 'D' := by decide
  rw [text, yearText_of_plain h, hform]
  exact List.rel_append (List.rel_append hyear (.cons hhyphen hmonth)) (.cons hhyphen hday)

theorem text_injective : Function.Injective text := by
  intro d e heq
  have hlength : ∀ d : Date, ('-' :: padded 2 d.day).length = 3 := fun d => by
    rw [List.length_cons, length_padded (by decide) d.day_lt]
  have hlength' : ∀ d : Date, ('-' :: padded 2 d.month).length = 3 := fun d => by
    rw [List.length_cons, length_padded (by decide) d.month_lt]
  unfold text at heq
  obtain ⟨hfront, hday⟩ := List.append_inj' heq (by rw [hlength, hlength])
  obtain ⟨hyear, hmonth⟩ := List.append_inj' hfront (by rw [hlength', hlength'])
  exact eq_of_parts (yearText_injective hyear) (padded_injective 2 (List.cons.inj hmonth).2)
    (padded_injective 2 (List.cons.inj hday).2)

theorem mem_text {d : Date} {c : Char} (h : c ∈ d.text) :
    c.isDigit = true ∨ c = '-' ∨ c = '+' := by
  have hyear : c ∈ yearText d.year → c.isDigit = true ∨ c = '-' ∨ c = '+' := by
    unfold yearText
    intro hc
    split at hc
    · exact .inl (isDigit_of_mem_padded hc)
    · rcases List.mem_cons.mp hc with rfl | hc
      · split <;> simp
      · exact .inl (isDigit_of_mem_padded hc)
  simp only [text, List.mem_append, List.mem_cons] at h
  rcases h with (h | h | h) | h | h
  · exact hyear h
  · exact .inr (.inl h)
  · exact .inl (isDigit_of_mem_padded h)
  · exact .inr (.inl h)
  · exact .inl (isDigit_of_mem_padded h)

end Date

namespace Clock

/-- The last second of a day. -/
def lastSecond : Clock := ⟨23, 59, 59, by decide, by decide, by decide⟩

theorem mem_text {c : Clock} {x : Char} (h : x ∈ c.text) : x.isDigit = true ∨ x = ':' := by
  simp only [text, List.mem_append, List.mem_cons] at h
  rcases h with (h | h | h) | h | h
  · exact .inl (Date.isDigit_of_mem_padded h)
  · exact .inr h
  · exact .inl (Date.isDigit_of_mem_padded h)
  · exact .inr h
  · exact .inl (Date.isDigit_of_mem_padded h)

theorem hour_lt_width (c : Clock) : c.hour < 10 ^ 2 := Nat.lt_trans c.hour_lt (by decide)

theorem minute_lt_width (c : Clock) : c.minute < 10 ^ 2 := Nat.lt_trans c.minute_lt (by decide)

theorem second_lt_width (c : Clock) : c.second < 10 ^ 2 :=
  Nat.lt_of_le_of_lt c.second_le (by decide)

theorem forall₂_text (c : Clock) : List.Forall₂ FitsMark "HH:MM:SS".toList c.text := by
  have hhour : List.Forall₂ FitsMark (List.replicate 2 'H') (Date.padded 2 c.hour) :=
    Date.forall₂_padded (by decide) c.hour_lt_width (by decide)
  have hminute : List.Forall₂ FitsMark (List.replicate 2 'M') (Date.padded 2 c.minute) :=
    Date.forall₂_padded (by decide) c.minute_lt_width (by decide)
  have hsecond : List.Forall₂ FitsMark (List.replicate 2 'S') (Date.padded 2 c.second) :=
    Date.forall₂_padded (by decide) c.second_lt_width (by decide)
  have hcolon : FitsMark ':' ':' := by decide
  have hform : "HH:MM:SS".toList = List.replicate 2 'H' ++ ':' :: List.replicate 2 'M' ++
      ':' :: List.replicate 2 'S' := by decide
  rw [text, hform]
  exact List.rel_append (List.rel_append hhour (.cons hcolon hminute)) (.cons hcolon hsecond)

end Clock

namespace Moment

/-- A date and a time of day as universal time is written. -/
def stamp (d : Date) (c : Clock) : List Char := d.text ++ 'T' :: c.text ++ ['Z']

variable (d : Date) (c : Clock)

theorem timestamp_eq_stamp (m : Moment) : m.timestamp = stamp m.utc.date m.utc.clock := rfl

theorem timestamp_universal : (universal d c).timestamp = stamp d c := by
  rw [timestamp_eq_stamp, utc_of_offset_eq_zero rfl]
  rfl

theorem startText_eq_stamp : d.startText = stamp d .midnight := by
  have htime : 'T' :: Clock.midnight.text ++ ['Z'] = "T00:00:00Z".toList := by decide
  rw [Date.startText, ← htime, stamp, List.append_assoc]

theorem endText_eq_stamp : d.endText = stamp d .lastSecond := by
  have htime : 'T' :: Clock.lastSecond.text ++ ['Z'] = "T23:59:59Z".toList := by decide
  rw [Date.endText, ← htime, stamp, List.append_assoc]

/-- The date of a stamp stands in front of its first letter. -/
theorem takeWhile_stamp : (stamp d c).takeWhile (· ≠ 'T') = d.text := by
  have hletter : ∀ x ∈ d.text, decide (x ≠ 'T') = true := by
    intro x hx
    rcases Date.mem_text hx with h | rfl | rfl
    · refine decide_eq_true ?_
      rintro rfl
      contradiction
    all_goals rfl
  rw [stamp, List.append_assoc, List.takeWhile_append_of_pos hletter]
  simp

theorem isSolid_stamp : IsSolid (stamp d c) := by
  intro x hx
  simp only [stamp, List.mem_append, List.mem_cons, List.not_mem_nil, or_false] at hx
  rcases hx with (hx | rfl | hx) | rfl
  · rcases Date.mem_text hx with h | rfl | rfl
    · exact isBlank_of_isDigit h
    all_goals rfl
  · rfl
  · rcases Clock.mem_text hx with h | rfl
    · exact isBlank_of_isDigit h
    · rfl
  · rfl

theorem trim_stamp : trim (stamp d c) = stamp d c := by
  have htrim := trim_between_gaps isGap_nil (isSolid_stamp d c) (by simp [stamp]) isGap_nil
  rwa [List.append_nil, List.nil_append] at htrim

/-- A stamp has its form exactly if its year has four digits. -/
theorem isStamp_stamp_iff : IsStamp (stamp d c) ↔ d.HasPlainYear := by
  refine ⟨fun h => ?_, fun hplain => ?_⟩
  · by_contra hsigned
    rw [stamp, Date.text, Date.yearText_of_signed hsigned] at h
    obtain ⟨hhead, -⟩ := List.forall₂_cons.mp h
    exact Bool.false_ne_true ((Date.isDigit_yearSign d.year).symm.trans hhead)
  · have hdate := Date.forall₂_text hplain
    have htime := c.forall₂_text
    have hletters : FitsMark 'T' 'T' ∧ FitsMark 'Z' 'Z' := by decide
    exact List.rel_append (List.rel_append hdate (.cons hletters.1 htime)) (.cons hletters.2 .nil)

end Moment
end FilterForest
