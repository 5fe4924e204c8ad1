import FilterForest.Proofs.Calendar.Taken
import FilterForest.Proofs.Compile.Contributes

/-!
# The day and the timestamp of a text

Two readers try the same three forms of a moment. One keeps the day on the moment's own clock, the
other writes the stamp of universal time. They read the same texts, and their days are the same
for a moment without an offset and at most one apart for any other.
-/
namespace FilterForest

open Text

/-- The day that a text denotes, on its own clock. -/
def dayOf? (s : List Char) : Option Date :=
  match Moment.ofRfc3339? (trim s) with
  | some m => some m.date
  | none =>
    match Moment.ofLocal? (trim s) with
    | some m => some m.date
    | none => (Moment.ofDay? (trim s)).map Moment.date

/-- The stamp of the moment that a text denotes. What has no offset is taken as it stands. -/
def timestampOf? (s : List Char) : Option (List Char) :=
  match Moment.ofRfc3339? (trim s) with
  | some m => some (Moment.stamp m.utc.date m.utc.clock)
  | none =>
    match Moment.ofLocal? (trim s) with
    | some m => some (Moment.stamp m.date m.clock)
    | none => (Moment.ofDay? (trim s)).map fun m => Moment.stamp m.date .midnight

namespace Moment

theorem ofText?_eq_or (s : List Char) :
    ofText? s = (ofRfc3339? (trim s)).or ((ofLocal? (trim s)).or (ofDay? (trim s))) := rfl

theorem dayOf?_eq_map (s : List Char) : dayOf? s = (ofText? s).map date := by
  rw [dayOf?, ofText?_eq_or]
  cases ofRfc3339? (trim s) with
  | some m => rfl
  | none =>
    cases ofLocal? (trim s) with
    | some m => rfl
    | none => rfl

theorem timestampOf?_eq_map (s : List Char) : timestampOf? s = (ofText? s).map timestamp := by
  rw [timestampOf?, ofText?_eq_or]
  cases ofRfc3339? (trim s) with
  | some m => rfl
  | none =>
    cases hlocal : ofLocal? (trim s) with
    | some m =>
      -- Without an offset the moment is in universal time, and its own clock shows its stamp.
      have huniversal := (exists_parts_of_ofLocal? hlocal).1
      exact congrArg some (by rw [huniversal, timestamp_universal]; rfl)
    | none =>
      cases hday : ofDay? (trim s) with
      | some m =>
        have huniversal := (takeDate_of_ofDay? hday).1
        exact congrArg some (by rw [huniversal, ofDate, timestamp_universal]; rfl)
      | none => rfl

/-- A moment is in universal time unless another offset is written at the end of its text. -/
theorem offset_eq_zero {s : List Char} {m : Moment} (h : ofText? s = some m)
    (hzero : ∀ offset, Carries s offset → offset = 0) : m.offset = 0 := by
  rw [ofText?_eq_or] at h
  rcases Option.or_eq_some_iff.mp h with h | ⟨-, h⟩
  · exact hzero _ ⟨Option.isSome_of_eq_some h, exists_suffix_of_ofRfc3339? h⟩
  · rcases Option.or_eq_some_iff.mp h with h | ⟨-, h⟩
    · rw [(exists_parts_of_ofLocal? h).1]
      rfl
    · rw [(takeDate_of_ofDay? h).1]
      rfl

section stamps

variable (d : Date) (c : Clock)

theorem ofParts?_of_plain {d : Date} (h : d.HasPlainYear) :
    Date.ofParts? d.year d.month d.day = some d := by
  have hrange : Date.firstYear ≤ d.year ∧ d.year ≤ Date.lastYear :=
    ⟨le_trans (by decide) h.1, h.2.trans (by decide)⟩
  exact dif_pos ⟨hrange, d.day_pos, d.day_le⟩

theorem ofParts?_clock : Clock.ofParts? c.hour c.minute c.second = some c :=
  dif_pos ⟨c.hour_lt, c.minute_lt, c.second_le⟩

theorem takeDate_text {d : Date} (h : d.HasPlainYear) (rest : List Char) :
    takeDate (fun s => (takeExactly 4 s).map fun (n, rest) => ((n : ℤ), rest)) (takeExactly 2)
      (d.text ++ rest) = some (d, rest) := by
  have hyear : (d.year.natAbs : ℤ) = d.year := Int.natAbs_of_nonneg h.1
  simp [takeDate, Date.text, Date.yearText_of_plain h, expect, hyear, ofParts?_of_plain h,
    Date.takeExactly_padded _ h.natAbs_lt, Date.takeExactly_padded _ d.month_lt,
    Date.takeExactly_padded _ d.day_lt]

theorem takeClock_text (rest : List Char) :
    takeClock (takeExactly 2) (c.text ++ rest) = some (c, rest) := by
  simp [takeClock, Clock.text, expect, ofParts?_clock, Date.takeExactly_padded _ c.hour_lt_width,
    Date.takeExactly_padded _ c.minute_lt_width, Date.takeExactly_padded _ c.second_lt_width]

theorem ofRfc3339?_stamp {d : Date} (h : d.HasPlainYear) :
    ofRfc3339? (stamp d c) = some (universal d c) := by
  have hstamp : stamp d c = d.text ++ 'T' :: (c.text ++ ['Z']) := by simp [stamp]
  have hfraction : dropFraction ['Z'] = some ['Z'] := rfl
  have hoffset : takeOffset ['Z'] = some (0, []) := rfl
  rw [hstamp, ofRfc3339?, takeDate_text h, Option.bind_eq_bind, Option.bind_some]
  simp only [expect, decide_true, Bool.true_or, if_true, Option.bind_eq_bind, Option.bind_some,
    takeClock_text, hfraction, hoffset]
  rfl

/-- A stamp is read back exactly if its year has four digits. -/
theorem ofText?_stamp :
    ofText? (stamp d c) = if d.HasPlainYear then some (universal d c) else none := by
  split
  · next hplain => rw [ofText?_eq_or, trim_stamp, ofRfc3339?_stamp c hplain, Option.some_or]
  · next hsigned =>
    have hstamp : stamp d c = Date.yearSign d.year ::
        (Date.padded 4 d.year.natAbs ++ '-' :: Date.padded 2 d.month ++
          '-' :: Date.padded 2 d.day ++ 'T' :: c.text) ++ ['Z'] := by
      simp [stamp, Date.text, Date.yearText_of_signed hsigned]
    exact ofText?_of_signed (Date.isDigit_yearSign d.year) rfl ((trim_stamp d c).trans hstamp)

end stamps

end Moment

namespace AttributeFilter

variable {f : AttributeFilter}

theorem isSome_moment? (value : String) :
    (moment? value).isSome = (dayOf? value.toList).isSome := by
  rw [Moment.dayOf?_eq_map, Option.isSome_map]
  rfl

theorem valueCount_of_mem (h : f.condition ∈ [Condition.on, .after, .before]) :
    f.condition.valueCount = 1 := by
  simp only [List.mem_cons, List.not_mem_nil, or_false] at h
  rcases h with h | h | h <;> rw [h] <;> rfl

/-- A filter on moments or days contributes exactly if it has all the values that its condition
reads and a day is read off each of them. -/
theorem isSome_compile_iff_of_isTemporal (htype : f.type.isTemporal = true)
    (hcondition : f.condition ∈ [Condition.on, .between, .after, .before]) :
    f.compile.result.isSome = true ↔ f.condition.valueCount ≤ f.values.length ∧
      ∀ value ∈ f.values.take f.condition.valueCount, (dayOf? value.toList).isSome = true := by
  rw [isSome_result_compile_iff]
  simp only [← isSome_moment?]
  constructor
  · obtain ⟨type, htype⟩ := AttributeType.exists_of_isTemporal htype
    intro h
    cases h with
    | day _ hone hvalues hread => simp [valueCount_of_mem hone, hvalues, hread]
    | days _ hbetween hvalues hfirst hlast =>
      simp [hbetween, Condition.valueCount, hvalues, hfirst, hlast]
    | _ => simp_all [AttributeType.isNumeric]
  · rintro ⟨hlength, hread⟩
    by_cases hbetween : f.condition = .between
    · rw [hbetween] at hlength hread
      match hvalues : f.values, hlength with
      | first :: last :: rest, _ =>
        rw [hvalues] at hread
        exact .days htype hbetween hvalues (hread first (by simp [Condition.valueCount]))
          (hread last (by simp [Condition.valueCount]))
    · have hone : f.condition ∈ [Condition.on, .after, .before] := by simp_all
      rw [valueCount_of_mem hone] at hlength hread
      obtain ⟨value, rest, hvalues⟩ := List.exists_cons_of_length_pos hlength
      rw [hvalues] at hread
      exact .day htype hone hvalues (hread value List.mem_cons_self)

end AttributeFilter

/-- The two readers agree. A day is read off a text exactly if a timestamp is, and all the
conditions of filters on moments and days take the same values. The day in front of the letter T of
the timestamp is the day that is read, unless the text carries another offset than zero, and even
then the two are at most one day apart. -/
theorem dayOf?_agrees_timestampOf? :
    (∀ s, (dayOf? s).isSome = (timestampOf? s).isSome) ∧
    (∀ f : AttributeFilter, f.type.isTemporal = true →
      f.condition ∈ [Condition.on, .between, .after, .before] →
      (f.compile.result.isSome = true ↔ f.condition.valueCount ≤ f.values.length ∧
        ∀ value ∈ f.values.take f.condition.valueCount, (dayOf? value.toList).isSome = true)) ∧
    ∀ s d t, dayOf? s = some d → timestampOf? s = some t →
      ((∀ offset, Carries s offset → offset = 0) → t.takeWhile (· ≠ 'T') = d.text) ∧
      ∃ u : Date, t.takeWhile (· ≠ 'T') = u.text ∧
        (∀ v : Date, t.takeWhile (· ≠ 'T') = v.text → v = u) ∧
        (u.ordinal - d.ordinal).natAbs ≤ 1 := by
  refine ⟨fun s => ?_, fun f => AttributeFilter.isSome_compile_iff_of_isTemporal,
    fun s d t hd ht => ?_⟩
  · rw [Moment.dayOf?_eq_map, Moment.timestampOf?_eq_map, Option.isSome_map, Option.isSome_map]
  · rw [Moment.dayOf?_eq_map] at hd
    obtain ⟨m, hm, rfl⟩ := Option.map_eq_some_iff.mp hd
    rw [Moment.timestampOf?_eq_map, hm] at ht
    obtain rfl : m.timestamp = t := Option.some.inj ht
    have hdate : m.timestamp.takeWhile (· ≠ 'T') = m.utc.date.text := Moment.takeWhile_stamp _ _
    refine ⟨fun hzero => ?_, m.utc.date, hdate, fun v hv => ?_, m.natAbs_ordinal_utc_sub_le⟩
    · rw [hdate, Moment.utc_of_offset_eq_zero (Moment.offset_eq_zero hm hzero)]
      rfl
    · exact Date.text_injective (hv.symm.trans hdate)

/-- A filter on the days from a leap day to a moment that is on a leap day in universal time. -/
def leapDays : AttributeFilter :=
  (AttributeFilter.ofCondition "seen" (.temporal .date) .between).addValues
    ["2024-02-29", "2024-03-01T00:30:00+01:00"]

/-- The second 60 of a minute in universal time. -/
def leapSecond : List Char := " 2016-12-31t23:59:60.5z".toList

def firstOfMarch : Date := (Date.ofParts? 2024 3 1).get rfl

theorem dayOf?_agrees_timestampOf?_leap :
    leapDays.compile.result.isSome = true ∧
    "2016-12-31T23:59:60Z".toList.takeWhile (· ≠ 'T') = "2016-12-31".toList ∧
    ∃ u : Date, "2024-02-29T23:30:00Z".toList.takeWhile (· ≠ 'T') = u.text ∧
      (u.ordinal - firstOfMarch.ordinal).natAbs ≤ 1 := by
  obtain ⟨-, hfilters, hdays⟩ := dayOf?_agrees_timestampOf?
  refine ⟨(hfilters leapDays rfl (by decide)).mpr (by decide), ?_, ?_⟩
  · have hzero : ∀ offset, Carries leapSecond offset → offset = 0 := fun _ h =>
      eq_zero_of_carries h (by decide : ['z'] <:+ trim leapSecond) rfl
    exact (hdays leapSecond ⟨2016, 12, 31, by decide, by decide⟩ "2016-12-31T23:59:60Z".toList
      (by decide) (by decide)).1 hzero
  · obtain ⟨u, hu, -, hnear⟩ := (hdays "2024-03-01T00:30:00+01:00".toList firstOfMarch
      "2024-02-29T23:30:00Z".toList (by decide) (by decide)).2
    exact ⟨u, hu, hnear⟩

/-- Emitted times have the form `YYYY-MM-DDTHH:MM:SSZ` and are read back as they are exactly if
their year has four digits: the timestamp by its year in universal time, the first and the last
second of a day by the year of the day. -/
theorem isStamp_iff_hasPlainYear {s : List Char} {m : Moment} (h : Moment.ofText? s = some m) :
    (timestampOf? s = some m.timestamp ∧
      (IsStamp m.timestamp ↔ m.utc.date.HasPlainYear) ∧
      timestampOf? m.timestamp = if m.utc.date.HasPlainYear then some m.timestamp else none) ∧
    dayOf? s = some m.date ∧
      ∀ bound ∈ [m.date.startText, m.date.endText],
        (IsStamp bound ↔ m.date.HasPlainYear) ∧
        dayOf? bound = if m.date.HasPlainYear then some m.date else none := by
  have hstamp : ∀ d c, timestampOf? (Moment.stamp d c) =
      if d.HasPlainYear then some (Moment.stamp d c) else none := by
    intro d c
    rw [Moment.timestampOf?_eq_map, Moment.ofText?_stamp]
    split
    · exact congrArg some (Moment.timestamp_universal d c)
    · rfl
  have hbound : ∀ d c, dayOf? (Moment.stamp d c) = if d.HasPlainYear then some d else none := by
    intro d c
    rw [Moment.dayOf?_eq_map, Moment.ofText?_stamp]
    split <;> rfl
  refine ⟨⟨?_, Moment.isStamp_stamp_iff _ _, hstamp _ _⟩, ?_, ?_⟩
  · rw [Moment.timestampOf?_eq_map, h, Option.map_some]
  · rw [Moment.dayOf?_eq_map, h, Option.map_some]
  · rw [Moment.startText_eq_stamp, Moment.endText_eq_stamp]
    exact List.forall_mem_cons.mpr ⟨⟨Moment.isStamp_stamp_iff _ _, hbound _ _⟩,
      List.forall_mem_singleton.mpr ⟨Moment.isStamp_stamp_iff _ _, hbound _ _⟩⟩

/-- The last second of the year 9999 on a clock an hour behind universal time. -/
def lastPlainSecond : Moment :=
  ⟨(Date.ofParts? 9999 12 31).get rfl, .lastSecond, -60, by decide⟩

theorem not_isStamp_lastPlainSecond :
    timestampOf? "9999-12-31T23:59:59-01:00".toList = some "+10000-01-01T00:59:59Z".toList ∧
      ¬IsStamp "+10000-01-01T00:59:59Z".toList ∧
      timestampOf? "+10000-01-01T00:59:59Z".toList = none ∧
      IsStamp "9999-12-31T00:00:00Z".toList := by
  have hread : Moment.ofText? "9999-12-31T23:59:59-01:00".toList = some lastPlainSecond := by
    decide
  have htext : lastPlainSecond.timestamp = "+10000-01-01T00:59:59Z".toList := by decide
  have hyear : ¬lastPlainSecond.utc.date.HasPlainYear := by decide
  obtain ⟨⟨htimestamp, hform, hagain⟩, -, hbounds⟩ := isStamp_iff_hasPlainYear hread
  rw [htext] at htimestamp hform hagain
  rw [if_neg hyear] at hagain
  refine ⟨htimestamp, fun h => hyear (hform.mp h), hagain, ?_⟩
  exact (hbounds lastPlainSecond.date.startText List.mem_cons_self).1.mpr (by decide)

end FilterForest
