import Intake.Moment.Writer
import Intake.Proofs.Outcome

/-! A moment that was read can be written and read again. Its offset is nothing or a second at
least (`Moment.isReadable`): less would be dropped on the way back. -/
namespace Intake

namespace Text

variable {width n : Nat}

theorem length_zeroPadded (positive : 0 < width) (small : n < Nat.pow 10 width) :
    (zeroPadded width n).length = width := by
  have fits := (length_digits_le_iff positive).mpr small
  rw [zeroPadded, List.length_append, List.length_replicate]
  omega

theorem isDigit_of_mem_zeroPadded {c : Char} (member : c ∈ zeroPadded width n) :
    c.isDigit = true := by
  rcases List.mem_append.mp member with zero | digit
  · rw [List.eq_of_mem_replicate zero]
    rfl
  · exact Nat.isDigit_of_mem_toDigits (by decide) (by decide) digit

theorem digitsValue_zeroPadded (width n : Nat) : digitsValue (zeroPadded width n) = n := by
  change Nat.ofDigitChars 10 (List.replicate _ '0' ++ Nat.toDigits 10 n) 0 = n
  rw [Nat.ofDigitChars_append, Nat.ofDigitChars_replicate_zero, Nat.mul_zero,
    Nat.ofDigitChars_ten_toDigits]

theorem exists_zeroPadded_eq_cons (width n : Nat) :
    ∃ c cs, zeroPadded width n = c :: cs ∧ c.isDigit = true := by
  cases eq : zeroPadded width n with
  | nil => exact absurd (List.append_eq_nil_iff.mp eq).2 Nat.toDigits_ne_nil
  | cons c cs =>
    have member : c ∈ zeroPadded width n := by rw [eq]; exact List.mem_cons_self
    exact ⟨c, cs, rfl, isDigit_of_mem_zeroPadded member⟩

end Text

theorem Date.daysInMonth_le (year month : Nat) : daysInMonth year month ≤ 31 := by
  have all : ∀ length ∈ monthLengths year, length ≤ 31 := by
    simp only [monthLengths]
    split <;> decide
  rw [daysInMonth, List.getD_eq_getElem?_getD]
  cases found : (monthLengths year)[month - 1]? with
  | none => exact Nat.zero_le 31
  | some length => exact all length (List.mem_of_getElem? found)

theorem Clock.isValid_iff {c : Clock} : c.isValid = true ↔
    c.hour < 24 ∧ c.minute < 60 ∧ c.second < 60 ∧ c.microsecond < 1000000 := by
  simp only [isValid, Bool.and_eq_true, decide_eq_true_eq, and_assoc]

namespace Moment

open Text

theorem takeDigits?_zeroPadded {width n : Nat} (positive : 0 < width) (small : n < Nat.pow 10 width)
    (rest : List Char) : takeDigits? width (zeroPadded width n ++ rest) = some (n, rest) := by
  have size := length_zeroPadded positive small
  have digits : (zeroPadded width n).all Char.isDigit = true :=
    List.all_eq_true.mpr fun c => isDigit_of_mem_zeroPadded
  simp only [takeDigits?, List.take_left' size, List.drop_left' size, size, digits,
    digitsValue_zeroPadded, and_self, if_true]

theorem takeDigits?_two {n : Nat} (small : n < 100) (rest : List Char) :
    takeDigits? 2 (zeroPadded 2 n ++ rest) = some (n, rest) :=
  takeDigits?_zeroPadded (by decide) small rest

/-- A date is read field by field, whatever follows it. -/
theorem takeDate?_iso {d : Date} (valid : d.isValid = true) (rest : List Char) :
    takeDate? (d.iso ++ rest) = some (d, rest) := by
  obtain ⟨year, month, day⟩ := d
  simp only [Date.isValid, Bool.and_eq_true, decide_eq_true_eq] at valid
  obtain ⟨⟨⟨⟨⟨_, years⟩, _⟩, months⟩, _⟩, days⟩ := valid
  have year_fits : year < Nat.pow 10 4 := Nat.lt_succ_of_le years
  have month_fits : month < 100 := by omega
  have day_fits : day < 100 := by
    have most := Date.daysInMonth_le year month
    omega
  -- What follows the first hyphen is a digit, so this is no week date.
  obtain ⟨c, cs, begins, digit⟩ := exists_zeroPadded_eq_cons 2 month
  have no_week : c ≠ 'W' := by
    rintro rfl
    cases digit
  have year_read (rest : List Char) :
      takeDigits? 4 (zeroPadded 4 year ++ rest) = some (year, rest) :=
    takeDigits?_zeroPadded (by decide) year_fits rest
  simp only [takeDate?, Date.iso, List.append_assoc, List.cons_append, year_read,
    Option.bind_eq_bind, Option.bind_some]
  split
  next week =>
    rw [begins] at week
    cases week
    exact absurd rfl no_week
  next week => cases week
  next later =>
    cases later
    simp only [takeDigits?_two month_fits, takeDigits?_two day_fits, Option.bind_some]
  next other => exact absurd rfl (other _)

theorem continue?_field (n : Nat) (rest : List Char) :
    continue? true (':' :: (zeroPadded 2 n ++ rest)) = some (.field (zeroPadded 2 n ++ rest)) := by
  obtain ⟨c, cs, begins, _⟩ := exists_zeroPadded_eq_cons 2 n
  rw [begins]
  rfl

theorem continue?_fraction (n : Nat) :
    continue? true ('.' :: zeroPadded 6 n) = some (.fraction (zeroPadded 6 n)) := by
  obtain ⟨c, cs, begins, _⟩ := exists_zeroPadded_eq_cons 6 n
  rw [begins]
  rfl

theorem continue?_nil (separated : Bool) : continue? separated [] = some (.stop false) := rfl

/-- All six digits of a fraction count. -/
theorem readFraction?_zeroPadded {microsecond : Nat} (small : microsecond < 1000000)
    (hour minute second : Nat) :
    readFraction? hour minute second (zeroPadded 6 microsecond) =
      some (⟨hour, minute, second, microsecond⟩, false) := by
  have positive : 0 < 6 := by decide
  have size : (zeroPadded 6 microsecond).length = 6 := length_zeroPadded positive small
  have read := takeDigits?_zeroPadded positive small []
  rw [List.append_nil] at read
  simp [readFraction?, size, read, isEnd]

theorem readClock?_minute {hour minute : Nat} (hours : hour < 100) (minutes : minute < 100) :
    readClock? (zeroPadded 2 hour ++ ':' :: zeroPadded 2 minute) =
      some (⟨hour, minute, 0, 0⟩, false) := by
  have next := continue?_field minute []
  have last := takeDigits?_two minutes []
  rw [List.append_nil] at next last
  simp only [readClock?, takeDigits?_two hours, List.head?_cons, beq_self_eq_true, next, last,
    continue?_nil, Option.bind_eq_bind, Option.bind_some]

theorem readClock?_iso {c : Clock} (valid : c.isValid = true) :
    readClock? c.iso = some (c, false) := by
  obtain ⟨hours, minutes, seconds, fraction⟩ := Clock.isValid_iff.mp valid
  obtain ⟨hour, minute, second, microsecond⟩ := c
  have hour_fits : hour < 100 := Nat.lt_trans hours (by decide)
  have minute_fits : minute < 100 := Nat.lt_trans minutes (by decide)
  have second_fits : second < 100 := Nat.lt_trans seconds (by decide)
  simp only [readClock?, Clock.iso, List.append_assoc, List.cons_append, takeDigits?_two hour_fits,
    List.head?_cons, beq_self_eq_true, continue?_field, takeDigits?_two minute_fits,
    takeDigits?_two second_fits, Option.bind_eq_bind, Option.bind_some]
  by_cases whole : microsecond = 0
  · subst whole
    simp only [microsecondSuffix, if_true, continue?_nil, Option.bind_some]
  · simp only [microsecondSuffix, whole, if_false, continue?_fraction, Option.bind_some,
      readFraction?_zeroPadded fraction]

def offsetClock (offset : Int) : Clock :=
  let seconds := offset.natAbs / 1000000
  ⟨seconds / 3600, seconds / 60 % 60, seconds % 60, offset.natAbs % 1000000⟩

theorem microseconds_offsetClock (offset : Int) :
    (offsetClock offset).microseconds = offset.natAbs := by
  simp only [offsetClock, Clock.microseconds]
  omega

theorem isValid_offsetClock {offset : Int} (inside : offsetInRange offset = true) :
    (offsetClock offset).isValid = true := by
  simp only [offsetInRange, Bool.and_eq_true, decide_eq_true_eq] at inside
  rw [Clock.isValid_iff]
  simp only [dayLength, offsetClock] at inside ⊢
  omega

/-- What is left out of an offset is zero. -/
theorem exists_offsetIso {offset : Int} (inside : offsetInRange offset = true) :
    ∃ zone, offsetIso offset = (if offset < 0 then '-' else '+') :: zone ∧
      readClock? zone = some (offsetClock offset, false) := by
  have valid := isValid_offsetClock inside
  by_cases minutes : offset.natAbs % 60000000 = 0
  · obtain ⟨hour_fits, minute_fits, _, _⟩ := Clock.isValid_iff.mp valid
    have seconds : offset.natAbs / 1000000 % 60 = 0 := by omega
    have fraction : offset.natAbs % 1000000 = 0 := by omega
    have read := readClock?_minute (Nat.lt_trans hour_fits (by decide))
      (Nat.lt_trans minute_fits (by decide))
    refine ⟨_, rfl, ?_⟩
    simp only [offsetClock, seconds, fraction, minutes, if_true, List.append_nil] at read ⊢
    exact read
  · refine ⟨(offsetClock offset).iso, ?_, readClock?_iso valid⟩
    simp only [offsetIso, minutes, if_false, offsetClock, Clock.iso, List.append_assoc,
      List.cons_append]

/-- An offset that is not dropped for want of a whole second. -/
def isReadableOffset (offset : Int) : Bool := offset == 0 || 1000000 ≤ offset.natAbs

theorem isReadableOffset_iff {offset : Int} :
    isReadableOffset offset = true ↔ offset = 0 ∨ 1000000 ≤ offset.natAbs := by
  simp only [isReadableOffset, Bool.or_eq_true, beq_iff_eq, decide_eq_true_eq]

theorem offsetOf_offsetClock {offset : Int} (readable : isReadableOffset offset = true) :
    offsetOf (decide (offset < 0)) (offsetClock offset) = offset := by
  rw [isReadableOffset_iff] at readable
  simp only [offsetOf, microseconds_offsetClock, decide_eq_true_eq]
  split <;> split <;> omega

theorem isReadableOffset_offsetOf (negative : Bool) (c : Clock) :
    isReadableOffset (offsetOf negative c) = true := by
  rw [isReadableOffset_iff, offsetOf]
  split <;> split <;> omega

theorem not_zone_of_mem_iso {c : Clock} {x : Char} (member : x ∈ c.iso) :
    (!(x == '+' || x == '-' || x == 'Z')) = true := by
  have number {width n : Nat} (member : x ∈ zeroPadded width n) :
      (!(x == '+' || x == '-' || x == 'Z')) = true := by
    have digit := isDigit_of_mem_zeroPadded member
    have differs (sign : Char) (other : sign.isDigit = false) : (x == sign) = false := by
      rw [beq_eq_false_iff_ne]
      rintro rfl
      cases digit.symm.trans other
    simp only [differs '+' rfl, differs '-' rfl, differs 'Z' rfl, Bool.or_false, Bool.not_false]
  simp only [Clock.iso, List.mem_append, List.mem_cons] at member
  rcases member with (hour | rfl | minute | rfl | second) | fraction
  · exact number hour
  · rfl
  · exact number minute
  · rfl
  · exact number second
  · rw [microsecondSuffix] at fraction
    split at fraction
    · cases fraction
    · rcases List.mem_cons.mp fraction with rfl | digits
      · rfl
      · exact number digits

/-- A time is read up to its zone, and then the zone. -/
theorem readTime?_iso {c : Clock} {offset : Option Int} (valid : c.isValid = true)
    (inside : offset.all offsetInRange = true) (readable : offset.all isReadableOffset = true) :
    readTime? (c.iso ++ (offset.map offsetIso).getD []) = some (c, offset) := by
  have clock : ∀ x ∈ c.iso, (!(x == '+' || x == '-' || x == 'Z')) = true :=
    fun x => not_zone_of_mem_iso
  simp only [readTime?, List.takeWhile_append_of_pos clock, List.dropWhile_append_of_pos clock]
  cases offset with
  | none => simp [readClock?_iso valid]
  | some offset =>
    obtain ⟨zone, written, read⟩ := exists_offsetIso inside
    have same := offsetOf_offsetClock readable
    simp only [Option.map_some, Option.getD_some, written]
    by_cases negative : offset < 0
    · simp only [negative, decide_true] at same
      simp [negative, readClock?_iso valid, read, same]
    · simp only [negative, decide_false] at same
      simp [negative, readClock?_iso valid, read, same]

def isReadable (m : Moment) : Bool := m.isValid && m.offset.all isReadableOffset

theorem readChars?_iso {m : Moment} (readable : m.isReadable = true) :
    readChars? (m.isoChars 'T') = some m := by
  obtain ⟨date, clock, offset⟩ := m
  obtain ⟨valid, offset_readable⟩ := Bool.and_eq_true_iff.mp readable
  have parts := valid
  simp only [isValid, Bool.and_eq_true] at parts
  obtain ⟨⟨date_valid, clock_valid⟩, inside⟩ := parts
  simp only [readChars?, isoChars, List.append_assoc, List.cons_append, takeDate?_iso date_valid,
    readTime?_iso clock_valid inside offset_readable, Option.bind_eq_bind, Option.bind_some,
    checked?, valid, if_true]

/-- Whatever offset a time has been read with can be read again. -/
theorem readable_of_readTime? {cs : List Char} {c : Clock} {offset : Option Int}
    (read : readTime? cs = some (c, offset)) : offset.all isReadableOffset = true := by
  simp only [readTime?, Option.bind_eq_bind, Option.bind_eq_some_iff] at read
  obtain ⟨⟨clock, leftover⟩, _, read⟩ := read
  split at read
  · split at read
    · cases read
    · cases read
      rfl
  · split at read
    · split at read
      · cases read
        rfl
      · cases read
    · obtain ⟨⟨zone, leftover⟩, _, read⟩ := Option.bind_eq_some_iff.mp read
      split at read
      · cases read
      · cases read
        exact isReadableOffset_offsetOf _ _

theorem readable_of_checked? {date : Date} {clock : Clock} {offset : Option Int} {m : Moment}
    (readable : offset.all isReadableOffset = true)
    (checked : checked? date clock offset = some m) : m.isReadable = true := by
  simp only [checked?] at checked
  split at checked
  next valid =>
    cases checked
    exact Bool.and_eq_true_iff.mpr ⟨valid, readable⟩
  next => cases checked

theorem isReadable_of_readChars? {cs : List Char} {m : Moment} (read : readChars? cs = some m) :
    m.isReadable = true := by
  simp only [readChars?, Option.bind_eq_bind, Option.bind_eq_some_iff] at read
  obtain ⟨⟨date, rest⟩, _, read⟩ := read
  split at read
  · exact readable_of_checked? rfl read
  · obtain ⟨⟨clock, offset⟩, time, read⟩ := Option.bind_eq_some_iff.mp read
    exact readable_of_checked? (readable_of_readTime? time) read

/-- The last of the characters are the digits of a number, so that no letter Z is expanded. -/
def EndsInNumber (cs : List Char) : Prop := ∃ width n, zeroPadded width n <:+ cs

theorem endsInNumber_zeroPadded (width n : Nat) : EndsInNumber (zeroPadded width n) :=
  ⟨width, n, List.suffix_rfl⟩

theorem EndsInNumber.append {cs : List Char} (ends : EndsInNumber cs) (before : List Char) :
    EndsInNumber (before ++ cs) := by
  obtain ⟨width, n, suffix⟩ := ends
  exact ⟨width, n, suffix.trans (List.suffix_append _ _)⟩

theorem EndsInNumber.cons {cs : List Char} (ends : EndsInNumber cs) (c : Char) :
    EndsInNumber (c :: cs) := ends.append [c]

theorem EndsInNumber.expandZulu_eq {cs : List Char} (ends : EndsInNumber cs) :
    expandZulu cs = cs := by
  obtain ⟨width, n, before, rfl⟩ := ends
  obtain ⟨c, rest, begins, _⟩ := exists_zeroPadded_eq_cons width n
  have written : zeroPadded width n ≠ [] := by rw [begins]; exact List.cons_ne_nil c rest
  have last := List.getLast?_eq_some_getLast written
  have digit := isDigit_of_mem_zeroPadded (List.mem_of_getLast? last)
  rw [expandZulu, List.getLast?_append, last, Option.some_or]
  split
  next same => cases Option.some.inj same ▸ digit
  next same => cases Option.some.inj same ▸ digit
  next => rfl

theorem endsInNumber_seconds (second microsecond : Nat) :
    EndsInNumber (zeroPadded 2 second ++ microsecondSuffix microsecond) := by
  rw [microsecondSuffix]
  split
  · rw [List.append_nil]
    exact endsInNumber_zeroPadded _ _
  · exact ((endsInNumber_zeroPadded _ _).cons _).append _

theorem endsInNumber_iso (c : Clock) : EndsInNumber c.iso := by
  simp only [Clock.iso, List.append_assoc, List.cons_append]
  exact ((((endsInNumber_seconds _ _).cons _).append _).cons _).append _

theorem endsInNumber_offsetIso (offset : Int) : EndsInNumber (offsetIso offset) := by
  simp only [offsetIso]
  apply EndsInNumber.cons
  split
  · rw [List.append_nil]
    exact ((endsInNumber_zeroPadded _ _).cons _).append _
  · exact ((endsInNumber_seconds _ _).cons _).append _

theorem endsInNumber_isoChars (separator : Char) (m : Moment) :
    EndsInNumber (m.isoChars separator) := by
  obtain ⟨date, clock, offset⟩ := m
  cases offset with
  | none =>
    simp only [isoChars, Option.map_none, Option.getD_none, List.append_nil]
    exact ((endsInNumber_iso clock).cons _).append _
  | some offset => exact (endsInNumber_offsetIso offset).append _

/-- A moment that can be read again is, from the text that it is written as. -/
theorem accept?_iso {m : Moment} (readable : m.isReadable = true)
    (late : origin.instant < m.instant) : accept? m.iso = some m := by
  simp only [accept?, iso, String.toList_ofList, (endsInNumber_isoChars 'T' m).expandZulu_eq,
    readChars?_iso readable, Option.bind_eq_bind, Option.bind_some, late, if_true]

theorem exists_of_accept? {s : String} {m : Moment} (accepted : accept? s = some m) :
    m.isReadable = true ∧ origin.instant < m.instant := by
  simp only [accept?, Option.bind_eq_bind, Option.bind_eq_some_iff] at accepted
  obtain ⟨read, first, accepted⟩ := accepted
  split at accepted
  next late =>
    cases accepted
    exact ⟨isReadable_of_readChars? first, late⟩
  next => cases accepted

end Moment

namespace Decoder

variable {defs : Definitions} {fuel : Nat} {s : String} {c : Context} {w : Value}

theorem outcome_dateTime : ((primitive .dateTime).runAt defs fuel (.text s) c).outcome = .ok w ↔
    ∃ m, Moment.accept? s = some m ∧ w = .moment m := by
  rw [runAt, action_eq_run, body, Action.outcome_primitive_eq_ok, Primitive.accept_dateTime_text]
  cases Moment.accept? s with
  | none => simp
  | some m => simp [eq_comm]

/-- What is read from a text as a date and time is later than the origin, and is read again from
the text that it is written as: the fields, the offset to the microsecond, or that there is no
offset. -/
theorem accepted_moments_round_trip
    (given : ((primitive .dateTime).runAt defs fuel (.text s) c).outcome = .ok w) :
    ∃ m, w = .moment m ∧ m.isValid = true ∧ Moment.origin.instant < m.instant ∧
      ∀ c', ((primitive .dateTime).runAt defs fuel (.text m.iso) c').outcome = .ok (.moment m) := by
  obtain ⟨m, accepted, rfl⟩ := outcome_dateTime.mp given
  obtain ⟨readable, late⟩ := Moment.exists_of_accept? accepted
  refine ⟨m, rfl, (Bool.and_eq_true_iff.mp readable).1, late, fun c' => ?_⟩
  exact outcome_dateTime.mpr ⟨m, Moment.accept?_iso readable late, rfl⟩

/-- A week date with a comma before the fraction, and an offset that is no whole second. -/
theorem accepted_moments_round_trip_week_date :
    let m : Moment := ⟨⟨2024, 2, 29⟩, ⟨23, 30, 59, 500000⟩, some (-5415250000)⟩
    let read (s : String) := ((primitive .dateTime).runAt [] 0 (.text s) (.root .default)).outcome
    read "2024W094 233059,5-01:30:15.25" = .ok (.moment m) ∧
      m.iso = "2024-02-29T23:30:59.500000-01:30:15.250000" ∧ read m.iso = .ok (.moment m) := by
  intro m read
  have given : read "2024W094 233059,5-01:30:15.25" = .ok (.moment m) :=
    outcome_dateTime.mpr ⟨m, by decide +kernel, rfl⟩
  obtain ⟨_, same, _, _, again⟩ := accepted_moments_round_trip given
  cases same
  exact ⟨given, by decide +kernel, again _⟩

end Decoder

end Intake
