import Intake.Proofs.RoundTrip

/-! A final letter Z is spelled out as an offset of zero, and then the whole text is read
again. After a date alone the sign of that offset is taken for the separator. -/
namespace Intake.Moment

open Text

def zulu : List Char := ['+', '0', '0', ':', '0', '0']

theorem expandZulu_append {body : List Char} {z : Char} (letter : z = 'Z' ∨ z = 'z') :
    expandZulu (body ++ [z]) = body ++ zulu := by
  rcases letter with rfl | rfl <;> simp [expandZulu, zulu]

variable {cs rest : List Char} {count : Nat}

theorem takeDigits?_append_zulu {n : Nat}
    (taken : takeDigits? count (cs ++ zulu) = some (n, rest)) :
    ∃ before, rest = before ++ zulu ∧ takeDigits? count cs = some (n, before) := by
  simp only [takeDigits?] at taken
  split at taken
  next whole =>
    cases taken
    have inside : count ≤ cs.length := by
      refine Nat.le_of_not_lt fun short => ?_
      obtain ⟨more, eq⟩ : ∃ more, count - cs.length = more + 1 := ⟨count - cs.length - 1, by omega⟩
      have sign : '+' ∈ (cs ++ zulu).take count := by
        rw [List.take_append, eq]
        exact List.mem_append_right _ List.mem_cons_self
      cases List.all_eq_true.mp whole.2 _ sign
    rw [List.drop_append_of_le_length inside, List.take_append_of_le_length inside] at *
    exact ⟨cs.drop count, rfl, if_pos whole⟩
  next => cases taken

theorem takeBasicWeekday_append_zulu :
    takeBasicWeekday (cs ++ zulu) = ((takeBasicWeekday cs).1, (takeBasicWeekday cs).2 ++ zulu) := by
  have run : (cs ++ zulu).takeWhile Char.isDigit = cs.takeWhile Char.isDigit := by
    have stop : zulu.takeWhile Char.isDigit = [] := by decide
    rw [List.takeWhile_append, stop, List.append_nil]
    split
    next all => exact ((List.takeWhile_prefix _).eq_of_length all).symm
    next => rfl
  cases cs with
  | nil => rfl
  | cons c rest =>
    simp only [takeBasicWeekday, run]
    simp only [List.cons_append]
    split <;> rfl

theorem takeExtendedWeekday?_hyphen (c : Char) (later : List Char) :
    takeExtendedWeekday? ('-' :: c :: later) =
      if later.head?.any Char.isDigit then some (1, '-' :: c :: later)
      else if c.isDigit then some (digitValue c, later) else none := rfl

theorem takeExtendedWeekday?_other {c : Char} (other : c ≠ '-') (later : List Char) :
    takeExtendedWeekday? (c :: later) = some (1, c :: later) := by
  unfold takeExtendedWeekday?
  split
  next same => exact absurd (List.cons.inj same).1 other
  next same => exact absurd (List.cons.inj same).1 other
  next => rfl

/-- A lone hyphen before the letter separates the time, of which the offset is then all there is. -/
theorem takeExtendedWeekday?_append_zulu {weekday : Nat}
    (taken : takeExtendedWeekday? (cs ++ zulu) = some (weekday, rest)) :
    rest = '-' :: zulu ∨
      ∃ before, rest = before ++ zulu ∧ takeExtendedWeekday? cs = some (weekday, before) := by
  cases cs with
  | nil =>
    cases taken
    exact .inr ⟨[], rfl, rfl⟩
  | cons c later =>
    by_cases hyphen : c = '-'
    · subst hyphen
      cases later with
      | nil =>
        cases taken
        exact .inl rfl
      | cons c later =>
        have next : (later ++ zulu).head?.any Char.isDigit = later.head?.any Char.isDigit := by
          cases later <;> rfl
        right
        rw [List.cons_append, List.cons_append, takeExtendedWeekday?_hyphen, next] at taken
        rw [takeExtendedWeekday?_hyphen]
        split at taken
        next separated =>
          cases taken
          exact ⟨'-' :: c :: later, rfl, if_pos separated⟩
        next joined =>
          rw [if_neg joined]
          split at taken
          next digit =>
            cases taken
            exact ⟨later, rfl, if_pos digit⟩
          next => cases taken
    · rw [List.cons_append, takeExtendedWeekday?_other hyphen] at taken
      cases taken
      exact .inr ⟨c :: later, rfl, takeExtendedWeekday?_other hyphen later⟩

theorem exists_cons_of_append_zulu {c : Char} (eq : cs ++ zulu = c :: rest) (other : c ≠ '+') :
    ∃ later, cs = c :: later ∧ rest = later ++ zulu := by
  cases cs with
  | nil => exact absurd (List.cons.inj eq).1.symm other
  | cons d later =>
    obtain ⟨rfl, rfl⟩ := List.cons.inj eq
    exact ⟨later, rfl, rfl⟩

/-- A date is read before the letter just as it is read without it. -/
theorem takeDate?_append_zulu {date : Date} (taken : takeDate? (cs ++ zulu) = some (date, rest)) :
    rest = '-' :: zulu ∨ ∃ before, rest = before ++ zulu ∧ takeDate? cs = some (date, before) := by
  simp only [takeDate?, Option.bind_eq_bind] at taken ⊢
  obtain ⟨⟨year, after⟩, read, taken⟩ := Option.bind_eq_some_iff.mp taken
  obtain ⟨after, rfl, years⟩ := takeDigits?_append_zulu read
  simp only [years, Option.bind_some] at taken ⊢
  split at taken
  -- An extended week date.
  next eq =>
    obtain ⟨_, rfl, more⟩ := exists_cons_of_append_zulu eq (by decide)
    obtain ⟨later, rfl, rfl⟩ := exists_cons_of_append_zulu more.symm (by decide)
    obtain ⟨⟨week, after⟩, read, taken⟩ := Option.bind_eq_some_iff.mp taken
    obtain ⟨after, rfl, weeks⟩ := takeDigits?_append_zulu read
    obtain ⟨⟨weekday, after⟩, read, taken⟩ := Option.bind_eq_some_iff.mp taken
    obtain ⟨date, found, same⟩ := Option.bind_eq_some_iff.mp taken
    cases same
    refine (takeExtendedWeekday?_append_zulu read).imp_right ?_
    rintro ⟨before, rfl, weekdays⟩
    exact ⟨before, rfl, by simp only [weeks, weekdays, found, Option.bind_some]⟩
  -- A basic week date.
  next eq =>
    obtain ⟨later, rfl, rfl⟩ := exists_cons_of_append_zulu eq (by decide)
    obtain ⟨⟨week, after⟩, read, taken⟩ := Option.bind_eq_some_iff.mp taken
    obtain ⟨after, rfl, weeks⟩ := takeDigits?_append_zulu read
    obtain ⟨date, found, same⟩ := Option.bind_eq_some_iff.mp taken
    simp only [takeBasicWeekday_append_zulu] at found same
    cases same
    exact .inr ⟨_, rfl, by simp only [weeks, found, Option.bind_some]⟩
  -- An extended calendar date.
  next no_week eq =>
    obtain ⟨later, rfl, rfl⟩ := exists_cons_of_append_zulu eq (by decide)
    obtain ⟨⟨month, after⟩, read, taken⟩ := Option.bind_eq_some_iff.mp taken
    obtain ⟨after, rfl, months⟩ := takeDigits?_append_zulu read
    -- Without the letter, too, no week follows the hyphen.
    have plain : ∀ rest, later = 'W' :: rest → False := by
      rintro rest rfl
      exact no_week _ rfl
    dsimp only at taken
    split at taken
    next eq =>
      obtain ⟨later, rfl, rfl⟩ := exists_cons_of_append_zulu eq (by decide)
      obtain ⟨⟨day, after⟩, read, same⟩ := Option.bind_eq_some_iff.mp taken
      obtain ⟨after, rfl, days⟩ := takeDigits?_append_zulu read
      cases same
      exact .inr ⟨after, rfl, by simp only [months, days, Option.bind_some]⟩
    next => cases taken
  -- A basic calendar date.
  next no_week no_basic no_hyphen =>
    obtain ⟨⟨month, after⟩, read, taken⟩ := Option.bind_eq_some_iff.mp taken
    obtain ⟨after, rfl, months⟩ := takeDigits?_append_zulu read
    obtain ⟨⟨day, after⟩, read, same⟩ := Option.bind_eq_some_iff.mp taken
    obtain ⟨after, rfl, days⟩ := takeDigits?_append_zulu read
    cases same
    refine .inr ⟨after, rfl, ?_⟩
    split
    next => exact absurd rfl (no_week _)
    next => exact absurd rfl (no_basic _)
    next => exact absurd rfl (no_hyphen _)
    next => simp only [months, days, Option.bind_some]

/-- What is left of a text when a part without a plus sign has been read. -/
def Skips (cs rest : List Char) : Prop := ∃ before, cs = before ++ rest ∧ '+' ∉ before

theorem Skips.terminator_mem (skips : Skips cs rest) (ends : '+' ∈ rest → terminator ∈ rest)
    (sign : '+' ∈ cs) : terminator ∈ cs := by
  obtain ⟨before, rfl, unsigned⟩ := skips
  exact List.mem_append_right _ (ends ((List.mem_append.mp sign).resolve_left unsigned))

theorem skips_digits {before : List Char} (digits : before.all Char.isDigit = true) :
    Skips (before ++ rest) rest := by
  refine ⟨before, rfl, fun sign => ?_⟩
  cases List.all_eq_true.mp digits _ sign

theorem skips_of_takeDigits? {n : Nat} (taken : takeDigits? count cs = some (n, rest)) :
    Skips cs rest := by
  simp only [takeDigits?] at taken
  split at taken
  next whole =>
    cases taken
    have skips : Skips (cs.take count ++ cs.drop count) (cs.drop count) := skips_digits whole.2
    rwa [List.take_append_drop] at skips
  next => cases taken

theorem skips_of_continue? {separated : Bool} (next : continue? separated cs = some (.field rest) ∨
    continue? separated cs = some (.fraction rest)) : Skips cs rest := by
  match cs with
  | [] => rcases next with next | next <;> cases next
  | [c] =>
    simp only [continue?] at next
    split at next <;> rcases next with next | next <;> cases next
  | c :: d :: later =>
    simp only [continue?] at next
    split at next
    next colon =>
      rcases next with next | next <;> cases next
      exact ⟨[c], rfl, by simp [colon.2]⟩
    split at next
    next point =>
      rcases next with next | next <;> cases next
      exact ⟨[c], rfl, by rcases point with rfl | rfl <;> decide⟩
    split at next <;> rcases next with next | next <;> cases next
    exact ⟨[], rfl, List.not_mem_nil⟩

theorem terminator_mem_of_isEnd (ends : isEnd cs = true) (sign : '+' ∈ cs) : terminator ∈ cs := by
  cases cs with
  | nil => cases sign
  | cons c later =>
    have first : c = terminator := of_decide_eq_true ends
    exact first ▸ List.mem_cons_self

theorem terminator_mem_of_stop {separated : Bool}
    (stop : continue? separated cs = some (.stop false)) (sign : '+' ∈ cs) : terminator ∈ cs := by
  match cs with
  | [] => cases sign
  | [c] =>
    simp only [continue?] at stop
    split at stop
    · simp only [Option.some.injEq, Continuation.stop.injEq, decide_eq_false_iff_not,
        Decidable.not_not] at stop
      exact stop ▸ List.mem_cons_self
    · cases stop
  | c :: d :: later =>
    simp only [continue?] at stop
    repeat' split at stop
    all_goals cases stop

theorem terminator_mem_of_readFraction? {hour minute second : Nat} {clock : Clock}
    (read : readFraction? hour minute second cs = some (clock, false)) (sign : '+' ∈ cs) :
    terminator ∈ cs := by
  simp only [readFraction?, Option.bind_eq_bind, Option.bind_eq_some_iff] at read
  obtain ⟨⟨value, rest⟩, taken, same⟩ := read
  simp only [Option.some.injEq, Prod.mk.injEq, Bool.not_eq_false'] at same
  have skips : Skips rest (rest.dropWhile Char.isDigit) := by
    have digits : Skips (rest.takeWhile Char.isDigit ++ rest.dropWhile Char.isDigit)
        (rest.dropWhile Char.isDigit) := skips_digits List.all_takeWhile
    rwa [List.takeWhile_append_dropWhile] at digits
  exact (skips_of_takeDigits? taken).terminator_mem
    (skips.terminator_mem (terminator_mem_of_isEnd same.2)) sign

/-- A clock that is read with nothing left over has no plus sign, unless a terminator stands
before what is not read. -/
theorem terminator_mem_of_readClock? {clock : Clock} (read : readClock? cs = some (clock, false)) :
    '+' ∈ cs → terminator ∈ cs := by
  simp only [readClock?, Option.bind_eq_bind, Option.bind_eq_some_iff] at read
  obtain ⟨⟨hour, after_hour⟩, taken, next, hours, read⟩ := read
  apply (skips_of_takeDigits? taken).terminator_mem
  cases next with
  | stop leftover =>
    cases read
    exact terminator_mem_of_stop hours
  | fraction rest =>
    exact (skips_of_continue? (.inr hours)).terminator_mem (terminator_mem_of_readFraction? read)
  | field rest =>
    apply (skips_of_continue? (.inl hours)).terminator_mem
    simp only [Option.bind_eq_some_iff] at read
    obtain ⟨⟨minute, after_minute⟩, taken, next, minutes, read⟩ := read
    apply (skips_of_takeDigits? taken).terminator_mem
    cases next with
    | stop leftover =>
      cases read
      exact terminator_mem_of_stop minutes
    | fraction rest =>
      exact (skips_of_continue? (.inr minutes)).terminator_mem
        (terminator_mem_of_readFraction? read)
    | field rest =>
      apply (skips_of_continue? (.inl minutes)).terminator_mem
      simp only [Option.bind_eq_some_iff] at read
      obtain ⟨⟨second, after_second⟩, taken, next, seconds, read⟩ := read
      apply (skips_of_takeDigits? taken).terminator_mem
      cases next with
      | stop leftover =>
        cases read
        exact terminator_mem_of_stop seconds
      | fraction rest =>
        exact (skips_of_continue? (.inr seconds)).terminator_mem
          (terminator_mem_of_readFraction? read)
      | field rest =>
        exact (skips_of_continue? (.inl seconds)).terminator_mem
          (terminator_mem_of_readFraction? read)

theorem readClock?_zulu : readClock? zulu.tail = some (⟨0, 0, 0, 0⟩, false) := by decide

/-- A time in front of the letter has an offset, and that is zero unless it is cut short by a
terminator. -/
theorem offset_of_readTime?_append_zulu {clock : Clock} {offset : Option Int}
    (read : readTime? (cs ++ zulu) = some (clock, offset)) :
    offset ≠ none ∧ (terminator ∉ cs → offset = some 0) := by
  simp only [readTime?, Option.bind_eq_bind, Option.bind_eq_some_iff] at read
  obtain ⟨⟨before, more⟩, _, read⟩ := read
  rw [List.dropWhile_append] at read
  cases zone : cs.dropWhile fun c => !(c == '+' || c == '-' || c == 'Z') with
  | nil =>
    have letter : zulu.dropWhile (fun c => !(c == '+' || c == '-' || c == 'Z')) =
        '+' :: zulu.tail := by decide
    have sign : ¬ '+' = 'Z' := by decide
    have zero : offsetOf (decide ('+' = '-')) ⟨0, 0, 0, 0⟩ = 0 := by decide
    simp only [zone, letter, List.isEmpty_nil, if_true, if_neg sign, readClock?_zulu,
      Option.bind_some, Bool.false_eq_true, if_false, zero, Option.some.injEq,
      Prod.mk.injEq] at read
    obtain ⟨_, rfl⟩ := read
    exact ⟨Option.some_ne_none _, fun _ => rfl⟩
  | cons sign digits =>
    have part : digits ⊆ cs := by
      have suffix : sign :: digits <:+ cs := zone ▸ List.dropWhile_suffix _
      exact fun c member => suffix.subset (List.mem_cons_of_mem sign member)
    simp only [zone, List.isEmpty_cons, Bool.false_eq_true, if_false, List.cons_append] at read
    split at read
    · split at read
      · cases read
        exact ⟨Option.some_ne_none _, fun _ => rfl⟩
      · cases read
    · obtain ⟨⟨size, more⟩, spelled, read⟩ := Option.bind_eq_some_iff.mp read
      split at read
      · cases read
      next finished =>
        cases read
        simp only [Bool.not_eq_true] at finished
        subst finished
        refine ⟨Option.some_ne_none _, fun unbroken => ?_⟩
        have found := terminator_mem_of_readClock? spelled
          (List.mem_append_right digits List.mem_cons_self)
        have ends : terminator ∈ digits := (List.mem_append.mp found).resolve_right (by decide)
        exact absurd (part ends) unbroken

theorem eq_of_checked? {date : Date} {clock : Clock} {offset : Option Int} {m : Moment}
    (checked : checked? date clock offset = some m) : m = ⟨date, clock, offset⟩ := by
  simp only [checked?] at checked
  split at checked
  next => exact (Option.some.inj checked).symm
  next => cases checked

/-- What is read before the letter is a date alone, or a date and a time. -/
theorem of_readChars?_append_zulu {m : Moment} (read : readChars? (cs ++ zulu) = some m) :
    ∃ date, (takeDate? cs = some (date, []) ∧ m = ⟨date, ⟨0, 0, 0, 0⟩, none⟩) ∨
      ∃ separator time, takeDate? cs = some (date, separator :: time) ∧ m.offset ≠ none ∧
        (terminator ∉ time → m.offset = some 0) := by
  simp only [readChars?, Option.bind_eq_bind, Option.bind_eq_some_iff] at read
  obtain ⟨⟨date, rest⟩, taken, read⟩ := read
  refine ⟨date, ?_⟩
  rcases takeDate?_append_zulu taken with rfl | ⟨before, rfl, alone⟩
  · cases read
  cases before with
  | nil =>
    obtain ⟨⟨clock, offset⟩, time, checked⟩ := Option.bind_eq_some_iff.mp read
    cases time
    exact .inl ⟨alone, eq_of_checked? checked⟩
  | cons separator time =>
    obtain ⟨⟨clock, offset⟩, timed, checked⟩ := Option.bind_eq_some_iff.mp read
    cases eq_of_checked? checked
    exact .inr ⟨separator, time, alone, offset_of_readTime?_append_zulu timed⟩

end Intake.Moment

namespace Intake.Decoder

variable {defs : Definitions} {fuel : Nat} {s : String} {c : Context} {w : Value}

/-- What stands before a final letter Z, in a text that is accepted, begins with a date. If it is
the date alone, the moment is midnight and has no offset. If a time follows, the moment has an
offset, and that is zero unless a terminator cuts the time short. -/
theorem trailing_zulu {body : List Char} {z : Char} (letter : z = 'Z' ∨ z = 'z')
    (ends : s.toList = body ++ [z])
    (given : ((primitive .dateTime).runAt defs fuel (.text s) c).outcome = .ok w) :
    ∃ m date, w = .moment m ∧
      ((Moment.takeDate? body = some (date, []) ∧ m = ⟨date, ⟨0, 0, 0, 0⟩, none⟩) ∨
        ∃ separator time, Moment.takeDate? body = some (date, separator :: time) ∧
          m.offset ≠ none ∧ (Moment.terminator ∉ time → m.offset = some 0)) := by
  obtain ⟨m, accepted, rfl⟩ := outcome_dateTime.mp given
  simp only [Moment.accept?, ends, Moment.expandZulu_append letter, Option.bind_eq_bind,
    Option.bind_eq_some_iff] at accepted
  obtain ⟨read, first, accepted⟩ := accepted
  split at accepted
  · cases accepted
    obtain ⟨date, cases⟩ := Moment.of_readChars?_append_zulu first
    exact ⟨m, date, rfl, cases⟩
  · cases accepted

/-- A basic date and a time without seconds, in front of a small letter. -/
theorem trailing_zulu_utc :
    ∃ m, ((primitive .dateTime).runAt [] 0 (.text "20240229 12:30z") (.root .default)).outcome =
      .ok (.moment m) ∧ m.offset = some 0 := by
  have given :
      ((primitive .dateTime).runAt [] 0 (.text "20240229 12:30z") (.root .default)).outcome =
        .ok (.moment ⟨⟨2024, 2, 29⟩, ⟨12, 30, 0, 0⟩, some 0⟩) :=
    outcome_dateTime.mpr ⟨_, by decide +kernel, rfl⟩
  have dated : Moment.takeDate? "20240229 12:30".toList =
      some (⟨2024, 2, 29⟩, ' ' :: "12:30".toList) := by decide +kernel
  have ends : "20240229 12:30z".toList = "20240229 12:30".toList ++ ['z'] := by decide +kernel
  obtain ⟨m, date, same, ⟨alone, _⟩ | ⟨separator, time, timed, _, utc⟩⟩ :=
    trailing_zulu (.inr rfl) ends given
  · rw [dated] at alone
    cases alone
  · rw [dated] at timed
    obtain ⟨_, rest⟩ := Prod.mk.inj (Option.some.inj timed)
    obtain ⟨_, rfl⟩ := List.cons.inj rest
    exact ⟨m, given.trans (congrArg _ same), utc (by decide +kernel)⟩

/-- A letter after a date alone is no zone, and neither is one behind a terminator. -/
theorem trailing_zulu_after_date :
    let read (s : String) := ((primitive .dateTime).runAt [] 0 (.text s) (.root .default)).outcome
    read "2023-01-01Z" = .ok (.moment ⟨⟨2023, 1, 1⟩, ⟨0, 0, 0, 0⟩, none⟩) ∧
      read "2023-01-01T12:00+05:00:00.500000\x00Z" =
        .ok (.moment ⟨⟨2023, 1, 1⟩, ⟨12, 0, 0, 0⟩, some 18000500000⟩) := by
  intro read
  exact ⟨outcome_dateTime.mpr ⟨_, by decide +kernel, rfl⟩,
    outcome_dateTime.mpr ⟨_, by decide +kernel, rfl⟩⟩

end Intake.Decoder
