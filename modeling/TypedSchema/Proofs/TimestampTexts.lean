import TypedSchema.Proofs.Time.Reading

/-!
Timestamps and their texts. What the output layout writes is read as the time cut to whole
microseconds. A time that was itself read has nothing finer, unless it is within the leap second
behind the last second that there is, which is not cut when it is read.
-/

namespace TypedSchema.Time

namespace Timestamp

/-- What the output layout shows of a time. -/
def reading (time : Timestamp) : Reading where
  year := time.date.year
  month := time.date.month
  day := time.date.day
  hour := time.secondOfDay / 3600
  minute := time.secondOfDay / 60 % 60
  second := time.secondOfDay % 60 + time.nanos / nanosPerSecond

/-- The microseconds into the second, or into the leap second. -/
def micros (time : Timestamp) : Nat :=
  time.nanos % nanosPerSecond / 1000

variable (time : Timestamp)

theorem text_eq : time.text = String.ofList (time.reading.text ++ '.' :: padded 6 time.micros ++
    ['Z']) := rfl

theorem secondOfDay_lt : time.secondOfDay < 86400 := by
  unfold secondOfDay
  omega

theorem micros_lt : time.micros < 1000000 := by
  unfold micros nanosPerSecond
  omega

/-- The leap second is behind the last second of a minute. -/
theorem second_eq_59 (leap : nanosPerSecond ≤ time.nanos) : time.secondOfDay % 60 = 59 := by
  have := time.leapAtMinuteEnd leap
  unfold secondOfDay
  omega

theorem reading_second : time.reading.second =
    if nanosPerSecond ≤ time.nanos then 60 else time.secondOfDay % 60 := by
  have most := time.nanosInRange
  split
  · rename_i leap
    have once : time.nanos / nanosPerSecond = 1 := by
      unfold nanosPerSecond at *
      omega
    rw [reading, time.second_eq_59 leap, once]
  · rename_i plain
    have none : time.nanos / nanosPerSecond = 0 := by
      unfold nanosPerSecond at *
      omega
    rw [reading, none, Nat.add_zero]

theorem reading_short : time.reading.Short := by
  obtain ⟨month, day⟩ := Date.le_of_isValid (Date.isValid_ofDays (time.second / 86400))
  have within := time.secondOfDay_lt
  constructor
  · show time.date.month < 100
    exact Nat.lt_of_le_of_lt month (by decide)
  · show time.date.day < 100
    exact Nat.lt_of_le_of_lt day (by decide)
  · show time.secondOfDay / 3600 < 100
    omega
  · show time.secondOfDay / 60 % 60 < 100
    omega
  · rw [reading_second]
    split <;> omega

theorem ofSecond?_eq {second : Int} {nanos : Nat} (seconds : time.second = second)
    (nanoseconds : time.nanos = nanos) : ofSecond? second nanos = some time := by
  subst seconds nanoseconds
  rw [ofSecond?, dif_pos ⟨time.inRange, time.nanosInRange, time.leapAtMinuteEnd⟩]

/-- The time that is shown is the time cut to microseconds. -/
theorem timestamp?_reading :
    { time.reading with nanos := time.micros * 1000, offset := 0 }.timestamp? =
      some time.cutToMicros := by
  have within := time.secondOfDay_lt
  have most := time.nanosInRange
  have valid : (Date.mk time.reading.year time.reading.month time.reading.day).isValid = true :=
    Date.isValid_ofDays (time.second / 86400)
  have days : (Date.mk time.reading.year time.reading.month time.reading.day).toDays =
      time.second / 86400 := Date.toDays_ofDays _
  have hour : time.reading.hour = time.secondOfDay / 3600 := rfl
  have minute : time.reading.minute = time.secondOfDay / 60 % 60 := rfl
  have bounds : time.reading.hour < 24 ∧ time.reading.minute < 60 ∧ time.reading.second ≤ 60 := by
    rw [reading_second]
    refine ⟨by omega, by omega, ?_⟩
    split <;> omega
  -- A leap second is shown as the second 60 and counted as the second before it.
  have second : (if time.reading.second = 60 then 59 else time.reading.second) =
      time.secondOfDay % 60 := by
    rw [reading_second]
    by_cases leap : nanosPerSecond ≤ time.nanos
    · rw [if_pos leap, if_pos rfl, time.second_eq_59 leap]
    · rw [if_neg leap, if_neg (by omega)]
  have nanos : (if time.reading.second = 60 then time.micros * 1000 + nanosPerSecond
      else time.micros * 1000) = time.cutToMicros.nanos := by
    have cut : time.cutToMicros.nanos = time.nanos / 1000 * 1000 := rfl
    rw [reading_second, cut]
    unfold micros nanosPerSecond at *
    by_cases leap : 1000000000 ≤ time.nanos
    · rw [if_pos leap, if_pos rfl]
      omega
    · rw [if_neg leap, if_neg (by omega)]
      omega
  have whole : time.second / 86400 * 86400 + ((time.secondOfDay / 3600 * 3600 +
      time.secondOfDay / 60 % 60 * 60 + time.secondOfDay % 60 : Nat) : Int) = time.second := by
    have day : (time.secondOfDay : Int) = time.second % 86400 := by
      unfold secondOfDay
      omega
    omega
  have begins : ofSecond? time.second 0 =
      some ⟨time.second, 0, time.inRange, by decide, fun leap => absurd leap (by decide)⟩ :=
    ofSecond?_eq _ rfl rfl
  have shown : ofSecond? (time.second - 0 * 60) time.cutToMicros.nanos = some time.cutToMicros :=
    ofSecond?_eq _ (by simp [cutToMicros]) rfl
  simp only [Reading.timestamp?, days, second, nanos]
  rw [if_pos (by simp [valid, bounds]), hour, minute, whole, begins, Option.bind_some, shown]

/-- Cutting a time changes nothing of what is shown of it. -/
theorem text_cutToMicros : time.cutToMicros.text = time.text := by
  have micros : time.cutToMicros.micros = time.micros := by
    show time.nanos / 1000 * 1000 % nanosPerSecond / 1000 = time.nanos % nanosPerSecond / 1000
    unfold nanosPerSecond
    omega
  have leap : time.nanos / 1000 * 1000 / nanosPerSecond = time.nanos / nanosPerSecond := by
    unfold nanosPerSecond
    omega
  have reading : time.cutToMicros.reading = time.reading := by
    simp [Timestamp.reading, cutToMicros, leap, date, secondOfDay]
  rw [text_eq, text_eq, micros, reading]

theorem cutToMicros_eq_iff : time.cutToMicros = time ↔ time.nanos % 1000 = 0 := by
  have cut : time.cutToMicros = time ↔ time.nanos / 1000 * 1000 = time.nanos := by
    obtain ⟨second, nanos, inRange, nanosInRange, leap⟩ := time
    simp [cutToMicros]
  rw [cut]
  omega

theorem cutToMicros_cutToMicros : time.cutToMicros.cutToMicros = time.cutToMicros :=
  (cutToMicros_eq_iff _).mpr (Nat.mul_mod_left _ _)

/-- What is finer than a microsecond is kept in the leap second at the very end only. -/
theorem cutToMicros_toMicros : time.toMicros.cutToMicros = time.toMicros ↔
    ¬(time.toMicros.isPastEnd = true ∧ time.toMicros.nanos % 1000 ≠ 0) := by
  by_cases past : time.isPastEnd = true
  · rw [toMicros, if_pos past, cutToMicros_eq_iff]
    simp [past]
  · have plain : time.cutToMicros.nanos % 1000 = 0 := Nat.mul_mod_left _ _
    rw [toMicros, if_neg past]
    simp [cutToMicros_cutToMicros, plain]

theorem ofText?_text : ofText? time.text = some time.cutToMicros := by
  have kept : time.cutToMicros.toMicros = time.cutToMicros := by
    unfold toMicros
    split
    · rfl
    · exact time.cutToMicros_cutToMicros
  rw [text_eq, ofText?_of_reading time.reading_short time.micros_lt time.timestamp?_reading, kept]

theorem toMicros_of_ofText? {text : String} {time : Timestamp} (read : ofText? text = some time) :
    ∃ found : Timestamp, time = found.toMicros := by
  obtain ⟨found, -, rfl⟩ := Option.map_eq_some_iff.mp read
  exact ⟨found, rfl⟩

/-- Times survive the output layout to the microsecond: the text of a time is read as the time cut
to microseconds, and that has the same text again. A time that was read survives it as it is, unless
it is in the leap second behind the last second that there is and finer than a microsecond. -/
theorem ofText?_text_iff (time : Timestamp) :
    ofText? time.text = some time.cutToMicros ∧ time.cutToMicros.text = time.text ∧
    ∀ text, ofText? text = some time →
      (ofText? time.text = some time ↔ ¬(time.isPastEnd = true ∧ time.nanos % 1000 ≠ 0)) := by
  refine ⟨time.ofText?_text, time.text_cutToMicros, fun text read => ?_⟩
  obtain ⟨found, rfl⟩ := toMicros_of_ofText? read
  rw [ofText?_text, Option.some.injEq, cutToMicros_toMicros]

/-- A leap second with nanoseconds, far before the year 0. -/
theorem ofText?_text_leap : ∃ time, ofText? " -4712-12-31 23:59:60.123456789 " = some time ∧
    time.text = "-4712-12-31T23:59:60.123456Z" ∧ ofText? time.text = some time := by
  have read : ∃ time ∈ ofText? " -4712-12-31 23:59:60.123456789 ",
      time.text = "-4712-12-31T23:59:60.123456Z" ∧ time.isPastEnd = false := by
    decide +kernel
  obtain ⟨time, read, text, inside⟩ := read
  refine ⟨time, read, text, ((ofText?_text_iff time).2.2 _ read).mpr ?_⟩
  rw [inside]
  nofun

/-- The last leap second that there is keeps its nanoseconds when it is read, but not when it is
written. -/
theorem ofText?_text_pastEnd : ∃ time, ofText? "+262142-12-31T23:59:60.123456789" = some time ∧
    ofText? time.text ≠ some time := by
  have read : ∃ time ∈ ofText? "+262142-12-31T23:59:60.123456789",
      ofText? time.text ≠ some time := by
    decide +kernel
  exact read

end Timestamp

end TypedSchema.Time
