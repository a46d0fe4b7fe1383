import Mathlib
import TypedSchema.Proofs.Time.Calendar
import TypedSchema.Time.Layout

/-!
Layouts read what the output layout has written: numbers with leading zeros come back as long as no
further digit follows them, item by item, and then the date and the time of day as wholes.
-/

namespace TypedSchema.Time

/-! ## Digits -/

section

variable {digits rest : List Char} {c : Char} {width value most : Nat}

/-- No digit follows. -/
def EndsNumber (rest : List Char) : Prop :=
  ∀ c ∈ rest.head?, c.isDigit = false

theorem natOfDigits_toDigits (value : Nat) : natOfDigits (Nat.toDigits 10 value) = value :=
  Nat.ofDigitChars_ten_toDigits

theorem natOfDigits_padded (width value : Nat) :
    natOfDigits (Timestamp.padded width value) = value := by
  have zeros : ∀ count, (List.replicate count '0').foldl
      (fun sofar digit => 10 * sofar + (digit.toNat - '0'.toNat)) 0 = 0 := by
    intro count
    induction count with
    | zero => rfl
    | succ count ih => exact ih
  rw [Timestamp.padded, natOfDigits, List.foldl_append, zeros]
  exact natOfDigits_toDigits value

theorem isDigit_of_mem_padded (member : c ∈ Timestamp.padded width value) : c.isDigit = true := by
  rcases List.mem_append.mp member with zero | digit
  · rw [List.eq_of_mem_replicate zero]
    rfl
  · exact Nat.isDigit_of_mem_toDigits (by decide) (by decide) digit

theorem padded_ne_nil (width value : Nat) : Timestamp.padded width value ≠ [] := by
  simp [Timestamp.padded, Nat.toDigits_ne_nil]

theorem length_padded (some : 0 < width) (small : value < 10 ^ width) :
    (Timestamp.padded width value).length = width := by
  have few := (Nat.length_toDigits_le_iff (by decide) some).mpr small
  simp only [Timestamp.padded, List.length_append, List.length_replicate]
  omega

theorem takeWhile_digits (all : ∀ c ∈ digits, c.isDigit = true) (ends : EndsNumber rest) :
    (digits ++ rest).takeWhile Char.isDigit = digits := by
  rw [List.takeWhile_append_of_pos all]
  cases rest with
  | nil => simp
  | cons c rest => simp [ends c rfl]

theorem EndsNumber.take (ends : EndsNumber rest) (count : Nat) : EndsNumber (rest.take count) := by
  cases count with
  | zero => nofun
  | succ count =>
    cases rest with
    | nil => exact ends
    | cons c rest => exact ends

theorem number?_digits (all : ∀ c ∈ digits, c.isDigit = true) (some : digits ≠ [])
    (few : digits.length ≤ most) (ends : EndsNumber rest) :
    number? most (digits ++ rest) = .some (natOfDigits digits, rest) := by
  have found : ((digits ++ rest).take most).takeWhile Char.isDigit = digits := by
    rw [List.take_append, List.take_of_length_le few]
    exact takeWhile_digits all (ends.take _)
  simp [number?, found, some]

theorem fixed?_digits (all : ∀ c ∈ digits, c.isDigit = true) (exact : digits.length = width) :
    fixed? width (digits ++ rest) = some (natOfDigits digits, rest) := by
  subst exact
  have found : digits.takeWhile Char.isDigit = digits := by
    simpa using @takeWhile_digits digits [] all nofun
  simp [fixed?, found]

theorem fraction?_digits (all : ∀ c ∈ digits, c.isDigit = true) (some : digits ≠ [])
    (few : digits.length ≤ 9) (ends : EndsNumber rest) :
    fraction? (digits ++ rest) =
      .some (natOfDigits digits * 10 ^ (9 - digits.length), rest) := by
  simp [fraction?, takeWhile_digits all ends, some, List.take_of_length_le few]

theorem not_isBlank_of_isDigit (digit : c.isDigit = true) : Text.isBlank c = false := by
  simp only [Char.isDigit, Bool.and_eq_true, decide_eq_true_eq, ge_iff_le,
    UInt32.le_iff_toNat_le] at digit
  have bounds : 48 ≤ c.toNat ∧ c.toNat ≤ 57 := digit
  simp only [Text.isBlank, Bool.or_eq_false_iff, Bool.and_eq_false_iff, decide_eq_false_iff_not]
  omega

/-- No white space is skipped before a number. -/
theorem skipBlanks_digits (all : ∀ c ∈ digits, c.isDigit = true) (some : digits ≠ []) :
    skipBlanks (digits ++ rest) = digits ++ rest := by
  cases digits with
  | nil => exact absurd rfl some
  | cons c digits =>
    have solid : Text.isBlank c = false := not_isBlank_of_isDigit (all c List.mem_cons_self)
    simp [skipBlanks, solid]

end

/-! ## Items -/

namespace Item

variable {reading : Reading} {rest : List Char} {value : Nat}

theorem read_mark {choices : List Char} {c : Char} (choice : c ∈ choices) :
    read reading (c :: rest) (.mark choices) = some (reading, rest) := by
  simp [read, choice]

theorem read_mark_other {choices : List Char} {c : Char} (other : c ∉ choices) :
    read reading (c :: rest) (.mark choices) = none := by
  simp [read, other]

theorem read_fixed_padded (part : Part) (small : value < 10 ^ part.width) :
    read reading (Timestamp.padded part.width value ++ rest) (.fixed part) =
      some (reading.set value part, rest) := by
  have some : 0 < part.width := by cases part <;> decide
  have digits := @fixed?_digits _ rest _ (fun c member => isDigit_of_mem_padded member)
    (length_padded some small)
  simp [read, digits, natOfDigits_padded]

theorem read_fixed_year (small : value < 10000) :
    read reading (Timestamp.padded 4 value ++ rest) (.fixed .year) =
      some (reading.set value .year, rest) :=
  read_fixed_padded .year small

theorem read_fixed {part : Part} (two : part.width = 2) (small : value < 100) :
    read reading (Timestamp.padded 2 value ++ rest) (.fixed part) =
      some (reading.set value part, rest) := by
  have padded := @read_fixed_padded reading rest value part
  rw [two] at padded
  exact padded small

/-- A part that is no year has up to two digits. -/
theorem read_number {part : Part} (two : part.width = 2) (small : value < 100)
    (ends : EndsNumber rest) :
    read reading (Timestamp.padded 2 value ++ rest) (.number part) =
      some (reading.set value part, rest) := by
  have all : ∀ c ∈ Timestamp.padded 2 value, c.isDigit = true :=
    fun c member => isDigit_of_mem_padded member
  have few : (Timestamp.padded 2 value).length ≤ part.width :=
    Nat.le_of_eq ((length_padded (by decide) small).trans two.symm)
  have digits := number?_digits all (padded_ne_nil 2 value) few ends
  have start := @skipBlanks_digits _ rest all (padded_ne_nil 2 value)
  cases part with
  | year => cases two
  | _ => simp [read, start, digits, natOfDigits_padded]

/-- A year outside four digits is written with a sign, and then all its digits are read. -/
theorem read_year {year : Int} (long : year < 0 ∨ 9999 < year) (ends : EndsNumber rest) :
    read reading (Timestamp.yearText year ++ rest) (.number .year) =
      some ({ reading with year }, rest) := by
  have outside : ¬(0 ≤ year ∧ year ≤ 9999) := by omega
  have few : (Timestamp.padded 4 year.natAbs).length ≤
      (Timestamp.padded 4 year.natAbs ++ rest).length := by
    rw [List.length_append]
    omega
  have digits := number?_digits (fun c member => isDigit_of_mem_padded member)
    (padded_ne_nil 4 year.natAbs) few ends
  rw [Timestamp.yearText, if_neg (by simpa using outside)]
  by_cases negative : year < 0
  · have size : -(year.natAbs : Int) = year := by omega
    have solid : skipBlanks ('-' :: (Timestamp.padded 4 year.natAbs ++ rest)) =
        '-' :: (Timestamp.padded 4 year.natAbs ++ rest) := rfl
    simp only [negative, read, List.cons_append, solid, digits, natOfDigits_padded,
      Option.map_some, size, if_true, Char.isValue]
  · have size : (year.natAbs : Int) = year := by omega
    have solid : skipBlanks ('+' :: (Timestamp.padded 4 year.natAbs ++ rest)) =
        '+' :: (Timestamp.padded 4 year.natAbs ++ rest) := rfl
    simp only [negative, read, List.cons_append, solid, digits, natOfDigits_padded,
      Option.map_some, size, Reading.set, if_false, Char.isValue]

theorem read_fraction (small : value < 1000000) (ends : EndsNumber rest) :
    read reading ('.' :: (Timestamp.padded 6 value ++ rest)) .fraction =
      some ({ reading with nanos := value * 1000 }, rest) := by
  have length := length_padded (by decide : 0 < 6) (by simpa using small)
  have digits := fraction?_digits (fun c member => isDigit_of_mem_padded member)
    (padded_ne_nil 6 value) (by omega) ends
  simp [read, digits, natOfDigits_padded, length]

end Item

/-! ## Layouts -/

namespace Layout

variable {reading after : Reading} {text rest : List Char} {layout : Layout}

theorem read_cons {item : Item} (first : item.read reading text = some (after, rest)) :
    read (item :: layout) reading text = read layout after rest := by
  simp [read, first]

theorem read_stops {item : Item} (first : item.read reading text = none) :
    read (item :: layout) reading text = none := by
  simp [read, first]

end Layout

theorem endsNumber_cons {c : Char} (other : c.isDigit = false) (rest : List Char) :
    EndsNumber (c :: rest) := by
  intro first head
  rw [List.head?_cons, Option.mem_some_iff] at head
  exact head ▸ other

namespace Reading

/-- The text of a reading in the output layout, up to the second. -/
def text (reading : Reading) : List Char :=
  Timestamp.yearText reading.year ++ '-' :: Timestamp.padded 2 reading.month ++
    '-' :: Timestamp.padded 2 reading.day ++ 'T' :: Timestamp.padded 2 reading.hour ++
    ':' :: Timestamp.padded 2 reading.minute ++ ':' :: Timestamp.padded 2 reading.second

/-- Whether all parts but the year have at most two digits. -/
structure Short (reading : Reading) : Prop where
  month : reading.month < 100
  day : reading.day < 100
  hour : reading.hour < 100
  minute : reading.minute < 100
  second : reading.second < 100

end Reading

namespace Layout

variable {reading start : Reading} {rest : List Char} {micros : Nat} (short : reading.Short)

include short

theorem read_clock (layout : Layout) :
    read (clock ++ layout) start (Timestamp.padded 2 reading.hour ++
        ':' :: (Timestamp.padded 2 reading.minute ++
          ':' :: (Timestamp.padded 2 reading.second ++ '.' :: rest))) =
      read layout { start with
        hour := reading.hour, minute := reading.minute, second := reading.second }
        ('.' :: rest) := by
  have colon := @endsNumber_cons ':' rfl
  simp only [clock, hourMinute, List.cons_append, List.nil_append]
  rw [read_cons (Item.read_number rfl short.hour (colon _)),
    read_cons (Item.read_mark List.mem_cons_self),
    read_cons (Item.read_number rfl short.minute (colon _)),
    read_cons (Item.read_mark List.mem_cons_self),
    read_cons (Item.read_number rfl short.second (endsNumber_cons rfl _))]
  rfl

theorem read_date (long : reading.year < 0 ∨ 9999 < reading.year) (layout : Layout) :
    read (date '-' ++ layout) {} (Timestamp.yearText reading.year ++
        '-' :: (Timestamp.padded 2 reading.month ++
          '-' :: (Timestamp.padded 2 reading.day ++ 'T' :: rest))) =
      read layout { year := reading.year, month := reading.month, day := reading.day }
        ('T' :: rest) := by
  have hyphen := @endsNumber_cons '-' rfl
  simp only [date, List.cons_append, List.nil_append]
  rw [read_cons (Item.read_year long (hyphen _)),
    read_cons (Item.read_mark List.mem_cons_self),
    read_cons (Item.read_number rfl short.month (hyphen _)),
    read_cons (Item.read_mark List.mem_cons_self),
    read_cons (Item.read_number rfl short.day (endsNumber_cons rfl _))]
  rfl

/-- A year of four digits is read by the standard. -/
theorem read_standard (year : 0 ≤ reading.year ∧ reading.year ≤ 9999) (small : micros < 1000000) :
    read standard {} (reading.text ++ '.' :: Timestamp.padded 6 micros ++ ['Z']) =
      some { reading with nanos := micros * 1000, offset := 0 } := by
  have digits : Timestamp.yearText reading.year = Timestamp.padded 4 reading.year.toNat := by
    simp [Timestamp.yearText, year]
  have size : (reading.year.toNat : Int) = reading.year := by omega
  simp only [Reading.text, standard, digits, List.append_assoc, List.cons_append]
  rw [read_cons (Item.read_fixed_year (by omega)),
    read_cons (Item.read_mark List.mem_cons_self),
    read_cons (Item.read_fixed rfl short.month),
    read_cons (Item.read_mark List.mem_cons_self),
    read_cons (Item.read_fixed rfl short.day),
    read_cons (Item.read_mark List.mem_cons_self),
    read_cons (Item.read_fixed rfl short.hour),
    read_cons (Item.read_mark List.mem_cons_self),
    read_cons (Item.read_fixed rfl short.minute),
    read_cons (Item.read_mark List.mem_cons_self),
    read_cons (Item.read_fixed rfl short.second),
    read_cons (Item.read_fraction small (endsNumber_cons rfl _))]
  simp [read, Item.read, Reading.set, size]

section

variable (long : reading.year < 0 ∨ 9999 < reading.year)

include long

/-- A year with a sign is read by the first layout that allows one and asks for no offset. -/
theorem read_naive (small : micros < 1000000) :
    read (date '-' ++ [.mark ['T']] ++ clock ++ [.fraction]) {}
        (reading.text ++ '.' :: Timestamp.padded 6 micros) =
      some { reading with nanos := micros * 1000, offset := 0 } := by
  have fraction := @Item.read_fraction
    ⟨reading.year, reading.month, reading.day, reading.hour, reading.minute, reading.second, 0, 0⟩
    [] micros small nofun
  rw [List.append_nil] at fraction
  simp only [Reading.text, List.append_assoc, List.cons_append, List.nil_append]
  rw [read_date short long, read_cons (Item.read_mark List.mem_cons_self), read_clock short,
    read_cons fraction]
  rfl

omit short in
theorem standard_refuses (rest : List Char) : read standard {} (reading.text ++ rest) = none := by
  have outside : ¬(0 ≤ reading.year ∧ reading.year ≤ 9999) := by omega
  refine read_stops ?_
  simp only [Reading.text, Timestamp.yearText, decide_eq_true_eq, Bool.and_eq_true, outside,
    if_false, List.cons_append]
  split <;> rfl

/-- The layouts with an offset ask for a sign at the end, for a digit behind the date, or for other
separators in it. -/
theorem withOffset_refuse (small : micros < 1000000) : ∀ layout ∈ withOffset,
    read layout {} (reading.text ++ '.' :: Timestamp.padded 6 micros ++ ['Z']) = none := by
  have fraction := @Item.read_fraction
    ⟨reading.year, reading.month, reading.day, reading.hour, reading.minute, reading.second, 0, 0⟩
    ['Z'] micros small (endsNumber_cons rfl _)
  simp only [withOffset, Reading.text, List.append_assoc, List.cons_append, List.nil_append,
    List.forall_mem_cons]
  refine ⟨?_, ?_, ?_, nofun⟩
  · rw [read_date short long, read_cons (Item.read_mark List.mem_cons_self), read_clock short,
      read_cons fraction]
    rfl
  · rw [read_date short long]
    rfl
  · simp only [date, List.cons_append, List.nil_append]
    rw [read_cons (Item.read_year long (endsNumber_cons rfl _)),
      read_stops (Item.read_mark_other (by decide))]

end

end Layout

/-! ## Texts -/

theorem trim_of_solid {first last : Char} {text : List Char} (start : Text.isBlank first = false)
    (stop : Text.isBlank last = false) :
    Text.trim (first :: text ++ [last]) = first :: text ++ [last] := by
  simp [Text.trim, start, stop]

theorem yearText_solid (year : Int) :
    ∃ first rest, Timestamp.yearText year = first :: rest ∧ Text.isBlank first = false := by
  unfold Timestamp.yearText
  split
  · obtain ⟨first, rest, shape⟩ := List.exists_cons_of_ne_nil (padded_ne_nil 4 year.toNat)
    have digit : first.isDigit = true :=
      @isDigit_of_mem_padded first 4 year.toNat (shape ▸ List.mem_cons_self)
    exact ⟨first, rest, shape, not_isBlank_of_isDigit digit⟩
  · refine ⟨_, _, rfl, ?_⟩
    split <;> rfl

theorem Layout.findSome?_eq_none {layouts : List Layout} {text : List Char}
    (refuse : ∀ layout ∈ layouts, layout.read {} text = none) :
    layouts.findSome? (·.timestamp? text) = none := by
  rw [List.findSome?_eq_none_iff]
  intro layout member
  rw [timestamp?, refuse layout member, Option.bind_none]

/-- What is written for a reading is read as just that. -/
theorem ofText?_of_reading {reading : Reading} (short : reading.Short) {micros : Nat}
    (small : micros < 1000000) {time : Timestamp}
    (found : { reading with nanos := micros * 1000, offset := 0 }.timestamp? = some time) :
    Timestamp.ofText? (String.ofList
      (reading.text ++ '.' :: Timestamp.padded 6 micros ++ ['Z'])) = some time.toMicros := by
  have solid : Text.trim (reading.text ++ '.' :: Timestamp.padded 6 micros ++ ['Z']) =
      reading.text ++ '.' :: Timestamp.padded 6 micros ++ ['Z'] := by
    obtain ⟨first, rest, shape, start⟩ := yearText_solid reading.year
    rw [Reading.text, shape]
    exact trim_of_solid start rfl
  have zulu : dropZulu (reading.text ++ '.' :: Timestamp.padded 6 micros ++ ['Z']) =
      reading.text ++ '.' :: Timestamp.padded 6 micros := by
    simp [dropZulu]
  rw [Timestamp.ofText?, String.toList_ofList, solid, zulu]
  by_cases year : 0 ≤ reading.year ∧ reading.year ≤ 9999
  · have first : Layout.standard.timestamp?
        (reading.text ++ '.' :: Timestamp.padded 6 micros ++ ['Z']) = some time := by
      rw [Layout.timestamp?, Layout.read_standard short year small, Option.bind_some, found]
    rw [List.findSome?_cons, first]
    rfl
  · have long : reading.year < 0 ∨ 9999 < reading.year := by omega
    have none : (Layout.standard :: Layout.withOffset).findSome?
        (·.timestamp? (reading.text ++ '.' :: Timestamp.padded 6 micros ++ ['Z'])) = none := by
      refine Layout.findSome?_eq_none fun layout member => ?_
      rcases List.mem_cons.mp member with rfl | other
      · rw [List.append_assoc]
        exact Layout.standard_refuses long _
      · exact Layout.withOffset_refuse short long small layout other
    have first :
        (Layout.date '-' ++ [.mark ['T']] ++ Layout.clock ++ [.fraction] : Layout).timestamp?
          (reading.text ++ '.' :: Timestamp.padded 6 micros) = some time := by
      rw [Layout.timestamp?, Layout.read_naive short long small, Option.bind_some, found]
    rw [none, Layout.naive, List.findSome?_cons, first]
    rfl

end TypedSchema.Time
