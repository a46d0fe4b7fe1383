import Mathlib
import TypedSchema.Proofs.Naming.Escape

/-!
Which ASCII names are translated, and into what. The two scans that break a name into words add up
to one rule about the letters on either side of a capital. Joining the words gives the name back
exactly if every capital behind the first letter got its underscore.
-/

namespace TypedSchema.Naming

/-! ## Letters and digits -/

theorem not_lower_or_digit {c : Char} (capital : c.isUpper = true) :
    (c.isLower || c.isDigit) = false := by
  simp [Char.isLower, Char.isDigit, Char.isUpper, UInt32.le_iff_toNat_le] at *
  omega

/-- Of letters and digits, the capitals are those that are neither lower letters nor digits. -/
theorem lower_or_digit {c : Char} (plain : c.isAlphanum = true) :
    (c.isLower || c.isDigit) = !c.isUpper := by
  rw [Bool.eq_iff_iff]
  simp [Char.isAlphanum, Char.isAlpha, Char.isLower, Char.isDigit, Char.isUpper,
    UInt32.le_iff_toNat_le] at *
  omega

theorem toNat_lt_of_isAlphanum {c : Char} (plain : c.isAlphanum = true) : c.toNat < 128 := by
  simp [Char.isAlphanum, Char.isAlpha, Char.isLower, Char.isDigit, Char.isUpper,
    UInt32.le_iff_toNat_le] at plain
  omega

theorem ne_underscore {c : Char} (plain : c.isAlphanum = true) : c ≠ '_' := by
  rintro rfl
  exact absurd plain (by decide)

theorem toLower_eq_iff {c : Char} : c.toLower = c ↔ c.isUpper = false := by
  constructor
  · intro same
    rw [← same]
    exact Char.isUpper_toLower_eq_false c
  · intro small
    exact Char.toLower_eq_of_not_isUpper (by simp [small])

theorem toUpper_eq_iff {c : Char} (letter : c.isAlpha = true) :
    c.toUpper = c ↔ c.isUpper = true := by
  constructor
  · intro same
    rw [← same, Char.isUpper_toUpper_eq_isAlpha, letter]
  · intro capital
    exact Char.toUpper_eq_of_not_isLower (Char.not_isLower_of_isUpper capital)

/-! ## Where words break -/

/-- Whether a word starts at `c`, between `previous` and `rest`: at a capital that follows a lower
letter or a digit, or that a lower letter follows. -/
def startsWord (previous c : Char) (rest : List Char) : Bool :=
  c.isUpper && (!previous.isUpper || (rest.head?.map Char.isLower).getD false)

/-- What follows `previous` in a name, with an underscore wherever a word starts. -/
def brokenAfter (previous : Char) : List Char → List Char
  | [] => []
  | c :: rest => (if startsWord previous c rest then ['_'] else []) ++ c :: brokenAfter c rest

/-- A name with an underscore wherever a further word starts. -/
def broken : List Char → List Char
  | [] => []
  | first :: rest => first :: brokenAfter first rest

theorem breakCapitals_capital {c : Char} (capital : c.isUpper = true) (rest : List Char) :
    breakCapitals (c :: rest) = c :: breakCapitals rest := by
  cases rest with
  | nil => rfl
  | cons next rest => simp [breakCapitals, not_lower_or_digit capital]

/-- The second scan uses up the capital of a match, but a capital starts no match of its own. -/
theorem breakCapitals_cons (c next : Char) (rest : List Char) :
    breakCapitals (c :: next :: rest) =
      c :: ((if (c.isLower || c.isDigit) && next.isUpper then ['_'] else []) ++
        breakCapitals (next :: rest)) := by
  rw [breakCapitals]
  split
  · rename_i found
    have capital : next.isUpper = true := (Bool.and_eq_true_iff.mp found).2
    rw [breakCapitals_capital capital]
    rfl
  · rfl

/-- The first scan puts nothing before the first character. -/
theorem breakWords_cons (insideWord : Bool) (c : Char) (rest : List Char) :
    ∃ after, breakWords insideWord (c :: rest) = c :: after := by
  cases rest with
  | nil => exact ⟨[], rfl⟩
  | cons next rest =>
    rw [breakWords]
    split
    · exact ⟨_, rfl⟩
    · split <;> exact ⟨_, rfl⟩

/-- Where the first scan passes over a character, the second one sees it before the next. -/
theorem breakCapitals_breakWords_cons {c : Char} (plain : c.isAlphanum = true) (next : Char)
    (insideWord : Bool) (rest : List Char) :
    breakCapitals (c :: breakWords insideWord (next :: rest)) =
      c :: ((if !c.isUpper && next.isUpper then ['_'] else []) ++
        breakCapitals (breakWords insideWord (next :: rest))) := by
  obtain ⟨after, starts⟩ := breakWords_cons insideWord next rest
  rw [starts, breakCapitals_cons, lower_or_digit plain]

/-- Together the two scans break a name wherever a word starts. A match of the first scan uses up
the letters of its word, the last of which may precede a capital: that one is left to the second. -/
theorem breakCapitals_breakWords (insideWord : Bool) (name : List Char)
    (plain : ∀ c ∈ name, c.isAlphanum = true) :
    breakCapitals (breakWords insideWord name) = broken name := by
  induction insideWord, name using breakWords.induct with
  | case1 => rfl
  | case2 => rfl
  | case3 insideWord c next rest inside ih =>
    have small : c.isUpper = false := Bool.eq_false_iff.mpr
      (Char.not_isUpper_of_isLower (Bool.and_eq_true_iff.mp inside).2)
    have starts : startsWord c next rest = (!c.isUpper && next.isUpper) := by
      simp [startsWord, small]
    rw [breakWords, if_pos inside, breakCapitals_breakWords_cons (plain c List.mem_cons_self),
      ih fun x member => plain x (List.mem_cons_of_mem c member), broken, broken, brokenAfter,
      starts]
  | case4 insideWord c next rest outside word ih =>
    obtain ⟨capital, lower⟩ := Bool.and_eq_true_iff.mp word
    obtain ⟨letter, rest, rfl, small⟩ : ∃ letter after, rest = letter :: after ∧
        letter.isLower = true := by
      cases rest with
      | nil => simp at lower
      | cons letter after => exact ⟨letter, after, rfl, by simpa using lower⟩
    have starts : startsWord c next (letter :: rest) = true := by
      simp [startsWord, capital, small]
    have stays : startsWord next letter rest = false := by
      simp [startsWord, Char.not_isUpper_of_isLower small]
    have passes : breakCapitals (c :: '_' :: next :: breakWords true (letter :: rest)) =
        c :: '_' :: next :: breakCapitals (breakWords true (letter :: rest)) := by
      simp [breakCapitals_cons, breakCapitals_capital capital]
    rw [breakWords, if_neg outside, if_pos word, passes,
      ih fun x member => plain x (by simp [member])]
    simp [broken, brokenAfter, starts, stays]
  | case5 insideWord c next rest outside noWord ih =>
    -- A capital that a lower letter follows would have been a match.
    have starts : startsWord c next rest = (!c.isUpper && next.isUpper) := by
      cases capital : next.isUpper <;> simp_all [startsWord]
    rw [breakWords, if_neg outside, if_neg noWord,
      breakCapitals_breakWords_cons (plain c List.mem_cons_self),
      ih fun x member => plain x (List.mem_cons_of_mem c member), broken, broken, brokenAfter,
      starts]

theorem words_of_plain {first : Char} {rest : List Char} (letter : first.isAlpha = true)
    (plain : ∀ c ∈ rest, c.isAlphanum = true) :
    words (first :: rest) = first :: brokenAfter first rest := by
  apply breakCapitals_breakWords false (first :: rest)
  intro c member
  rcases List.mem_cons.mp member with rfl | member
  · simp [Char.isAlphanum, letter]
  · exact plain c member

/-! ## What the words give back -/

/-- A capital that follows another one and that no lower letter follows. -/
def Acronym (name : List Char) : Prop :=
  ∃ before first second after, name = before ++ first :: second :: after ∧
    first.isUpper = true ∧ second.isUpper = true ∧ ∀ next ∈ after.head?, next.isLower = false

theorem not_acronym_singleton (c : Char) : ¬Acronym [c] := by
  rintro ⟨before, first, second, after, split, -⟩
  have := congrArg List.length split
  simp at this
  omega

theorem acronym_cons {previous c : Char} {rest : List Char} :
    Acronym (previous :: c :: rest) ↔
      (c.isUpper = true ∧ startsWord previous c rest = false) ∨ Acronym (c :: rest) := by
  have here : (c.isUpper = true ∧ startsWord previous c rest = false) ↔
      previous.isUpper = true ∧ c.isUpper = true ∧ ∀ next ∈ rest.head?, next.isLower = false := by
    cases rest <;> simp [startsWord] <;> tauto
  rw [here]
  constructor
  · rintro ⟨before, first, second, after, split, capital, next, ends⟩
    cases before with
    | nil =>
      obtain ⟨rfl, rest⟩ := List.cons.inj split
      obtain ⟨rfl, rfl⟩ := List.cons.inj rest
      exact .inl ⟨capital, next, ends⟩
    | cons _ before =>
      obtain ⟨-, rest⟩ := List.cons.inj split
      exact .inr ⟨before, first, second, after, rest, capital, next, ends⟩
  · rintro (⟨capital, next, ends⟩ | ⟨before, first, second, after, split, capital, next, ends⟩)
    · exact ⟨[], previous, c, rest, rfl, capital, next, ends⟩
    · exact ⟨previous :: before, first, second, after, by rw [split]; rfl, capital, next, ends⟩

theorem joinFrom_cons {c : Char} (plain : c.isAlphanum = true) (wordStart : Bool)
    (rest : List Char) :
    joinFrom wordStart (c :: rest) =
      (if wordStart then c.toUpper else c.toLower) :: joinFrom false rest := by
  cases wordStart <;>
    simp [joinFrom, ne_underscore plain, Text.upperChar, Text.lowerChar,
      toNat_lt_of_isAlphanum plain]

/-- Joining lowers each capital that no underscore precedes. -/
theorem joinFrom_brokenAfter (previous : Char) (rest : List Char)
    (plain : ∀ c ∈ rest, c.isAlphanum = true) :
    joinFrom false (brokenAfter previous rest) = rest ↔ ¬Acronym (previous :: rest) := by
  induction rest generalizing previous with
  | nil => simp [brokenAfter, joinFrom, not_acronym_singleton]
  | cons c rest ih =>
    have further := ih c fun x member => plain x (List.mem_cons_of_mem c member)
    have plainHead : c.isAlphanum = true := plain c List.mem_cons_self
    rw [acronym_cons, brokenAfter]
    cases starts : startsWord previous c rest with
    | true =>
      have capital : c.isUpper = true := (Bool.and_eq_true_iff.mp starts).1
      have kept : c.toUpper = c :=
        Char.toUpper_eq_of_not_isLower (Char.not_isLower_of_isUpper capital)
      have step : joinFrom false ('_' :: c :: brokenAfter c rest) =
          c :: joinFrom false (brokenAfter c rest) := by
        rw [joinFrom, if_pos rfl, joinFrom_cons plainHead, if_pos rfl, kept]
      simp [step, further]
    | false =>
      simp [joinFrom_cons plainHead, toLower_eq_iff, further]

theorem join_words_iff {first : Char} {rest : List Char} (letter : first.isAlpha = true)
    (plain : ∀ c ∈ rest, c.isAlphanum = true) :
    join (words (first :: rest)) = first :: rest ↔
      first.isUpper = true ∧ ¬Acronym (first :: rest) := by
  have plainHead : first.isAlphanum = true := by simp [Char.isAlphanum, letter]
  rw [words_of_plain letter plain, join, joinFrom_cons plainHead, List.cons.injEq,
    joinFrom_brokenAfter first rest plain]
  simp [toUpper_eq_iff letter]

/-! ## Lower letters -/

/-- A name in lower letters, with an underscore before each capital but a first one. -/
def snakeCase : List Char → List Char
  | [] => []
  | first :: rest =>
    first.toLower :: rest.flatMap fun c => if c.isUpper then ['_', c.toLower] else [c.toLower]

theorem lowerAfter_ascii (before text : List Char) (ascii : ∀ c ∈ text, c.toNat < 128) :
    Text.lowerAfter before text = text.map Char.toLower := by
  induction text generalizing before with
  | nil => rfl
  | cons c rest ih =>
    have small : c.toNat < 128 := ascii c List.mem_cons_self
    have noSigma : c ≠ 'Σ' := by
      rintro rfl
      exact absurd small (by decide)
    rw [Text.lowerAfter, ih (c :: before) fun x member => ascii x (List.mem_cons_of_mem c member)]
    simp [noSigma, Text.lowerChar, small]

theorem mem_brokenAfter {previous c : Char} {rest : List Char}
    (member : c ∈ brokenAfter previous rest) : c = '_' ∨ c ∈ rest := by
  induction rest generalizing previous with
  | nil => cases member
  | cons first rest ih =>
    rw [brokenAfter, List.mem_append, List.mem_cons] at member
    rcases member with separator | rfl | member
    · exact .inl (by split at separator <;> simp_all)
    · exact .inr List.mem_cons_self
    · exact (ih member).imp_right (List.mem_cons_of_mem first)

/-- Where no acronym is, a word starts at every capital. -/
theorem map_toLower_brokenAfter (previous : Char) (rest : List Char)
    (regular : ¬Acronym (previous :: rest)) :
    (brokenAfter previous rest).map Char.toLower =
      rest.flatMap fun c => if c.isUpper then ['_', c.toLower] else [c.toLower] := by
  induction rest generalizing previous with
  | nil => rfl
  | cons c rest ih =>
    rw [acronym_cons, not_or] at regular
    have starts : startsWord previous c rest = c.isUpper := by
      cases capital : c.isUpper with
      | true => simpa [capital] using regular.1
      | false => simp [startsWord, capital]
    rw [brokenAfter, starts, List.map_append, List.map_cons, ih c regular.2, List.flatMap_cons]
    cases c.isUpper <;> rfl

/-! ## Which names are translated -/

/-- What keeps an identifier from being translated. -/
inductive Irregular (name : List Char) : Prop
  | underscore (member : '_' ∈ name)
  | start (small : ∃ first ∈ name.head?, first.isUpper = false)
  | acronym (found : Acronym name)

/-- An ASCII identifier is a letter and then letters and digits, but for underscores. -/
theorem identifier_ascii {name : String} (identifier : isIdentifier name = true)
    (ascii : ∀ c ∈ name.toList, c.toNat < 128) :
    ∃ first rest, name.toList = first :: rest ∧ (first ≠ '_' → first.isAlpha = true) ∧
      ∀ c ∈ rest, c ≠ '_' → c.isAlphanum = true := by
  unfold isIdentifier at identifier
  cases chars : name.toList with
  | nil => simp [chars, isIdentifierChars] at identifier
  | cons first rest =>
    rw [chars] at identifier ascii
    obtain ⟨letter, others⟩ := Bool.and_eq_true_iff.mp identifier
    refine ⟨first, rest, rfl, fun named => ?_, fun c member named => ?_⟩
    · simpa [named, Text.isAlphabetic, ascii first List.mem_cons_self] using letter
    · have allowed := List.all_eq_true.mp others c member
      simpa [named, Text.isAlphanumeric, Text.isAlphabetic, Text.isNumeric, Char.isAlphanum,
        ascii c (List.mem_cons_of_mem first member)] using allowed

theorem identifier_chars {name : String} (identifier : isIdentifier name = true)
    (ascii : ∀ c ∈ name.toList, c.toNat < 128) (whole : '_' ∉ name.toList) :
    ∃ first rest, name.toList = first :: rest ∧ first.isAlpha = true ∧
      ∀ c ∈ rest, c.isAlphanum = true := by
  obtain ⟨first, rest, chars, letter, others⟩ := identifier_ascii identifier ascii
  rw [chars] at whole
  refine ⟨first, rest, chars, letter fun same => whole (same ▸ List.mem_cons_self), ?_⟩
  intro c member
  exact others c member fun same => whole (same ▸ List.mem_cons_of_mem first member)

theorem escaped_iff_irregular {name : String} (identifier : isIdentifier name = true)
    (ascii : ∀ c ∈ name.toList, c.toNat < 128) : Escaped name ↔ Irregular name.toList := by
  by_cases whole : '_' ∈ name.toList
  · exact ⟨fun _ => .underscore whole, fun _ => ⟨identifier, .inl whole⟩⟩
  · obtain ⟨first, rest, chars, letter, plain⟩ := identifier_chars identifier ascii whole
    have back := join_words_iff letter plain
    rw [← chars] at back
    constructor
    · rintro ⟨-, member | broken⟩
      · exact absurd member whole
      · by_cases capital : first.isUpper = true
        · exact .acronym (not_not.mp fun regular => broken (back.mpr ⟨capital, regular⟩))
        · exact .start ⟨first, by simp [chars], Bool.eq_false_iff.mpr capital⟩
    · intro irregular
      refine ⟨identifier, .inr fun same => ?_⟩
      obtain ⟨capital, regular⟩ := back.mp same
      cases irregular with
      | underscore member => exact whole member
      | start small =>
        obtain ⟨_, head, small⟩ := small
        obtain rfl : first = _ := by simpa [chars] using head
        exact absurd capital (by simp [small])
      | acronym found => exact regular found

theorem lower_words {name : String} (identifier : isIdentifier name = true)
    (ascii : ∀ c ∈ name.toList, c.toNat < 128) (regular : ¬Irregular name.toList) :
    Text.lower (words name.toList) = snakeCase name.toList := by
  obtain ⟨first, rest, chars, letter, plain⟩ := identifier_chars identifier ascii
    fun member => regular (.underscore member)
  have small : ∀ c ∈ words name.toList, c.toNat < 128 := by
    rw [chars, words_of_plain letter plain]
    intro c member
    rcases List.mem_cons.mp member with rfl | member
    · exact toNat_lt_of_isAlphanum (by simp [Char.isAlphanum, letter])
    · rcases mem_brokenAfter member with rfl | member
      · decide
      · exact toNat_lt_of_isAlphanum (plain c member)
  rw [Text.lower, lowerAfter_ascii [] _ small, chars, words_of_plain letter plain, List.map_cons,
    map_toLower_brokenAfter first rest fun found => regular (.acronym (chars ▸ found))]
  rfl

/-- An ASCII identifier that is not special yet becomes special and stays as it is exactly if it
holds an underscore, does not start with a capital, or has an acronym in it. Otherwise it comes back
in lower letters, with an underscore before each capital but the first character, and nothing
becomes special. -/
theorem pascalToSnake_ascii {name : String} {special : SpecialNames}
    (identifier : isIdentifier name = true) (ascii : ∀ c ∈ name.toList, c.toNat < 128)
    (absent : name ∉ special) :
    (pascalToSnake name special = (name, special.insert name) ↔ Irregular name.toList) ∧
    (¬Irregular name.toList →
      pascalToSnake name special = (String.ofList (snakeCase name.toList), special)) := by
  have translated : ¬Irregular name.toList →
      pascalToSnake name special = (String.ofList (snakeCase name.toList), special) := by
    intro regular
    have plain : ¬Escaped name := fun escaped =>
      regular ((escaped_iff_irregular identifier ascii).mp escaped)
    simp [pascalToSnake, split_of_not_escaped plain absent, identifier,
      lower_words identifier ascii regular]
  refine ⟨⟨fun kept => ?_, fun irregular => ?_⟩, translated⟩
  · by_contra regular
    have same : special = special.insert name := congrArg Prod.snd (translated regular ▸ kept)
    exact absent (same ▸ SpecialNames.mem_insert.mpr (.inl rfl))
  · have escaped := (escaped_iff_irregular identifier ascii).mpr irregular
    simp [pascalToSnake, split_of_escaped escaped, absent]

theorem pascalToSnake_acronym_and_words :
    pascalToSnake "HTTPCode" [] = ("HTTPCode", ["HTTPCode"]) ∧ Irregular "HTTPCode".toList ∧
    pascalToSnake "Step2ATest" [] = ("step2_a_test", []) ∧ ¬Irregular "Step2ATest".toList := by
  have kept : pascalToSnake "HTTPCode" [] = ("HTTPCode", ["HTTPCode"]) := by decide +kernel
  have acronym : pascalToSnake "HTTPCode" [] = _ ↔ Irregular "HTTPCode".toList :=
    (pascalToSnake_ascii (by decide +kernel) (by simp) (by decide)).1
  have regular : (pascalToSnake "Step2ATest" [] = _ ↔ Irregular "Step2ATest".toList) ∧ (_ → _) :=
    pascalToSnake_ascii (by decide +kernel) (by simp) (by decide)
  have translated : ¬Irregular "Step2ATest".toList := regular.1.not.mp (by decide +kernel)
  refine ⟨kept, acronym.mp kept, (regular.2 translated).trans (by decide +kernel), translated⟩

end TypedSchema.Naming
