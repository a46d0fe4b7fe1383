import Mathlib
import TypedSchema.Proofs.NameInversion

/-!
When a name in snake case comes back from its Pascal form. The key that joining gives for an
attribute holds no underscore, so where the attribute comes back the key does not become special.
For ASCII identifiers the letters and digits behind the underscores decide.
-/

namespace TypedSchema.Naming

/-! ## Underscores are lost -/

theorem toLower_ne_underscore {c : Char} (named : c ≠ '_') : c.toLower ≠ '_' := by
  by_cases capital : c.isUpper = true
  · exact ne_underscore (isAlphanum_toLower capital)
  · rwa [Char.toLower_eq_of_not_isUpper capital]

theorem toUpper_of_not_isAlpha {c : Char} (other : c.isAlpha = false) : c.toUpper = c := by
  rw [Char.isAlpha, Bool.or_eq_false_iff] at other
  exact Char.toUpper_eq_of_not_isLower (by simp [other.2])

theorem toUpper_ne_underscore {c : Char} (named : c ≠ '_') : c.toUpper ≠ '_' := by
  cases letter : c.isAlpha with
  | true =>
    have capital : c.toUpper.isUpper = true := by rw [Char.isUpper_toUpper_eq_isAlpha, letter]
    exact capital_ne_underscore capital
  | false => rwa [toUpper_of_not_isAlpha letter]

/-- Neither case of any other character is an underscore. -/
theorem underscore_not_mem_image {c : Char} (named : c ≠ '_') (wordStart : Bool) :
    '_' ∉ if wordStart then Text.upperChar c else Text.lowerChar c := by
  cases wordStart with
  | true =>
    rw [if_pos rfl, Text.upperChar]
    split
    · simpa using (toUpper_ne_underscore named).symm
    · exact Text.CaseTable.underscore_not_mem Text.underscore_spared.2 named
  | false =>
    rw [if_neg Bool.false_ne_true, Text.lowerChar]
    split
    · simpa using (toLower_ne_underscore named).symm
    · exact Text.CaseTable.underscore_not_mem Text.underscore_spared.1 named

theorem underscore_not_mem_joinFrom (wordStart : Bool) (name : List Char) :
    '_' ∉ joinFrom wordStart name := by
  induction name generalizing wordStart with
  | nil => exact List.not_mem_nil
  | cons c rest ih =>
    by_cases named : c = '_'
    · rw [joinFrom, if_pos named]
      exact ih true
    · rw [joinFrom_letter named, List.mem_append, not_or]
      exact ⟨underscore_not_mem_image named wordStart, ih false⟩

/-! ## Attributes that come back -/

/-- An attribute that comes back from the key that conversion gives it. -/
def Regained (name : String) : Prop :=
  snake (String.ofList (join name.toList)) = name

instance (name : String) : Decidable (Regained name) :=
  inferInstanceAs (Decidable (_ = _))

theorem isUpper_of_lowerChar {c : Char} (own : Text.lowerChar c = [c]) : c.isUpper = false := by
  rw [Bool.eq_false_iff]
  intro capital
  rw [Text.lowerChar, if_pos (toNat_lt_of_isUpper capital), List.cons.injEq] at own
  exact absurd (toLower_eq_iff.mp own.1) (by simp [capital])

theorem Spaced.refl (name : List Char) : Spaced name name := by
  induction name with
  | nil => exact .nil
  | cons c rest ih => exact .keep c ih

/-- Where joining changes nothing there is no capital behind the first letter, so nothing to break
at. -/
theorem spaced_of_joined {name spaced : List Char} (spaces : Spaced name spaced)
    (whole : '_' ∉ name) (joins : joinFrom false name = name) : spaced = name := by
  induction spaces with
  | nil => rfl
  | @keep c name spaced rest ih =>
    rw [List.mem_cons, not_or] at whole
    obtain ⟨-, later⟩ := joinFrom_letter_eq (Ne.symm whole.1) (.refl name) whole.2 joins
    rw [ih whole.2 later]
  | @gap c capital name spaced rest ih =>
    -- A capital is lowered by joining, so it would have been changed.
    rw [List.mem_cons, not_or] at whole
    obtain ⟨own, -⟩ := joinFrom_letter_eq (Ne.symm whole.1) (.refl name) whole.2 joins
    have small := isUpper_of_lowerChar (by simpa using own)
    rw [capital] at small
    cases small

/-- A name that joining does not change is given back by its words, so it is not left alone. -/
theorem not_escaped_of_joined {name : String} (joins : join name.toList = name.toList) :
    ¬Escaped name := by
  have whole : '_' ∉ name.toList := joins ▸ underscore_not_mem_joinFrom true name.toList
  have unbroken : words name.toList = name.toList := by
    cases chars : name.toList with
    | nil => rfl
    | cons first rest =>
      rw [chars] at joins whole
      rw [List.mem_cons, not_or] at whole
      obtain ⟨spaced, starts, spaces⟩ := words_spaced (Ne.symm whole.1) rest
      obtain ⟨-, later⟩ := joinFrom_letter_eq (Ne.symm whole.1) (.refl rest) whole.2 joins
      rw [starts, spaced_of_joined spaces whole.2 later]
  rintro ⟨-, held | broken⟩
  · exact whole held
  · exact broken (by rw [unbroken, joins])

/-- The key of an attribute that comes back does not become special. -/
theorem Regained.not_escaped {name : String} (regained : Regained name) :
    ¬Escaped (String.ofList (join name.toList)) := by
  intro escaped
  have same : String.ofList (join name.toList) = name :=
    (snake_of_escaped escaped).symm.trans regained
  have joins : join name.toList = name.toList := by
    rw [← String.toList_ofList (l := join name.toList), same]
  exact not_escaped_of_joined joins (same ▸ escaped)

/-! ## ASCII names that come back -/

/-- Whether there is no capital in the rest of a name and a lower letter behind each underscore. A
word of one letter is followed by one of two lower letters or more: otherwise the capitals of both
would be an acronym. `single` tells whether the word so far is one letter. -/
def snakedAfter (single : Bool) : List Char → Bool
  | [] => true
  | [last] => last.isLower || last.isDigit
  | c :: next :: rest =>
    if c = '_' then
      next.isLower && (!single || rest.head?.map Char.isLower = some true) &&
        snakedAfter true rest
    else (c.isLower || c.isDigit) && snakedAfter false (next :: rest)

/-- A name in snake case. -/
def snaked : List Char → Bool
  | [] => false
  | first :: rest => first.isLower && snakedAfter true rest

/-- Letters and digits in lower case, with an underscore before each that was a capital. -/
def unjoined (name : List Char) : List Char :=
  name.flatMap fun c => if c.isUpper then ['_', c.toLower] else [c.toLower]

/-- What follows `previous` in a name comes back: nothing in its joined form is an acronym, and
lowering that gives it again. -/
def CarriedAfter (previous : Char) (rest : List Char) : Prop :=
  ¬Acronym (previous :: joinFrom false rest) ∧ unjoined (joinFrom false rest) = rest

theorem unjoined_cons_of_upper {c : Char} (capital : c.isUpper = true) (rest : List Char) :
    unjoined (c :: rest) = '_' :: c.toLower :: unjoined rest := by
  simp [unjoined, capital]

theorem unjoined_cons_of_not_upper {c : Char} (small : c.isUpper = false) (rest : List Char) :
    unjoined (c :: rest) = c :: unjoined rest := by
  simp [unjoined, small, toLower_eq_iff.mpr small]

/-- Lowering does not change whether a lower letter comes first. -/
theorem unjoined_starts (name : List Char) :
    (unjoined name).head?.map Char.isLower = some true ↔
      name.head?.map Char.isLower = some true := by
  cases name with
  | nil => rfl
  | cons c rest =>
    cases capital : c.isUpper with
    | true =>
      rw [unjoined_cons_of_upper capital]
      simpa using Char.not_isLower_of_isUpper capital
    | false => rw [unjoined_cons_of_not_upper capital, List.head?_cons, List.head?_cons]

theorem isAlphanum_image {c : Char} (plain : c.isAlphanum = true) (wordStart : Bool) :
    (if wordStart then c.toUpper else c.toLower).isAlphanum = true := by
  cases wordStart with
  | true =>
    rw [if_pos rfl]
    cases letter : c.isAlpha with
    | true => simp [Char.isAlphanum, letter]
    | false => rwa [toUpper_of_not_isAlpha letter]
  | false =>
    rw [if_neg Bool.false_ne_true]
    by_cases capital : c.isUpper = true
    · exact isAlphanum_toLower capital
    · rwa [Char.toLower_eq_of_not_isUpper capital]

theorem isAlphanum_of_mem_joinFrom {name : List Char}
    (plain : ∀ c ∈ name, c ≠ '_' → c.isAlphanum = true) (wordStart : Bool) {c : Char}
    (member : c ∈ joinFrom wordStart name) : c.isAlphanum = true := by
  induction name generalizing wordStart with
  | nil => cases member
  | cons first rest ih =>
    have later := ih fun x listed => plain x (List.mem_cons_of_mem first listed)
    by_cases named : first = '_'
    · rw [joinFrom, if_pos named] at member
      exact later true member
    · have own := plain first List.mem_cons_self named
      rw [joinFrom_cons own, List.mem_cons] at member
      rcases member with rfl | member
      · exact isAlphanum_image own wordStart
      · exact later false member

theorem joinFrom_starts {name : List Char} (plain : ∀ c ∈ name, c ≠ '_' → c.isAlphanum = true)
    (wordStart : Bool) :
    joinFrom wordStart name = [] ∨
      ∃ c rest, joinFrom wordStart name = c :: rest ∧ c.isAlphanum = true := by
  cases joined : joinFrom wordStart name with
  | nil => exact .inl rfl
  | cons c rest =>
    exact .inr ⟨c, rest, rfl,
      isAlphanum_of_mem_joinFrom plain wordStart (joined ▸ List.mem_cons_self)⟩

theorem carriedAfter_letter {c : Char} (plain : c.isAlphanum = true) (previous : Char)
    (rest : List Char) :
    CarriedAfter previous (c :: rest) ↔ c.isUpper = false ∧ CarriedAfter c rest := by
  rw [CarriedAfter, joinFrom_cons plain, if_neg Bool.false_ne_true,
    unjoined_cons_of_not_upper (Char.isUpper_toLower_eq_false c), acronym_cons,
    Char.isUpper_toLower_eq_false, List.cons.injEq, toLower_eq_iff]
  constructor
  · rintro ⟨regular, small, same⟩
    rw [toLower_eq_iff.mpr small, not_or] at regular
    exact ⟨small, regular.2, same⟩
  · rintro ⟨small, regular, same⟩
    rw [toLower_eq_iff.mpr small]
    exact ⟨by simpa using regular, small, same⟩

theorem startsWord_iff {previous c : Char} (capital : c.isUpper = true) (rest : List Char) :
    startsWord previous c rest = true ↔
      (previous.isUpper = true → rest.head?.map Char.isLower = some true) := by
  cases upper : previous.isUpper <;> cases rest <;> simp [startsWord, capital, upper]

theorem carriedAfter_gap {next : Char} (plain : next.isAlphanum = true) (previous : Char)
    (rest : List Char) :
    CarriedAfter previous ('_' :: next :: rest) ↔
      next.isLower = true ∧
        (previous.isUpper = true → rest.head?.map Char.isLower = some true) ∧
          CarriedAfter next.toUpper rest := by
  have joined : joinFrom false ('_' :: next :: rest) =
      next.toUpper :: joinFrom false rest := by
    rw [joinFrom, if_pos rfl, joinFrom_cons plain, if_pos rfl]
  rw [CarriedAfter, joined, acronym_cons]
  cases letter : next.isAlpha with
  | true =>
    have capital : next.toUpper.isUpper = true := by rw [Char.isUpper_toUpper_eq_isAlpha, letter]
    have small : next.toLower = next ↔ next.isLower = true := by
      rw [toLower_eq_iff]
      constructor
      · intro other
        simpa [Char.isAlpha, other] using letter
      · intro lower
        simpa using Char.not_isUpper_of_isLower lower
    have starts := unjoined_starts (joinFrom false rest)
    rw [unjoined_cons_of_upper capital, Char.toLower_toUpper_eq_toLower, CarriedAfter,
      List.cons.injEq, List.cons.injEq, small, ← Bool.not_eq_true, startsWord_iff capital, capital,
      not_or]
    constructor
    · rintro ⟨⟨first, regular⟩, -, small, same⟩
      rw [same] at starts
      exact ⟨small, by tauto, regular, same⟩
    · rintro ⟨small, follows, regular, same⟩
      rw [same] at starts
      exact ⟨⟨by tauto, regular⟩, rfl, small, same⟩
  | false =>
    -- A digit has no capital, so joining loses the underscore.
    rw [toUpper_of_not_isAlpha letter]
    rw [Char.isAlpha, Bool.or_eq_false_iff] at letter
    rw [unjoined_cons_of_not_upper letter.1, letter.2]
    constructor
    · rintro ⟨-, same⟩
      exact absurd (List.cons.inj same).1 (ne_underscore plain)
    · rintro ⟨impossible, -⟩
      cases impossible

/-- In lower form an underscore stands before a letter only. -/
theorem not_carriedAfter_underscore {previous : Char} {rest : List Char}
    (plain : ∀ c ∈ rest, c ≠ '_' → c.isAlphanum = true)
    (gap : ∀ next ∈ rest.head?, next = '_') : ¬CarriedAfter previous ('_' :: rest) := by
  rintro ⟨-, same⟩
  rw [joinFrom, if_pos rfl] at same
  rcases joinFrom_starts plain true with none | ⟨c, others, joined, own⟩
  · rw [none] at same
    cases same
  · rw [joined] at same
    cases capital : c.isUpper with
    | true =>
      rw [unjoined_cons_of_upper capital] at same
      have starts := (List.cons.inj same).2
      rw [← starts] at gap
      exact toLower_ne_underscore (ne_underscore own) (gap c.toLower rfl)
    | false =>
      rw [unjoined_cons_of_not_upper capital] at same
      exact ne_underscore own (List.cons.inj same).1

theorem carriedAfter_end (previous : Char) : CarriedAfter previous [] :=
  ⟨not_acronym_singleton previous, rfl⟩

theorem snakedAfter_iff {previous : Char} {rest : List Char}
    (plain : ∀ c ∈ rest, c ≠ '_' → c.isAlphanum = true) :
    snakedAfter previous.isUpper rest = true ↔ CarriedAfter previous rest := by
  -- The induction is on the check, which knows of `previous` only whether it is a capital.
  generalize single : previous.isUpper = after
  induction after, rest using snakedAfter.induct generalizing previous with
  | case1 => exact iff_of_true rfl (carriedAfter_end previous)
  | case2 after last =>
    by_cases named : last = '_'
    · subst named
      exact iff_of_false (by simp [snakedAfter]) (not_carriedAfter_underscore nofun nofun)
    · have own := plain last List.mem_cons_self named
      rw [carriedAfter_letter own, snakedAfter, lower_or_digit own]
      simp [carriedAfter_end]
  | case3 after next rest ih =>
    have later : ∀ c ∈ rest, c ≠ '_' → c.isAlphanum = true := fun c member =>
      plain c (List.mem_cons_of_mem _ (List.mem_cons_of_mem _ member))
    rw [snakedAfter, if_pos rfl]
    by_cases named : next = '_'
    · subst named
      refine iff_of_false (by simp) (not_carriedAfter_underscore (fun c member => ?_) (by simp))
      exact plain c (List.mem_cons_of_mem _ member)
    · have own := plain next (List.mem_cons_of_mem _ List.mem_cons_self) named
      rw [carriedAfter_gap own, ← single]
      by_cases lower : next.isLower = true
      · have capital : next.toUpper.isUpper = true := by
          simp [Char.isUpper_toUpper_eq_isAlpha, Char.isAlpha, lower]
        rw [← ih later capital]
        cases previous.isUpper <;> simp [lower]
      · simp [lower]
  | case4 after c next rest named ih =>
    have own := plain c List.mem_cons_self named
    have later : ∀ x ∈ next :: rest, x ≠ '_' → x.isAlphanum = true := fun x member =>
      plain x (List.mem_cons_of_mem _ member)
    rw [carriedAfter_letter own, snakedAfter, if_neg named, lower_or_digit own]
    cases capital : c.isUpper with
    | true => simp
    | false => simpa using ih later capital

theorem identifier_plain {name : String} (identifier : isIdentifier name = true)
    (ascii : ∀ c ∈ name.toList, c.toNat < 128) :
    ∀ c ∈ name.toList, c ≠ '_' → c.isAlphanum = true := by
  obtain ⟨first, rest, chars, letter, others⟩ := identifier_ascii identifier ascii
  rw [chars]
  intro c member named
  rcases List.mem_cons.mp member with rfl | later
  · simp [Char.isAlphanum, letter named]
  · exact others c later named

/-- The key of an ASCII attribute comes back if it is an identifier that is translated, and
lowering it gives the attribute. -/
theorem regained_iff_regular {name : String} (identifier : isIdentifier name = true)
    (ascii : ∀ c ∈ name.toList, c.toNat < 128) :
    Regained name ↔ isIdentifier (String.ofList (join name.toList)) = true ∧
      ¬Irregular (join name.toList) ∧ snakeCase (join name.toList) = name.toList := by
  have plain := identifier_plain identifier ascii
  have keyAscii : ∀ c ∈ (String.ofList (join name.toList)).toList, c.toNat < 128 := by
    rw [String.toList_ofList]
    exact fun c member => toNat_lt_of_isAlphanum (isAlphanum_of_mem_joinFrom plain true member)
  have translated : isIdentifier (String.ofList (join name.toList)) = true →
      ¬Irregular (join name.toList) →
        snake (String.ofList (join name.toList)) =
          String.ofList (snakeCase (join name.toList)) := by
    intro named regular
    have translates := (pascalToSnake_ascii named keyAscii List.not_mem_nil).2
    rw [String.toList_ofList] at translates
    rw [snake, translates regular]
  constructor
  · intro regained
    have named : isIdentifier (String.ofList (join name.toList)) = true := by
      by_contra other
      have same := (snake_of_not_identifier other).symm.trans regained
      rw [same] at other
      exact other identifier
    -- An irregular key would be left alone, but the key of a regained attribute never is.
    have regular : ¬Irregular (join name.toList) := by
      have escapes := escaped_iff_irregular named keyAscii
      rw [String.toList_ofList] at escapes
      exact escapes.not.mp regained.not_escaped
    refine ⟨named, regular, ?_⟩
    rw [← String.toList_ofList (l := snakeCase (join name.toList)), ← translated named regular,
      regained]
  · rintro ⟨named, regular, lowers⟩
    rw [Regained, translated named regular, lowers, String.ofList_toList]

theorem irregular_cons {first : Char} {rest : List Char} (whole : '_' ∉ first :: rest) :
    Irregular (first :: rest) ↔ first.isUpper = false ∨ Acronym (first :: rest) := by
  constructor
  · rintro (member | ⟨_, head, small⟩ | found)
    · exact absurd member whole
    · obtain rfl : first = _ := by simpa using head
      exact .inl small
    · exact .inr found
  · rintro (small | found)
    · exact .start ⟨first, rfl, small⟩
    · exact .acronym found

theorem isIdentifier_of_plain {first : Char} {rest : List Char} (letter : first.isAlpha = true)
    (plain : ∀ c ∈ rest, c.isAlphanum = true) :
    isIdentifier (String.ofList (first :: rest)) = true := by
  have small := toNat_lt_of_isAlphanum (show first.isAlphanum = true by
    simp [Char.isAlphanum, letter])
  have alphabetic : Text.isAlphabetic first = true := by simp [Text.isAlphabetic, small, letter]
  rw [isIdentifier, String.toList_ofList, isIdentifierChars, alphabetic, Bool.true_or,
    Bool.true_and]
  exact List.all_eq_true.mpr fun c member => isNameChar_of_isAlphanum (plain c member)

/-- A leading underscore is lost: in the lower form of a key it is never first. -/
theorem snakeCase_join_underscore {rest : List Char}
    (plain : ∀ c ∈ rest, c ≠ '_' → c.isAlphanum = true) :
    snakeCase (join ('_' :: rest)) ≠ '_' :: rest := by
  intro lowers
  rw [join, joinFrom, if_pos rfl] at lowers
  rcases joinFrom_starts plain true with none | ⟨c, others, joined, own⟩
  · rw [none] at lowers
    cases lowers
  · rw [joined] at lowers
    exact toLower_ne_underscore (ne_underscore own) (List.cons.inj lowers).1

/-- An ASCII attribute comes back from its key exactly if it is in snake case. -/
theorem regained_iff_snaked {name : String} (identifier : isIdentifier name = true)
    (ascii : ∀ c ∈ name.toList, c.toNat < 128) :
    Regained name ↔ snaked name.toList = true := by
  rw [regained_iff_regular identifier ascii]
  have plain := identifier_plain identifier ascii
  cases chars : name.toList with
  | nil => simp [isIdentifier, isIdentifierChars, chars] at identifier
  | cons first rest =>
    rw [chars] at plain
    have later : ∀ c ∈ rest, c ≠ '_' → c.isAlphanum = true := fun c member =>
      plain c (List.mem_cons_of_mem first member)
    by_cases named : first = '_'
    · subst named
      exact iff_of_false (fun held => snakeCase_join_underscore later held.2.2) (by simp [snaked])
    · have own := plain first List.mem_cons_self named
      have joined : join (first :: rest) = first.toUpper :: joinFrom false rest := by
        rw [join, joinFrom_cons own, if_pos rfl]
      have irregular := irregular_cons
        (by rw [← joined]; exact underscore_not_mem_joinFrom true (first :: rest))
      have carried := @snakedAfter_iff first.toUpper rest later
      rw [joined, snaked, Bool.and_eq_true, irregular, not_or, Bool.not_eq_false]
      constructor
      · rintro ⟨-, ⟨capital, regular⟩, lowers⟩
        obtain ⟨head, tail⟩ := List.cons.inj lowers
        have letter : first.isAlpha = true := by rwa [Char.isUpper_toUpper_eq_isAlpha] at capital
        rw [Char.toLower_toUpper_eq_toLower, toLower_eq_iff] at head
        rw [capital] at carried
        exact ⟨by simpa [Char.isAlpha, head] using letter, carried.mpr ⟨regular, tail⟩⟩
      · rintro ⟨lower, after⟩
        have letter : first.isAlpha = true := by simp [Char.isAlpha, lower]
        have capital : first.toUpper.isUpper = true := by
          rw [Char.isUpper_toUpper_eq_isAlpha, letter]
        have small : first.toLower = first :=
          toLower_eq_iff.mpr (by simpa using Char.not_isUpper_of_isLower lower)
        rw [capital] at carried
        obtain ⟨regular, tail⟩ := carried.mp after
        refine ⟨isIdentifier_of_plain (by simp [Char.isAlpha, capital]) fun c member =>
          isAlphanum_of_mem_joinFrom later false member, ⟨capital, regular⟩, ?_⟩
        rw [snakeCase, Char.toLower_toUpper_eq_toLower, small]
        exact congrArg (first :: ·) tail

example : ["sample_mass", "step2_a_test", "step_2", "a__b", "a_b", "Foo", "_x", "id_"].map
    (fun name => snaked name.toList) =
      [true, true, false, false, false, false, false, false] := by
  decide

end TypedSchema.Naming
