import Mathlib
import TypedSchema.Proofs.NameTranslation
import TypedSchema.Proofs.Text.CaseTables

/-!
When a translated name is translated back. Breaking a name into words only puts underscores before
capitals of the ASCII range, and where the words give the name, lowering them changes nothing but
those capitals and the first letter. What remains to be asked is whether the first letter comes back
and whether the translated name has become special for another reason.
-/

namespace TypedSchema.Naming

/-! ## Underscores before capitals -/

/-- A name, and the same with underscores before some of its ASCII capitals. -/
inductive Spaced : List Char → List Char → Prop where
  | nil : Spaced [] []
  | keep (c : Char) {name spaced : List Char} (rest : Spaced name spaced) :
    Spaced (c :: name) (c :: spaced)
  | gap {c : Char} (capital : c.isUpper = true) {name spaced : List Char}
    (rest : Spaced name spaced) : Spaced (c :: name) ('_' :: c :: spaced)

theorem capital_ne_underscore {c : Char} (capital : c.isUpper = true) : c ≠ '_' := by
  rintro rfl
  exact absurd capital (by decide)

theorem Spaced.of_cons {c : Char} {name spaced : List Char} (named : c ≠ '_')
    (whole : Spaced name (c :: spaced)) : ∃ rest, name = c :: rest ∧ Spaced rest spaced := by
  cases whole with
  | keep _ rest => exact ⟨_, rfl, rest⟩
  | gap => exact absurd rfl named

theorem breakWords_spaced (insideWord : Bool) (name : List Char) :
    Spaced name (breakWords insideWord name) := by
  induction insideWord, name using breakWords.induct with
  | case1 => exact .nil
  | case2 _ last => exact .keep last .nil
  | case3 insideWord c next rest inside ih =>
    rw [breakWords, if_pos inside]
    exact .keep c ih
  | case4 insideWord c next rest outside word ih =>
    rw [breakWords, if_neg outside, if_pos word]
    exact .keep c (.gap (Bool.and_eq_true_iff.mp word).1 ih)
  | case5 insideWord c next rest outside noWord ih =>
    rw [breakWords, if_neg outside, if_neg noWord]
    exact .keep c ih

theorem breakCapitals_spaced {name spaced : List Char} (whole : Spaced name spaced) :
    Spaced name (breakCapitals spaced) := by
  induction whole with
  | nil => exact .nil
  | keep c rest ih =>
    rename_i name spaced
    cases spaced with
    | nil => exact .keep c ih
    | cons next spaced =>
      -- A match puts an underscore before the next character, with which the rest still starts.
      rw [breakCapitals_cons]
      by_cases found : ((c.isLower || c.isDigit) && next.isUpper) = true
      · have capital : next.isUpper = true := (Bool.and_eq_true_iff.mp found).2
        rw [breakCapitals_capital capital] at ih ⊢
        obtain ⟨_, rfl, later⟩ := ih.of_cons (capital_ne_underscore capital)
        rw [if_pos found]
        exact .keep c (.gap capital later)
      · rw [if_neg found]
        exact .keep c ih
  | @gap c capital name spaced rest ih =>
    have passes : breakCapitals ('_' :: c :: spaced) = '_' :: c :: breakCapitals spaced := by
      simp [breakCapitals_cons, breakCapitals_capital capital]
    rw [passes]
    exact .gap capital ih

theorem words_spaced {first : Char} (named : first ≠ '_') (rest : List Char) :
    ∃ spaced, words (first :: rest) = first :: spaced ∧ Spaced rest spaced := by
  have whole := breakCapitals_spaced (breakWords_spaced false (first :: rest))
  obtain ⟨after, starts⟩ := breakWords_cons false first rest
  obtain ⟨spaced, broken⟩ : ∃ spaced, breakCapitals (first :: after) = first :: spaced := by
    cases after with
    | nil => exact ⟨[], rfl⟩
    | cons next after => exact ⟨_, breakCapitals_cons first next after⟩
  rw [starts, broken] at whole
  obtain ⟨_, same, spaces⟩ := whole.of_cons named
  cases same
  exact ⟨spaced, by rw [words, starts, broken], spaces⟩

/-! ## Joining -/

theorem joinFrom_letter {c : Char} (named : c ≠ '_') (wordStart : Bool) (rest : List Char) :
    joinFrom wordStart (c :: rest) =
      (if wordStart then Text.upperChar c else Text.lowerChar c) ++ joinFrom false rest := by
  rw [joinFrom, if_neg named]

theorem image_length_pos (wordStart : Bool) (c : Char) :
    0 < (if wordStart then Text.upperChar c else Text.lowerChar c).length := by
  cases wordStart with
  | true => exact List.length_pos_iff.mpr (Text.upperChar_ne_nil c)
  | false => exact List.length_pos_iff.mpr (Text.lowerChar_ne_nil c)

theorem length_le_joinFrom {name spaced : List Char} (spaces : Spaced name spaced)
    (whole : '_' ∉ name) (wordStart : Bool) :
    name.length ≤ (joinFrom wordStart spaced).length := by
  induction spaces generalizing wordStart with
  | nil => exact Nat.zero_le _
  | keep c _ ih =>
    rw [List.mem_cons, not_or] at whole
    have image := image_length_pos wordStart c
    have later := ih whole.2 false
    rw [joinFrom_letter (Ne.symm whole.1), List.length_append, List.length_cons]
    omega
  | gap capital _ ih =>
    rename_i c _ _ _
    rw [List.mem_cons, not_or] at whole
    have image := image_length_pos true c
    have later := ih whole.2 false
    rw [joinFrom, if_pos rfl, joinFrom_letter (Ne.symm whole.1), List.length_append,
      List.length_cons]
    omega

/-- Where joining gives a name, each letter is the image of itself: no image is empty, so none can
make up for a longer one. -/
theorem joinFrom_letter_eq {c : Char} (named : c ≠ '_') {name spaced : List Char}
    (spaces : Spaced name spaced) (whole : '_' ∉ name) {wordStart : Bool}
    (joins : joinFrom wordStart (c :: spaced) = c :: name) :
    (if wordStart then Text.upperChar c else Text.lowerChar c) = [c] ∧
      joinFrom false spaced = name := by
  rw [joinFrom_letter named] at joins
  have lengths := congrArg List.length joins
  have rest := length_le_joinFrom spaces whole false
  have image := image_length_pos wordStart c
  rw [List.length_append, List.length_cons] at lengths
  exact List.append_inj (joins.trans List.singleton_append.symm) (by simp; omega)

/-! ## Lowering -/

theorem toNat_lt_of_isUpper {c : Char} (capital : c.isUpper = true) : c.toNat < 128 :=
  toNat_lt_of_isAlphanum (by simp [Char.isAlphanum, Char.isAlpha, capital])

theorem isAlphanum_toLower {c : Char} (capital : c.isUpper = true) :
    c.toLower.isAlphanum = true := by
  simp [Char.isAlphanum, Char.isAlpha, capital]

theorem upperChar_toLower {c : Char} (capital : c.isUpper = true) :
    Text.upperChar c.toLower = [c] := by
  have small := toNat_lt_of_isAlphanum (isAlphanum_toLower capital)
  rw [Text.upperChar, if_pos small, Char.toUpper_toLower_eq_toUpper,
    Char.toUpper_eq_of_not_isLower (Char.not_isLower_of_isUpper capital)]

theorem lowerChar_sigma : Text.lowerChar 'Σ' = ['σ'] := by
  decide +kernel

/-- What identifiers hold after their first letter. -/
def isNameChar (c : Char) : Bool :=
  Text.isAlphanumeric c || c = '_'

theorem isNameChar_of_isAlphanum {c : Char} (plain : c.isAlphanum = true) :
    isNameChar c = true := by
  have small := toNat_lt_of_isAlphanum plain
  have allowed : Text.isAlphanumeric c = true := by
    simpa [Text.isAlphanumeric, Text.isAlphabetic, Text.isNumeric, small, Char.isAlphanum]
      using plain
  simp [isNameChar, allowed]

/-- Lowering words that give a name changes the capitals at their starts only. -/
theorem lowerAfter_spaced {name spaced : List Char} (spaces : Spaced name spaced)
    (whole : '_' ∉ name) (joins : joinFrom false spaced = name) (before : List Char) :
    joinFrom false (Text.lowerAfter before spaced) = name ∧
      (name.all isNameChar = true → (Text.lowerAfter before spaced).all isNameChar = true) := by
  induction spaces generalizing before with
  | nil => exact ⟨rfl, fun _ => rfl⟩
  | keep c rest ih =>
    rw [List.mem_cons, not_or] at whole
    obtain ⟨own, later⟩ := joinFrom_letter_eq (Ne.symm whole.1) rest whole.2 joins
    simp only [Bool.false_eq_true, if_false] at own
    -- The rule for a final sigma is for the capital, which is not its own small letter.
    have noSigma : c ≠ 'Σ' := by
      rintro rfl
      rw [lowerChar_sigma] at own
      exact absurd own (by decide)
    obtain ⟨same, allowed⟩ := ih whole.2 later (c :: before)
    rw [Text.lowerAfter, if_neg noSigma, own, List.singleton_append,
      joinFrom_letter (Ne.symm whole.1)]
    simp only [Bool.false_eq_true, if_false, own, same, List.singleton_append, List.all_cons,
      Bool.and_eq_true, true_and]
    exact fun all => ⟨all.1, allowed all.2⟩
  | gap capital rest ih =>
    rename_i c name spaced
    rw [List.mem_cons, not_or] at whole
    rw [joinFrom, if_pos rfl] at joins
    obtain ⟨-, later⟩ := joinFrom_letter_eq (Ne.symm whole.1) rest whole.2 joins
    have noSigma : c ≠ 'Σ' := by
      rintro rfl
      exact absurd capital (by decide)
    have plain := isAlphanum_toLower capital
    obtain ⟨same, allowed⟩ := ih whole.2 later (c :: '_' :: before)
    have lowered : Text.lowerAfter before ('_' :: c :: spaced) =
        '_' :: c.toLower :: Text.lowerAfter (c :: '_' :: before) spaced := by
      have small := toNat_lt_of_isUpper capital
      simp [Text.lowerAfter, noSigma, Text.lowerChar, small]
    rw [lowered, joinFrom, if_pos rfl, joinFrom_letter (ne_underscore plain)]
    simp only [if_true, upperChar_toLower capital, same, List.singleton_append, List.all_cons,
      Bool.and_eq_true, true_and]
    exact fun all => ⟨by decide, isNameChar_of_isAlphanum plain, allowed all.2⟩

/-! ## The first letter -/

theorem lower_cons (first : Char) (rest : List Char) :
    Text.lower (first :: rest) = Text.lowerChar first ++ Text.lowerAfter [first] rest := by
  rw [Text.lower, Text.lowerAfter]
  by_cases sigma : first = 'Σ'
  · subst sigma
    simp [lowerChar_sigma, Text.startsCased]
  · simp [sigma]

/-- A translated name is the lowered first letter and what joining carries back to the rest. -/
theorem snake_of_plain {name : String} (identifier : isIdentifier name = true)
    (plain : ¬Escaped name) :
    ∃ first rest lowered, name.toList = first :: rest ∧ Text.isAlphabetic first = true ∧
      Text.upperChar first = [first] ∧
      (snake name).toList = Text.lowerChar first ++ lowered ∧
      joinFrom false lowered = rest ∧ lowered.all isNameChar = true := by
  have back : '_' ∉ name.toList ∧ join (words name.toList) = name.toList := by
    simpa [Escaped, identifier] using plain
  have translated : (snake name).toList = Text.lower (words name.toList) := by
    simp [snake, pascalToSnake, split_of_not_escaped plain List.not_mem_nil, identifier]
  cases chars : name.toList with
  | nil => simp [isIdentifier, isIdentifierChars, chars] at identifier
  | cons first rest =>
    rw [isIdentifier, chars, isIdentifierChars, Bool.and_eq_true] at identifier
    rw [chars, List.mem_cons, not_or] at back
    obtain ⟨⟨named, whole⟩, joins⟩ := back
    obtain ⟨spaced, starts, spaces⟩ := words_spaced (Ne.symm named) rest
    rw [starts] at joins
    obtain ⟨capital, later⟩ := joinFrom_letter_eq (Ne.symm named) spaces whole joins
    obtain ⟨same, allowed⟩ := lowerAfter_spaced spaces whole later [first]
    refine ⟨first, rest, Text.lowerAfter [first] spaced, rfl, ?_, by simpa using capital, ?_, same,
      allowed identifier.2⟩
    · simpa [Ne.symm named] using identifier.1
    · rw [translated, chars, starts, lower_cons]

theorem alphabetic_ne_underscore {c : Char} (letter : Text.isAlphabetic c = true) : c ≠ '_' := by
  rintro rfl
  exact absurd letter (by decide)

/-- A capital is lowered to a letter that is raised to it, unless it is an irregular one. -/
theorem lowerChar_of_regular {c : Char} (letter : Text.isAlphabetic c = true)
    (capital : Text.upperChar c = [c]) (regular : c ∉ Text.irregularCapitals) :
    ∃ d, Text.lowerChar c = [d] ∧ Text.isAlphabetic d = true ∧ Text.upperChar d = [c] := by
  by_cases small : c.toNat < 128
  · have ascii : c.isAlpha = true := by simpa [Text.isAlphabetic, small] using letter
    have upper : c.isUpper = true :=
      (toUpper_eq_iff ascii).mp (by simpa [Text.upperChar, small] using capital)
    have smaller := toNat_lt_of_isAlphanum (isAlphanum_toLower upper)
    refine ⟨c.toLower, by simp [Text.lowerChar, small], ?_, upperChar_toLower upper⟩
    simpa [Text.isAlphabetic, smaller] using ascii
  · exact Text.lowerChar_of_capital (by omega) letter capital regular

theorem lowerChar_irregular : Text.irregularCapitals.map Text.lowerChar =
    [['i', '\u0307'], ['θ'], ['ß'], ['ω'], ['k'], ['å']] := by
  decide +kernel

theorem upperChar_lowered : ['i', 'θ', 'ß', 'ω', 'k', 'å'].map Text.upperChar =
    [['I'], ['Θ'], ['S', 'S'], ['Ω'], ['K'], ['Å']] := by
  decide +kernel

/-- Neither the small letter of an irregular capital nor the capital of that is the one it was. -/
theorem irregular_apart : ∀ c ∈ Text.irregularCapitals, ∀ small ∈ (Text.lowerChar c).head?,
    small ≠ '_' ∧ small ≠ c ∧ ∀ capital ∈ (Text.upperChar small).head?, capital ≠ c := by
  have lowered := lowerChar_irregular
  have raised := upperChar_lowered
  simp only [Text.irregularCapitals, List.map_cons, List.map_nil, List.cons.injEq, and_true]
    at lowered raised
  simp [Text.irregularCapitals, lowered, raised]

/-! ## Names that come back -/

theorem snakeToPascal_snake_of_regular {name : String} (identifier : isIdentifier name = true)
    (plain : ¬Escaped name)
    (regular : ∀ first ∈ name.toList.head?, first ∉ Text.irregularCapitals)
    {special : SpecialNames} (absent : snake name ∉ special) :
    snakeToPascal (snake name) special = name := by
  obtain ⟨first, rest, lowered, chars, letter, capital, translated, same, allowed⟩ :=
    snake_of_plain identifier plain
  obtain ⟨small, lowers, smallLetter, raises⟩ :=
    lowerChar_of_regular letter capital (regular first (by simp [chars]))
  rw [lowers, List.singleton_append] at translated
  have named : isIdentifier (snake name) = true := by
    rw [isIdentifier, translated, isIdentifierChars, smallLetter]
    exact allowed
  have joins : join (snake name).toList = name.toList := by
    rw [translated, join, joinFrom_letter (alphabetic_ne_underscore smallLetter), if_pos rfl,
      raises, same, chars, List.singleton_append]
  rw [snakeToPascal_of_not_mem absent named, joins, String.ofList_toList]

theorem snakeToPascal_snake_of_irregular {name : String} (identifier : isIdentifier name = true)
    (plain : ¬Escaped name) {first : Char} (starts : first ∈ name.toList.head?)
    (irregular : first ∈ Text.irregularCapitals) (special : SpecialNames) :
    snakeToPascal (snake name) special ≠ name := by
  obtain ⟨start, rest, lowered, chars, -, -, translated, -⟩ := snake_of_plain identifier plain
  obtain rfl : start = first := by simpa [chars] using starts
  obtain ⟨small, more, lowers⟩ := List.exists_cons_of_ne_nil (Text.lowerChar_ne_nil start)
  obtain ⟨named, stays, raised⟩ := irregular_apart start irregular small (by simp [lowers])
  obtain ⟨capital, others, raises⟩ := List.exists_cons_of_ne_nil (Text.upperChar_ne_nil small)
  have apart := raised capital (by simp [raises])
  rw [lowers, List.cons_append] at translated
  -- What comes back starts with the small letter, if it is kept, or else with the capital of that.
  intro back
  unfold snakeToPascal at back
  split at back
  · rw [back, chars] at translated
    exact stays (List.cons.inj translated).1.symm
  · rw [← String.toList_inj, String.toList_ofList, chars, translated, join,
      joinFrom_letter named, if_pos rfl, raises, List.cons_append] at back
    exact apart (List.cons.inj back).1

/-- With no special names an identifier comes back exactly if it becomes special or does not start
with an irregular capital: the check before the translation asks whether the words give the name
back, but it is the lowered words that are translated back. -/
theorem snakeToPascal_pascalToSnake_iff {name : String} (identifier : isIdentifier name = true) :
    snakeToPascal (pascalToSnake name []).1 (pascalToSnake name []).2 = name ↔
      Escaped name ∨ ∀ first ∈ name.toList.head?, first ∉ Text.irregularCapitals := by
  by_cases escaped : Escaped name
  · have held : name ∈ (pascalToSnake name []).2 := mem_pascalToSnake_snd.mpr (.inr ⟨rfl, escaped⟩)
    have kept : (pascalToSnake name []).1 = name := snake_of_escaped escaped
    simp [kept, snakeToPascal_of_mem held, escaped]
  · have none : (pascalToSnake name []).2 = [] := by simp [pascalToSnake_snd, escaped]
    rw [none, ← snake]
    constructor
    · intro back
      refine .inr fun first starts irregular => ?_
      exact snakeToPascal_snake_of_irregular identifier escaped starts irregular [] back
    · intro regular
      exact snakeToPascal_snake_of_regular identifier escaped (regular.resolve_left escaped)
        List.not_mem_nil

theorem snakeToPascal_pascalToSnake_letters :
    isIdentifier "Übergang" = true ∧ pascalToSnake "Übergang" [] = ("übergang", []) ∧
      snakeToPascal "übergang" [] = "Übergang" := by
  have identifier : isIdentifier "Übergang" = true := by decide +kernel
  have translated : pascalToSnake "Übergang" [] = ("übergang", []) := by decide +kernel
  have back := (snakeToPascal_pascalToSnake_iff identifier).mpr
    (.inr (by simp [Text.irregularCapitals]))
  rw [translated] at back
  exact ⟨identifier, translated, back⟩

/-- The sign for kelvin is lowered to a plain k, the capital of which is a plain K. -/
theorem snakeToPascal_pascalToSnake_kelvin :
    isIdentifier "\u212a" = true ∧ pascalToSnake "\u212a" [] = ("k", []) ∧
      snakeToPascal "k" [] = "K" ∧
      snakeToPascal (pascalToSnake "\u212a" []).1 (pascalToSnake "\u212a" []).2 ≠ "\u212a" := by
  decide +kernel

/-! ## Names that share a set -/

/-- The special names after some names have been translated. -/
def converted (names : List String) (special : SpecialNames) : SpecialNames :=
  names.foldl (fun sofar name => (pascalToSnake name sofar).2) special

theorem Sound.converted {special : SpecialNames} (sound : Sound special) (names : List String) :
    Sound (converted names special) := by
  induction names generalizing special with
  | nil => exact sound
  | cons name names ih => exact ih (sound.pascalToSnake name)

theorem pascalToSnake_of_kept {name : String} {special : SpecialNames}
    (kept : Escaped name ∨ name ∈ special) : (pascalToSnake name special).1 = name := by
  cases kept with
  | inl escaped => simp [pascalToSnake, split_of_escaped escaped]
  | inr held => simp [pascalToSnake, split, held]

theorem pascalToSnake_of_plain {name : String} {special : SpecialNames} (plain : ¬Escaped name)
    (absent : name ∉ special) : pascalToSnake name special = (snake name, special) := by
  unfold snake pascalToSnake
  rw [split_of_not_escaped plain absent, split_of_not_escaped plain List.not_mem_nil]
  cases isIdentifier name <;> rfl

theorem not_irregular {c : Char} (ascii : c.toNat < 128) : c ∉ Text.irregularCapitals := by
  intro irregular
  have wide : ∀ c ∈ Text.irregularCapitals, 128 ≤ c.toNat := by simp [Text.irregularCapitals]
  have := wide c irregular
  omega

/-- Whatever names are special, an ASCII identifier comes back exactly if it stayed as it is or what
it was translated to is not special; what is special stays as it is on the way back. Where the
special names come from translating names, translating more names changes nothing. -/
theorem snakeToPascal_pascalToSnake_shared {name : String} (identifier : isIdentifier name = true)
    (ascii : ∀ c ∈ name.toList, c.toNat < 128) (special : SpecialNames) :
    (snakeToPascal (pascalToSnake name special).1 (pascalToSnake name special).2 = name ↔
      (pascalToSnake name special).1 = name ∨
        (pascalToSnake name special).1 ∉ (pascalToSnake name special).2) ∧
    ((pascalToSnake name special).1 ≠ name →
      (pascalToSnake name special).1 ∈ (pascalToSnake name special).2 →
      snakeToPascal (pascalToSnake name special).1 (pascalToSnake name special).2 =
        (pascalToSnake name special).1) ∧
    ∀ earlier, special = converted earlier [] → ∀ later,
      (pascalToSnake name (converted later (pascalToSnake name special).2)).1 =
        (pascalToSnake name special).1 := by
  refine ⟨?_, fun _ held => snakeToPascal_of_mem held, ?_⟩
  · by_cases kept : Escaped name ∨ name ∈ special
    · have same : (pascalToSnake name special).1 = name := pascalToSnake_of_kept kept
      have held : name ∈ (pascalToSnake name special).2 :=
        mem_pascalToSnake_snd.mpr (kept.symm.imp_right fun escaped => ⟨rfl, escaped⟩)
      simp [same, snakeToPascal_of_mem held]
    · obtain ⟨plain, absent⟩ := not_or.mp kept
      rw [pascalToSnake_of_plain plain absent]
      by_cases held : snake name ∈ special
      · simp [snakeToPascal_of_mem held, held]
      · have regular : ∀ first ∈ name.toList.head?, first ∉ Text.irregularCapitals :=
          fun first starts => not_irregular (ascii first (List.mem_of_mem_head? starts))
        simp [snakeToPascal_snake_of_regular identifier plain regular held, held]
  · rintro earlier rfl later
    have sound := Sound.nil.converted earlier
    rw [pascalToSnake_fst ((sound.pascalToSnake name).converted later), pascalToSnake_fst sound]

/-- A name that has become special before stands in the way of one that is translated to it. -/
theorem snakeToPascal_pascalToSnake_taken :
    converted ["sample_mass"] [] = ["sample_mass"] ∧
      pascalToSnake "SampleMass" ["sample_mass"] = ("sample_mass", ["sample_mass"]) ∧
      snakeToPascal "sample_mass" ["sample_mass"] ≠ "SampleMass" ∧
      ∀ later,
        (pascalToSnake "SampleMass" (converted later ["sample_mass"])).1 = "sample_mass" := by
  have taken : converted ["sample_mass"] [] = ["sample_mass"] := by decide +kernel
  have translated : pascalToSnake "SampleMass" ["sample_mass"] =
      ("sample_mass", ["sample_mass"]) := by
    decide +kernel
  have shared := @snakeToPascal_pascalToSnake_shared "SampleMass" (by decide +kernel) (by simp)
    ["sample_mass"]
  rw [translated] at shared
  exact ⟨taken, translated, shared.1.not.mpr (by simp), shared.2.2 ["sample_mass"] taken.symm⟩

end TypedSchema.Naming
