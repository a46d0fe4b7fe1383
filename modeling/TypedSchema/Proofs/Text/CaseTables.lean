import Mathlib
import TypedSchema.Text.Case

/-!
What the tables of letters and of cases say. The search in a table of bounds finds the interval that
a code point is in. A capital, lowered and raised again, comes back with six exceptions, and what it
is lowered to is a letter; both are read off the runs of the tables.
-/

namespace TypedSchema.Text

/-! ## Intervals of code points -/

namespace CodePoints

variable {bounds : Array Nat} {code : Nat}

/-- The bounds that are at most a code point are those before a place between `low` and `high`. -/
structure Narrowed (bounds : Array Nat) (code low high : Nat) : Prop where
  ordered : low ≤ high
  within : high ≤ bounds.size
  before : ∀ place < low, bounds.getD place 0 ≤ code
  behind : ∀ place < bounds.size, high ≤ place → code < bounds.getD place 0

theorem getD_mono (ascending : bounds.toList.IsChain (· < ·)) {first second : Nat}
    (earlier : first ≤ second) (inside : second < bounds.size) :
    bounds.getD first 0 ≤ bounds.getD second 0 := by
  obtain later | rfl := Nat.lt_or_eq_of_le earlier
  · have sorted := List.isChain_iff_pairwise.mp ascending
    have less := List.pairwise_iff_getElem.mp sorted first second (by simp; omega) (by simpa) later
    simp only [Array.getElem_toList] at less
    rw [Array.getD_eq_getD_getElem?, Array.getD_eq_getD_getElem?,
      Array.getElem?_eq_getElem (Nat.lt_trans later inside), Array.getElem?_eq_getElem inside]
    exact Nat.le_of_lt less
  · exact Nat.le_refl _

/-- Each step of the search keeps what is known and halves the gap, until nothing is left of it. -/
theorem rankBetween_narrowed (ascending : bounds.toList.IsChain (· < ·)) {steps low high : Nat}
    (narrowed : Narrowed bounds code low high) (enough : high - low < 2 ^ steps) :
    Narrowed bounds code (rankBetween bounds code steps low high)
      (rankBetween bounds code steps low high) := by
  induction steps generalizing low high with
  | zero =>
    obtain rfl : low = high := by
      have := narrowed.ordered
      omega
    exact narrowed
  | succ steps ih =>
    rw [rankBetween]
    have within := narrowed.within
    have ordered := narrowed.ordered
    have half : 2 ^ (steps + 1) = 2 * 2 ^ steps := Nat.pow_succ'
    split
    · dsimp only
      split
      · rename_i reached
        refine ih ⟨by omega, within, fun place earlier => ?_, narrowed.behind⟩ (by omega)
        exact Nat.le_trans (getD_mono ascending (by omega) (by omega)) reached
      · rename_i missed
        refine ih ⟨by omega, by omega, narrowed.before, fun place inside later => ?_⟩ (by omega)
        exact Nat.lt_of_lt_of_le (Nat.lt_of_not_le missed) (getD_mono ascending later inside)
    · obtain rfl : low = high := by omega
      exact narrowed

/-- Whether a code point is in one of the intervals between every other bound and the next. -/
def inside (code : Nat) : List Nat → Bool
  | [] => false
  | [start] => start ≤ code
  | start :: stop :: rest => (start ≤ code && code < stop) || inside code rest

theorem countP_ascending {bounds : List Nat} (ascending : bounds.Pairwise (· < ·)) :
    decide (bounds.countP (· ≤ code) % 2 = 1) = inside code bounds := by
  induction bounds using inside.induct with
  | case1 => rfl
  | case2 start => by_cases reached : start ≤ code <;> simp [inside, reached]
  | case3 start stop rest ih =>
    obtain ⟨first, later⟩ := List.pairwise_cons.mp ascending
    obtain ⟨second, sorted⟩ := List.pairwise_cons.mp later
    have less : start < stop := first stop List.mem_cons_self
    rw [inside, ← ih sorted, List.countP_cons, List.countP_cons]
    by_cases passed : stop ≤ code
    · have reached : start ≤ code := by omega
      have outside : ¬code < stop := by omega
      simp [passed, reached, outside, Nat.add_assoc]
    · -- Behind the interval that the code point is in or before, no bound counts.
      have none : rest.countP (· ≤ code) = 0 := by
        simp only [List.countP_eq_zero, decide_eq_true_eq]
        intro bound member
        have := second bound member
        omega
      by_cases reached : start ≤ code
      · simp [passed, reached, none, Nat.lt_of_not_le passed]
      · simp [passed, reached, none]

theorem rank_eq_countP {set : CodePoints} (ascending : set.bounds.toList.IsChain (· < ·))
    (code : Nat) : set.rank code = set.bounds.toList.countP (· ≤ code) := by
  have narrowed := rankBetween_narrowed ascending
    (⟨Nat.zero_le _, Nat.le_refl _, nofun, fun place inside later => by omega⟩ :
      Narrowed set.bounds code 0 set.bounds.size) Nat.lt_log2_self
  have found : ∀ place (inside : place < set.bounds.toList.length),
      (set.bounds.toList[place] ≤ code ↔ place < set.rank code) := by
    intro place inside
    have here : set.bounds.getD place 0 = set.bounds.toList[place] := by
      rw [Array.getD_eq_getD_getElem?, Array.getElem?_eq_getElem (by simpa using inside)]
      rfl
    rw [← here]
    constructor
    · intro reached
      by_contra later
      exact absurd reached (Nat.not_le.mpr
        (narrowed.behind place (by simpa using inside) (Nat.not_lt.mp later)))
    · exact narrowed.before place
  have within : set.rank code ≤ set.bounds.toList.length := narrowed.within
  have before : (set.bounds.toList.take (set.rank code)).countP (· ≤ code) = set.rank code := by
    have all : ∀ bound ∈ set.bounds.toList.take (set.rank code), decide (bound ≤ code) = true := by
      intro bound member
      obtain ⟨place, inside, rfl⟩ := List.mem_take_iff_getElem.mp member
      exact decide_eq_true ((found place (by omega)).mpr (by omega))
    rw [List.countP_eq_length.mpr all, List.length_take, Nat.min_eq_left within]
  have behind : (set.bounds.toList.drop (set.rank code)).countP (· ≤ code) = 0 := by
    rw [List.countP_eq_zero]
    intro bound member
    obtain ⟨place, inside, rfl⟩ := List.mem_drop_iff_getElem.mp member
    have := (found (set.rank code + place) (by omega)).not.mpr (by omega)
    simpa using this
  rw [← List.take_append_drop (set.rank code) set.bounds.toList, List.countP_append, before, behind,
    Nat.add_zero]

/-- The search tells whether a code point is in one of the intervals. -/
theorem contains_eq_inside {set : CodePoints} (ascending : set.bounds.toList.IsChain (· < ·))
    (code : Nat) : set.contains code = inside code set.bounds.toList := by
  rw [contains, rank_eq_countP ascending, countP_ascending (List.isChain_iff_pairwise.mp ascending)]

/-- Whether every range, from its first code point to its last, is in one of the intervals. Both the
ranges and the bounds are in ascending order. -/
def spanned : List Nat → List (Nat × Nat) → Bool
  | start :: stop :: rest, ranges =>
    spanned rest (ranges.dropWhile fun range => start ≤ range.1 && range.2 < stop)
  | _, ranges => ranges.isEmpty

theorem inside_of_spanned {bounds : List Nat} {ranges : List (Nat × Nat)}
    (spans : spanned bounds ranges = true) {range : Nat × Nat} (member : range ∈ ranges)
    (first : range.1 ≤ code) (last : code ≤ range.2) : inside code bounds = true := by
  induction bounds, ranges using spanned.induct with
  | case1 start stop rest ranges ih =>
    rw [spanned] at spans
    rw [inside, Bool.or_eq_true]
    rw [← List.takeWhile_append_dropWhile
      (p := fun range => decide (start ≤ range.1) && decide (range.2 < stop)) (l := ranges),
      List.mem_append] at member
    cases member with
    | inl here =>
      have bounded := List.mem_takeWhile_imp here
      simp only [Bool.and_eq_true, decide_eq_true_eq] at bounded ⊢
      exact .inl ⟨by omega, by omega⟩
    | inr later => exact .inr (ih spans later)
  | case2 bounds ranges other =>
    rw [spanned.eq_2 _ _ other, List.isEmpty_iff] at spans
    rw [spans] at member
    cases member

end CodePoints

/-! ## Runs of a case mapping -/

namespace CaseRun

/-- Whether a code point that is not behind the run is in it. -/
def holds (run : CaseRun) (code : Nat) : Bool :=
  run.first ≤ code && (code - run.first) % run.stride = 0

/-- Whether a run maps all targets of another one back. -/
def undoes (run other : CaseRun) : Bool :=
  run.holds other.target && other.target + (other.last - other.first) ≤ run.last &&
    other.stride % run.stride = 0 && run.target + (other.target - run.first) = other.first

theorem undoes_holds {run other : CaseRun} (undoes : run.undoes other = true) {code : Nat}
    (held : other.holds code = true) (last : code ≤ other.last) :
    run.holds (other.target + (code - other.first)) = true ∧
      other.target + (code - other.first) ≤ run.last ∧
      run.target + (other.target + (code - other.first) - run.first) = code := by
  simp only [CaseRun.undoes, holds, Bool.and_eq_true, decide_eq_true_eq] at undoes held ⊢
  obtain ⟨⟨⟨⟨first, aligned⟩, covers⟩, strides⟩, back⟩ := undoes
  have split : other.target + (code - other.first) - run.first =
      (other.target - run.first) + (code - other.first) := by omega
  have steps : (code - other.first) % run.stride = 0 :=
    Nat.mod_eq_zero_of_dvd
      (Nat.dvd_trans (Nat.dvd_of_mod_eq_zero strides) (Nat.dvd_of_mod_eq_zero held.2))
  refine ⟨⟨by omega, ?_⟩, by omega, by omega⟩
  rw [split, Nat.add_mod, aligned, steps]
  rfl

end CaseRun

namespace CaseTable

variable {table : CaseTable} {code : Nat} {run : CaseRun}

/-- The run that decides about a code point. -/
def run? (table : CaseTable) (code : Nat) : Option CaseRun :=
  table.runs.find? fun run => code ≤ run.last

/-- The same run decides about what follows up to its end. -/
theorem run?_mono {start : Nat} (found : table.run? start = some run) (later : start ≤ code)
    (last : code ≤ run.last) : table.run? code = some run := by
  obtain ⟨-, before, behind, split, passed⟩ := List.find?_eq_some_iff_append.mp found
  refine List.find?_eq_some_iff_append.mpr
    ⟨decide_eq_true last, before, behind, split, fun other member => ?_⟩
  have ended := passed other member
  simp only [Bool.not_eq_true', decide_eq_false_iff_not] at ended ⊢
  omega

theorem mem_of_lookup {longer : List Nat} (listed : table.longer.lookup code = some longer) :
    (code, longer) ∈ table.longer := by
  obtain ⟨before, behind, split, -⟩ := List.lookup_eq_some_iff.mp listed
  rw [split]
  exact List.mem_append_right before List.mem_cons_self

theorem image_of_run (plain : table.longer.lookup code = none) (found : table.run? code = some run)
    (held : run.holds code = true) : table.image code = [run.target + (code - run.first)] := by
  unfold run? at found
  unfold CaseRun.holds at held
  simp only [image, plain, found, held, if_true]

/-- A code point that a mapping changes is listed by itself or in a run. -/
theorem image_cases (changed : table.image code ≠ [code]) :
    (code, table.image code) ∈ table.longer ∨
      ∃ run ∈ table.runs, run.holds code = true ∧ code ≤ run.last ∧
        table.image code = [run.target + (code - run.first)] := by
  unfold image at changed ⊢
  cases listed : table.longer.lookup code with
  | some longer => exact .inl (mem_of_lookup listed)
  | none =>
    simp only [listed] at changed ⊢
    cases found : table.runs.find? fun run => code ≤ run.last with
    | none => simp [found] at changed
    | some run =>
      simp only [found] at changed ⊢
      split at changed
      · rename_i held
        rw [if_pos held]
        have last : code ≤ run.last := by simpa using List.find?_some found
        exact .inr ⟨run, List.mem_of_find?_eq_some found, held, last, rfl⟩
      · exact absurd rfl changed

end CaseTable

/-! ## Capitals and their small letters -/

/-- Capitals whose small letters have other capitals or none: İ and ϴ, the capital of ß, and the
signs for ohm, kelvin and ångström. -/
def irregularCapitals : List Char :=
  ['\u0130', '\u03f4', '\u1e9e', '\u2126', '\u212a', '\u212b']

/-- Whether raising gives a code point back from the target that a run has for it. Code points that
are not capitals, and irregular ones, do not count. -/
def returns (run : CaseRun) (code : Nat) : Bool :=
  !run.holds code || (irregularCapitals.map Char.toNat).contains code ||
    upperTable.image code ≠ [code] || upperTable.image (run.target + (code - run.first)) = [code]

/-- Whether raising undoes a run of the lower case, as a whole or for each of its capitals. -/
def raised (run : CaseRun) : Bool :=
  ((upperTable.run? run.target).any fun upper => upper.undoes run) ||
    (List.range' run.first (run.last + 1 - run.first)).all (returns run)

set_option maxRecDepth 10000 in
theorem lowerRuns_raised : lowerTable.runs.all raised = true := by decide +kernel

theorem upperLonger_apart :
    upperTable.longer.all (fun entry =>
      2 ≤ entry.2.length && !(upperTable.run? entry.1).any (·.holds entry.1)) = true := by
  decide +kernel

theorem upperRuns_valid :
    upperTable.runs.all (fun run =>
      128 ≤ run.first && (run.last < 0xd800 || (0xdfff < run.first && run.last < 0x110000))) =
        true := by
  decide +kernel

set_option maxRecDepth 10000 in
theorem alphabetic_ascending : alphabeticBounds.bounds.toList.IsChain (· < ·) := by
  decide +kernel

set_option maxRecDepth 10000 in
theorem upperRuns_letters :
    CodePoints.spanned alphabeticBounds.bounds.toList
      (upperTable.runs.map fun run => (run.first, run.last)) = true := by
  decide +kernel

/-- Raising gives a regular capital back from what it is lowered to. -/
theorem image_raised {run : CaseRun} (member : run ∈ lowerTable.runs) {code : Nat}
    (held : run.holds code = true) (last : code ≤ run.last)
    (capital : upperTable.image code = [code])
    (regular : code ∉ irregularCapitals.map Char.toNat) :
    upperTable.image (run.target + (code - run.first)) = [code] := by
  have raises := List.all_eq_true.mp lowerRuns_raised run member
  rw [raised, Bool.or_eq_true] at raises
  cases raises with
  | inl whole =>
    obtain ⟨upper, found, undoes⟩ : ∃ upper, upperTable.run? run.target = some upper ∧
        upper.undoes run = true := by
      cases found : upperTable.run? run.target with
      | none => simp [found] at whole
      | some upper => exact ⟨upper, rfl, by simpa [found] using whole⟩
    obtain ⟨inRun, before, back⟩ := CaseRun.undoes_holds undoes held last
    have decides := CaseTable.run?_mono found (Nat.le_add_right _ _) before
    have plain : upperTable.longer.lookup (run.target + (code - run.first)) = none := by
      by_contra listed
      obtain ⟨longer, listed⟩ := Option.ne_none_iff_exists'.mp listed
      have apart := List.all_eq_true.mp upperLonger_apart _ (CaseTable.mem_of_lookup listed)
      simp [decides, inRun] at apart
    rw [CaseTable.image_of_run plain decides inRun, back]
  | inr each =>
    have first : run.first ≤ code := by
      simp only [CaseRun.holds, Bool.and_eq_true, decide_eq_true_eq] at held
      exact held.1
    have returned := List.all_eq_true.mp each code (List.mem_range'_1.mpr ⟨first, by omega⟩)
    have absent : (irregularCapitals.map Char.toNat).contains code = false := by
      simpa using regular
    simpa only [returns, held, absent, capital, ne_eq, not_true_eq_false, decide_false,
      Bool.not_true, Bool.or_false, Bool.false_or, decide_eq_true_eq] using returned

/-- What is raised to one other code point is a letter outside the first 128. -/
theorem letter_of_raised {code capital : Nat} (raises : upperTable.image code = [capital])
    (different : code ≠ capital) :
    128 ≤ code ∧ code.isValidChar ∧ alphabeticBounds.contains code = true := by
  have changed : upperTable.image code ≠ [code] := by
    rw [raises]
    simpa using different.symm
  rcases CaseTable.image_cases changed with listed | ⟨run, member, held, last, -⟩
  · have apart := List.all_eq_true.mp upperLonger_apart _ listed
    simp [raises] at apart
  · have first : run.first ≤ code := by
      simp only [CaseRun.holds, Bool.and_eq_true, decide_eq_true_eq] at held
      exact held.1
    have valid := List.all_eq_true.mp upperRuns_valid run member
    simp only [Bool.and_eq_true, Bool.or_eq_true, decide_eq_true_eq] at valid
    refine ⟨by omega, ?_, ?_⟩
    · unfold Nat.isValidChar
      omega
    · rw [CodePoints.contains_eq_inside alphabetic_ascending]
      exact CodePoints.inside_of_spanned upperRuns_letters
        (List.mem_map.mpr ⟨run, member, rfl⟩) first last

/-! ## Characters -/

theorem upperChar_wide {c : Char} (wide : 128 ≤ c.toNat) :
    upperChar c = (upperTable.image c.toNat).map Char.ofNat := by
  rw [upperChar, if_neg (by omega)]

theorem lowerChar_wide {c : Char} (wide : 128 ≤ c.toNat) :
    lowerChar c = (lowerTable.image c.toNat).map Char.ofNat := by
  rw [lowerChar, if_neg (by omega)]

theorem image_of_upperChar {c : Char} (wide : 128 ≤ c.toNat) (capital : upperChar c = [c]) :
    upperTable.image c.toNat = [c.toNat] := by
  rw [upperChar_wide wide] at capital
  obtain ⟨code, image, same⟩ := List.map_eq_singleton_iff.mp capital
  have number := Char.toNat_ofNat code
  rw [same] at number
  split at number
  · rw [image, number]
  · omega

/-- A regular capital is lowered to a letter that is raised to it. -/
theorem lowerChar_of_capital {c : Char} (wide : 128 ≤ c.toNat) (letter : isAlphabetic c = true)
    (capital : upperChar c = [c]) (regular : c ∉ irregularCapitals) :
    ∃ d, lowerChar c = [d] ∧ isAlphabetic d = true ∧ upperChar d = [c] := by
  have own := image_of_upperChar wide capital
  have absent : c.toNat ∉ irregularCapitals.map Char.toNat := by
    rw [List.mem_map]
    rintro ⟨other, member, same⟩
    exact regular (Char.toNat_inj.mp same ▸ member)
  by_cases changed : lowerTable.image c.toNat = [c.toNat]
  · exact ⟨c, by simp [lowerChar_wide wide, changed], letter, capital⟩
  · rcases CaseTable.image_cases changed with listed | ⟨run, member, held, last, image⟩
    · have dotted : c.toNat = 0x130 := by
        simp [lowerTable] at listed
        exact listed.1
      exact absurd (by simp [dotted, irregularCapitals]) absent
    · have raises := image_raised member held last own absent
      rw [image] at changed
      obtain ⟨wideTarget, valid, listed⟩ :=
        letter_of_raised raises fun same => changed (by rw [same])
      have number : (Char.ofNat (run.target + (c.toNat - run.first))).toNat =
          run.target + (c.toNat - run.first) := by
        rw [Char.toNat_ofNat, if_pos valid]
      refine ⟨Char.ofNat (run.target + (c.toNat - run.first)), ?_, ?_, ?_⟩
      · simp [lowerChar_wide wide, image]
      · rw [isAlphabetic, number, if_neg (by omega), listed]
      · rw [upperChar_wide (by omega), number, raises, List.map_singleton, Char.ofNat_toNat]

theorem CaseTable.image_ne_nil {table : CaseTable}
    (longer : table.longer.all (fun entry => !entry.2.isEmpty) = true) (code : Nat) :
    table.image code ≠ [] := by
  by_cases changed : table.image code = [code]
  · simp [changed]
  · rcases image_cases changed with listed | ⟨run, -, -, -, image⟩
    · simpa using List.all_eq_true.mp longer _ listed
    · simp [image]

theorem lowerChar_ne_nil (c : Char) : lowerChar c ≠ [] := by
  rw [lowerChar]
  split
  · exact List.cons_ne_nil _ _
  · exact fun none => CaseTable.image_ne_nil (by decide) _ (List.map_eq_nil_iff.mp none)

theorem upperChar_ne_nil (c : Char) : upperChar c ≠ [] := by
  rw [upperChar]
  split
  · exact List.cons_ne_nil _ _
  · exact fun none => CaseTable.image_ne_nil (by decide) _ (List.map_eq_nil_iff.mp none)

/-! ## Underscores -/

/-- Whether a mapping gives a code point for no other one. -/
def CaseTable.spares (table : CaseTable) (target : Nat) : Bool :=
  table.longer.all (fun entry => !entry.2.contains target) &&
    table.runs.all fun run => target < run.target || run.target + (run.last - run.first) < target

theorem CaseTable.not_mem_image {table : CaseTable} {target code : Nat}
    (spares : table.spares target = true) (different : code ≠ target) :
    target ∉ table.image code := by
  obtain ⟨longer, runs⟩ := Bool.and_eq_true_iff.mp spares
  by_cases changed : table.image code = [code]
  · simp [changed, different.symm]
  · rcases image_cases changed with listed | ⟨run, member, held, last, image⟩
    · simpa using List.all_eq_true.mp longer _ listed
    · have apart := List.all_eq_true.mp runs run member
      simp only [CaseRun.holds, Bool.and_eq_true, decide_eq_true_eq, Bool.or_eq_true] at held apart
      rw [image, List.mem_singleton]
      omega

/-- Nothing but an underscore is lowered or raised to one. -/
theorem underscore_spared :
    lowerTable.spares '_'.toNat = true ∧ upperTable.spares '_'.toNat = true := by
  decide +kernel

theorem CaseTable.underscore_not_mem {table : CaseTable} (spares : table.spares '_'.toNat = true)
    {c : Char} (named : c ≠ '_') : '_' ∉ (table.image c.toNat).map Char.ofNat := by
  rw [List.mem_map]
  rintro ⟨code, member, same⟩
  have number := Char.toNat_ofNat code
  rw [same] at number
  split at number
  · exact not_mem_image spares (fun equal => named (Char.toNat_inj.mp equal)) (number ▸ member)
  · exact absurd number (by decide)

end TypedSchema.Text
