import TypedSchema.Compile.Resolve
import TypedSchema.Proofs.Compile.Run
import TypedSchema.Proofs.Values.Comparing

/-!
Conditions match by value. The branch of a conditional dispatcher is that of the first condition all
of whose constants the data has as values, provided that the constants are comparable with what the
data has in their place.
-/

namespace TypedSchema

variable {κ : Type}

/-- A dispatcher with a branch for the data that have some constants. -/
def Dispatcher.ofConstants (cases : List (Fields Json × Branch κ)) : Dispatcher κ :=
  .conditional (cases.map fun (constants, branch) => ⟨Value.ofJsonMembers constants, branch⟩)

namespace Json

/-- Every constant is a value of its field. -/
def HasConstants (members constants : Fields Json) : Prop :=
  ∀ entry ∈ constants, ∃ value, Fields.get? members entry.1 = some value ∧ SameValue value entry.2

/-- Every constant is comparable with what is in its field. -/
def ComparableConstants (members constants : Fields Json) : Prop :=
  ∀ entry ∈ constants, ∀ value, Fields.get? members entry.1 = some value →
    value.Comparable entry.2

end Json

/-- Data holds a condition if it has the constants as values. -/
theorem Condition.holds_iff {members constants : Fields Json}
    (whole : (Json.object members).Proper) (asked : (Json.object constants).Proper)
    (comparable : Json.ComparableConstants members constants) (branch : Branch κ) :
    Condition.holds ⟨Value.ofJsonMembers constants, branch⟩ (Value.ofJsonMembers members) = true ↔
      Json.HasConstants members constants := by
  rw [Value.ofJsonMembers_eq, Value.ofJsonMembers_eq]
  generalize data : Fields.mapValues Value.ofJson members = fields
  simp only [holds, Fields.mapValues, List.all_map, List.all_eq_true, Function.comp_apply]
  refine forall₂_congr fun entry member => ?_
  rw [← data, Fields.get?_mapValues]
  cases found : Fields.get? members entry.1 with
  | none => simp
  | some value =>
    have proper := Json.Child.proper (.member (Fields.mem_of_get? found)) whole
    have constant := Json.Child.proper (.member member) asked
    simpa using Json.sameConstant_ofJson proper constant (comparable entry member value found)

namespace Dispatcher

/-- The first case that holds is selected. -/
theorem select_find? (cases : List (Fields Json × Branch κ)) (data : Fields Value) :
    (ofConstants cases).select data =
      match cases.find? fun case =>
        Condition.holds ⟨Value.ofJsonMembers case.1, case.2⟩ data with
      | some case => .ok case.2
      | none => .error (.value [] .noCondition) := by
  unfold ofConstants select
  simp only [List.find?_map, Function.comp_def]
  cases cases.find? fun case => Condition.holds ⟨Value.ofJsonMembers case.1, case.2⟩ data <;> rfl

variable {cases : List (Fields Json × Branch κ)} {members : Fields Json}

/-- The test of a case for the data of a document. -/
def tests (members : Fields Json) (case : Fields Json × Branch κ) : Bool :=
  Condition.holds ⟨Value.ofJsonMembers case.1, case.2⟩ (Value.ofJsonMembers members)

/-- The first case that is tested with success is the first that the data has the constants of. -/
theorem find?_tests_iff (exact : ∀ case ∈ cases, (tests members case = true ↔
    Json.HasConstants members case.1)) (case : Fields Json × Branch κ) :
    cases.find? (tests members) = some case ↔ ∃ earlier later,
      cases = earlier ++ case :: later ∧ Json.HasConstants members case.1 ∧
        ∀ other ∈ earlier, ¬ Json.HasConstants members other.1 := by
  rw [List.find?_eq_some_iff_append]
  constructor
  · rintro ⟨holds, earlier, later, rfl, before⟩
    refine ⟨earlier, later, rfl, (exact case (by simp)).mp holds, fun other listed has => ?_⟩
    have fails := before other listed
    rw [(exact other (by simp [listed])).mpr has] at fails
    cases fails
  · rintro ⟨earlier, later, rfl, has, before⟩
    refine ⟨(exact case (by simp)).mpr has, earlier, later, rfl, fun other listed => ?_⟩
    rw [Bool.eq_false_iff.mpr (mt (exact other (by simp [listed])).mp (before other listed))]
    rfl

/-- A branch is selected if its case is the first whose constants the data has, all as values. There
is an error if no case is such, and it is about the value. -/
theorem select_ofConstants (whole : (Json.object members).Proper)
    (asked : ∀ case ∈ cases, (Json.object case.1).Proper)
    (comparable : ∀ case ∈ cases, Json.ComparableConstants members case.1) :
    (∀ branch, (ofConstants cases).select (Value.ofJsonMembers members) = .ok branch ↔
      ∃ earlier constants later, cases = earlier ++ (constants, branch) :: later ∧
        Json.HasConstants members constants ∧
        ∀ case ∈ earlier, ¬ Json.HasConstants members case.1) ∧
    ∀ error, (ofConstants cases).select (Value.ofJsonMembers members) = .error error ↔
      error = .value [] .noCondition ∧ ∀ case ∈ cases, ¬ Json.HasConstants members case.1 := by
  have exact : ∀ case ∈ cases, (tests members case = true ↔ Json.HasConstants members case.1) :=
    fun case listed => Condition.holds_iff whole (asked case listed) (comparable case listed) _
  have first := find?_tests_iff exact
  have selected : (ofConstants cases).select (Value.ofJsonMembers members) =
      match cases.find? (tests members) with
      | some case => .ok case.2
      | none => .error (.value [] .noCondition) := select_find? cases _
  rw [selected]
  cases found : cases.find? (tests members) with
  | some case =>
    obtain ⟨earlier, later, split, has, before⟩ := (first case).mp found
    refine ⟨fun branch => ⟨?_, ?_⟩, fun error => ⟨nofun, ?_⟩⟩
    · rintro ⟨⟩
      exact ⟨earlier, case.1, later, split, has, before⟩
    · rintro ⟨sooner, constants, rest, also, holds, none⟩
      cases found.symm.trans ((first (constants, branch)).mpr ⟨sooner, rest, also, holds, none⟩)
      rfl
    · rintro ⟨-, none⟩
      exact absurd has (none case (by simp [split]))
  | none =>
    have fails := List.find?_eq_none.mp found
    refine ⟨fun branch => ⟨nofun, ?_⟩, fun error => ⟨?_, ?_⟩⟩
    · rintro ⟨earlier, constants, later, split, has, before⟩
      cases found.symm.trans ((first (constants, branch)).mpr ⟨earlier, later, split, has, before⟩)
    · rintro ⟨⟩
      exact ⟨rfl, fun case listed has => fails case listed ((exact case listed).mpr has)⟩
    · rintro ⟨rfl, -⟩
      rfl

/-- Cases for one and for two metres, asked for as integers. -/
def countedCases : List (Fields Json × Branch Unit) :=
  [([("kind", .integer 1)], ⟨"One", ()⟩),
    ([("kind", .integer 2), ("unit", .string "m")], ⟨"Two", ()⟩)]

/-- Two metres, written as a floating number. -/
def countedPair : Fields Json :=
  [("unit", .string "m"), ("kind", .float (.ofInt 2))]

theorem number_float {value : Int} (small : value.natAbs ≤ 2 ^ 53) :
    (Json.float (.ofInt value)).number? = some (value : ℚ) :=
  congrArg some (Binary64.value_ofInt (Binary64.short_of_small small)).2

theorem select_ofConstants_counted :
    (ofConstants countedCases).select (Value.ofJsonMembers countedPair) = .ok ⟨"Two", ()⟩ := by
  have two : (Json.float (.ofInt 2)).number? = some ((2 : Int) : ℚ) := number_float (by decide)
  have whole : (Json.object countedPair).Proper := by
    refine .object (by decide) (List.forall_mem_cons.mpr ⟨.single nofun nofun,
      List.forall_mem_singleton.mpr (.single nofun ?_)⟩)
    rintro _ ⟨⟩
    decide
  have asked : ∀ case ∈ countedCases, (Json.object case.1).Proper :=
    List.forall_mem_cons.mpr ⟨.object (by decide) (List.forall_mem_singleton.mpr
      (.single nofun nofun)), List.forall_mem_singleton.mpr (.object (by decide)
        (List.forall_mem_cons.mpr ⟨.single nofun nofun, List.forall_mem_singleton.mpr
          (.single nofun nofun)⟩))⟩
  have kind : Fields.get? countedPair "kind" = some (.float (.ofInt 2)) := rfl
  have unit : Fields.get? countedPair "unit" = some (.string "m") := rfl
  have comparable : ∀ case ∈ countedCases, Json.ComparableConstants countedPair case.1 := by
    refine List.forall_mem_cons.mpr ⟨List.forall_mem_singleton.mpr fun value found => ?_,
      List.forall_mem_singleton.mpr (List.forall_mem_cons.mpr ⟨fun value found => ?_,
        List.forall_mem_singleton.mpr fun value found => ?_⟩)⟩
    · cases kind.symm.trans found
      exact .single nofun (by rintro - _ _ ⟨⟩ ⟨⟩ same; exact absurd same (by decide)) nofun
    · cases kind.symm.trans found
      exact .single nofun (fun _ _ _ _ _ _ => two) nofun
    · cases unit.symm.trans found
      exact .single nofun nofun nofun
  refine ((select_ofConstants whole asked comparable).1 _).mpr
    ⟨[([("kind", .integer 1)], ⟨"One", ()⟩)], _, [], rfl, ?_, ?_⟩
  · exact List.forall_mem_cons.mpr ⟨⟨_, kind, .number two rfl⟩,
      List.forall_mem_singleton.mpr ⟨_, unit, .string "m"⟩⟩
  · refine List.forall_mem_singleton.mpr fun has => ?_
    obtain ⟨value, found, same⟩ := has _ List.mem_cons_self
    cases kind.symm.trans found
    have values := two.symm.trans same.numbers
    rw [Json.number?, Option.some_inj, Int.cast_inj] at values
    cases values

/-- Below the top an integer is not found in a number of its value, and an integer of 54 binary
digits is found in a number of another value. -/
theorem select_confuses_numbers :
    (Json.HasConstants [("kind", .array [.float (.ofInt 1)])] [("kind", .array [.integer 1])] ∧
      (ofConstants [([("kind", .array [.integer 1])], Branch.mk "One" ())]).select
        (Value.ofJsonMembers [("kind", .array [.float (.ofInt 1)])]) =
        .error (.value [] .noCondition)) ∧
    ¬ Json.HasConstants [("kind", .float (.ofInt 9007199254740992))]
        [("kind", .integer 9007199254740993)] ∧
      (ofConstants [([("kind", .integer 9007199254740993)], Branch.mk "One" ())]).select
        (Value.ofJsonMembers [("kind", .float (.ofInt 9007199254740992))]) =
        .ok ⟨"One", ()⟩ := by
  have one : (Json.float (.ofInt 1)).number? = some ((1 : Int) : ℚ) := number_float (by decide)
  have large : (Json.float (.ofInt 9007199254740992)).number? =
      some ((9007199254740992 : Int) : ℚ) := number_float (by decide)
  refine ⟨⟨List.forall_mem_singleton.mpr ⟨_, rfl, ?_⟩, rfl⟩, fun has => ?_, rfl⟩
  · exact .array (.cons (.number one rfl) .nil)
  · obtain ⟨value, found, same⟩ := has _ List.mem_cons_self
    cases found
    have values := large.symm.trans same.numbers
    rw [Json.number?, Option.some_inj, Int.cast_inj] at values
    cases values

end Dispatcher

/-! ## The constants of a schema -/

namespace Json

theorem Proper.child_of_member? {json inner : Json} (proper : json.Proper) {name : String}
    (found : json.member? name = some inner) : inner.Proper :=
  (Json.child_of_member? found).proper proper

end Json

namespace Compile

theorem constant?_proper {schema constant : Json} (proper : schema.Proper)
    (found : constant? schema = some constant) : constant.Proper := by
  unfold constant? at found
  split at found
  · rename_i read
    cases found
    exact proper.child_of_member? read
  · split at found
    · rename_i only read
      cases found
      obtain ⟨values, held, listed⟩ := Option.bind_eq_some_iff.mp read
      cases values with
      | array items =>
        cases listed
        exact Json.Child.proper (.item List.mem_cons_self) (proper.child_of_member? held)
      | _ => cases listed
    · cases found

/-- A constant stands under the key of the schema that gives it. -/
def Gives (entry constant : String × Json) : Prop :=
  constant.1 = entry.1 ∧ constant? entry.2 = some constant.2

/-- The constants that the schemas of a condition give. -/
def AsksFor (part : Json) (constants : Fields Json) : Prop :=
  ∃ fields, ((part.member? "if").bind (Json.member? · "properties")).bind Json.object? =
    some fields ∧ List.Forall₂ Gives fields constants

theorem AsksFor.proper {part : Json} (proper : part.Proper) {constants : Fields Json}
    (asks : AsksFor part constants) : (Json.object constants).Proper := by
  obtain ⟨fields, held, each⟩ := asks
  have schemas : (Json.object fields).Proper := by
    obtain ⟨properties, found, object⟩ := Option.bind_eq_some_iff.mp held
    obtain ⟨test, tested, inner⟩ := Option.bind_eq_some_iff.mp found
    cases properties with
    | object members =>
      cases object
      exact (proper.child_of_member? tested).child_of_member? inner
    | _ => cases object
  have names : Fields.names constants = Fields.names fields :=
    Lists.map_of_related each fun entry constant gives => gives.1
  refine .object (by rw [Fields.Distinct, names]; exact Json.keyed_distinct schemas.keyed)
    fun constant listed => ?_
  obtain ⟨entry, member, gives⟩ := Lists.source_of_result each listed
  exact constant?_proper (Json.Child.proper (.member member) schemas) gives.2

/-- The constants of a condition are documents, each under the key that asks for it. -/
theorem constantsOf_ok {name : String} {part : Json} {index : Nat} {values : Fields Value}
    (proper : part.Proper) (read : constantsOf name part index = .ok values) :
    ∃ constants, AsksFor part constants ∧ values = Value.ofJsonMembers constants := by
  unfold constantsOf at read
  split at read
  · cases read
  · rename_i fields held
    obtain ⟨entries, ran, last⟩ := Outcomes.bind_ok.mp read
    cases last
    obtain ⟨constants, each, rfl⟩ : ∃ constants, List.Forall₂ Gives fields constants ∧
        entries = Value.ofJsonMembers constants := by
      have results := Outcomes.mapM_ok ran
      clear ran held read
      induction results with
      | nil => exact ⟨[], .nil, rfl⟩
      | @cons entry result _ _ own _ ih =>
        obtain ⟨constants, each, rfl⟩ := ih
        simp only at own
        cases given : constant? entry.2 with
        | none =>
          rw [given] at own
          cases own
        | some constant =>
          rw [given] at own
          cases own
          exact ⟨(entry.1, constant) :: constants, .cons ⟨rfl, given⟩ each, rfl⟩
    have asks : AsksFor part constants := ⟨fields, held, each⟩
    refine ⟨constants, asks, Fields.ofList_of_distinct ?_⟩
    rw [Fields.Distinct, Value.names_ofJsonMembers]
    exact Json.keyed_distinct (asks.proper proper).keyed

theorem conditions_ofConstants {solve : Solver} {name : String} {parts : List (Json × Nat)}
    {before after : Workspace} {conditions : List (Condition Caster × TypeExpr)}
    (proper : ∀ part ∈ parts, part.1.Proper)
    (runs : Runs (fun (part, index) => resolveCondition solve name part index) parts before
      conditions after) :
    ∃ cases, Dispatcher.conditional (conditions.map Prod.fst) = .ofConstants cases ∧
      List.Forall₂ (fun part case => AsksFor part.1 case.1) parts cases := by
  induction runs with
  | nil => exact ⟨[], rfl, .nil⟩
  | @cons part _ _ _ _ _ _ first _ ih =>
    obtain ⟨cases, same, each⟩ := ih fun other listed =>
      proper other (List.mem_cons_of_mem _ listed)
    simp only [resolveCondition, run_bind_ok, run_lift_ok, run_pure_ok, definitionAt,
      Outcomes.mapError_ok] at first
    obtain ⟨values, _, ⟨asked, rfl⟩, definition, _, _, branch, _, _, rfl, rfl⟩ := first
    obtain ⟨constants, asks, rfl⟩ := constantsOf_ok (proper part List.mem_cons_self) asked
    let target :=
      branchTarget branch.type (definition.referenceName?.getD (optionHint name part.2))
    refine ⟨(constants, ⟨target, branch.caster⟩) :: cases, ?_, .cons asks each⟩
    rw [Dispatcher.ofConstants, List.map_cons, List.map_cons]
    exact congrArg (fun rest => Dispatcher.conditional (_ :: rest))
      (Dispatcher.conditional.inj same)

/-- A polymorph of conditions asks for the constants that they give, in their order. -/
theorem resolveConditional_ofConstants {solve : Solver} {name : String} {parts : List Json}
    {before after : Workspace} {resolved : Resolved} (proper : ∀ part ∈ parts, part.Proper)
    (ran : (resolveConditional solve name parts).run before = .ok (resolved, after)) :
    ∃ cases, resolved.caster = .polymorph (.ofConstants cases) ∧
      List.Forall₂ (fun part case => AsksFor part case.1) parts cases := by
  simp only [resolveConditional, run_bind_ok, run_pure_ok] at ran
  obtain ⟨conditions, _, conditionsRan, rfl, rfl⟩ := ran
  have parts_eq : parts.zipIdx.map Prod.fst = parts := List.zipIdx_map_fst ..
  obtain ⟨cases, same, each⟩ := conditions_ofConstants (fun part listed =>
    proper part.1 (parts_eq ▸ List.mem_map_of_mem listed)) (run_mapM_ok conditionsRan)
  refine ⟨cases, congrArg Caster.polymorph same, ?_⟩
  rw [← parts_eq]
  exact List.forall₂_map_left_iff.mpr each

end Compile

end TypedSchema
