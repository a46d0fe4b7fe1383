import TypedSchema.Proofs.Registry.Reach
import TypedSchema.Proofs.Values.Rereading

/-!
The declared values of an enumeration. Every entry has an id, and its member goes by the name that
the id is converted to. Conversion takes several ids to one name, and the last entry of a name is
its only member; a value that is looked up finds it by the id alone.
-/

namespace TypedSchema

/-! ## Member names -/

namespace Naming

/-- Names that are special because they hold an underscore. -/
def Underscored (special : SpecialNames) : Prop :=
  ∀ name ∈ special, '_' ∈ name.toList

theorem Underscored.nil : Underscored [] := by
  intro name member
  cases member

theorem Underscored.pascalToUpperSnake {special : SpecialNames} (underscored : Underscored special)
    (id : String) : Underscored (pascalToUpperSnake id special).2 := by
  intro name member
  simp only [Naming.pascalToUpperSnake, split, Bool.false_and] at member
  by_cases left : (!isIdentifier id || special.contains id) = true
  · exact underscored name (by simpa [left] using member)
  · by_cases underscore : '_' ∈ id.toList
    · simp only [left, List.contains_iff_mem, underscore, if_true, Bool.false_eq_true, if_false,
        SpecialNames.mem_insert] at member
      cases member with
      | inl same => exact same ▸ underscore
      | inr held => exact underscored name held
    · exact underscored name (by simpa [left, underscore] using member)

/-- Special names with underscores change nothing, as such names are left alone anyway. -/
theorem pascalToUpperSnake_fst {special : SpecialNames} (underscored : Underscored special)
    (id : String) : (pascalToUpperSnake id special).1 = (pascalToUpperSnake id []).1 := by
  by_cases identifier : isIdentifier id = true
  · by_cases underscore : '_' ∈ id.toList
    · by_cases held : id ∈ special <;>
        simp [pascalToUpperSnake, split, identifier, underscore, held]
    · have absent : id ∉ special := fun held => underscore (underscored id held)
      simp [pascalToUpperSnake, split, identifier, underscore, absent]
  · simp [pascalToUpperSnake, split, identifier]

end Naming

namespace Enumeration

/-- The name of the member with an id. -/
def memberName (id : String) : String :=
  (Naming.pascalToUpperSnake id []).1

/-! ## Entries -/

/-- The id of an entry: that of a literal, or what a record has for its id. -/
def idOf? : Json → Option String
  | .null => none
  | .object members => (Fields.get? members "Id").map idOfJson
  | literal => some (idOfJson literal)

/-- The name of the member that an entry is for. -/
def nameOf? (entry : Json) : Option String :=
  (idOf? entry).map memberName

def isLiteral : Json → Bool
  | .null => false
  | .object _ => false
  | _ => true

/-- The member that an entry declares, under its name. -/
def declared? (enumeration : String) (entry : Json) : Option (String × Member) :=
  match entry? enumeration entry with
  | .ok (some (id, description, literal)) =>
    some (memberName id, { enumeration, name := memberName id, id, description, literal })
  | _ => none

theorem declared?_eq_some {enumeration name : String} {entry : Json} {member : Member}
    (declared : declared? enumeration entry = some (name, member)) :
    idOf? entry = some member.id ∧ name = memberName member.id ∧
      member.literal = if isLiteral entry then some entry else none := by
  cases entry with
  | null => cases declared
  | object members =>
    cases found : Fields.get? members "Id" with
    | none => simp [declared?, entry?, found] at declared
    | some id =>
      simp only [declared?, entry?, found] at declared
      cases declared
      exact ⟨by rw [idOf?, found]; rfl, rfl, rfl⟩
  | _ =>
    cases declared
    exact ⟨rfl, rfl, rfl⟩

/-- An entry declares a member if it has an id. -/
theorem declared?_of_idOf? (enumeration : String) {entry : Json} {id : String}
    (own : idOf? entry = some id) :
    ∃ member, declared? enumeration entry = some (memberName id, member) ∧ member.id = id := by
  cases entry with
  | null => cases own
  | object members =>
    obtain ⟨held, found, rfl⟩ := Option.map_eq_some_iff.mp own
    simp only [declared?, entry?, found]
    exact ⟨_, rfl, rfl⟩
  | _ =>
    cases own
    exact ⟨_, rfl, rfl⟩

theorem nameOf?_eq (enumeration : String) (entry : Json) :
    nameOf? entry = (declared? enumeration entry).map Prod.fst := by
  cases own : idOf? entry with
  | some id =>
    obtain ⟨member, declared, -⟩ := declared?_of_idOf? enumeration own
    rw [nameOf?, own, declared]
    rfl
  | none =>
    cases declared : declared? enumeration entry with
    | none => rw [nameOf?, own]; rfl
    | some found =>
      rw [(declared?_eq_some declared).1] at own
      cases own

theorem names_declared (enumeration : String) (entries : List Json) :
    Fields.names (entries.filterMap (declared? enumeration)) = entries.filterMap nameOf? := by
  rw [Fields.names, List.map_filterMap]
  exact List.filterMap_congr fun entry _ => (nameOf?_eq enumeration entry).symm

/-- The members are those that the entries declare, a later one in the place of an earlier one of
its name. -/
theorem addEntries_eq {enumeration : String} {entries : List Json} {special : SpecialNames}
    {members result : Fields Member} (underscored : Naming.Underscored special)
    (added : addEntries enumeration entries special members = .ok result) :
    result = Fields.insertAll members (entries.filterMap (declared? enumeration)) := by
  induction entries generalizing special members with
  | nil =>
    cases added
    rfl
  | cons entry rest ih =>
    unfold addEntries at added
    cases read : entry? enumeration entry with
    | error error =>
      rw [read] at added
      cases added
    | ok given =>
      rw [read] at added
      cases given with
      | none =>
        have nothing : declared? enumeration entry = none := by rw [declared?, read]
        rw [ih underscored added, List.filterMap_cons_none nothing]
      | some given =>
        obtain ⟨id, description, literal⟩ := given
        have name := Naming.pascalToUpperSnake_fst underscored id
        have further := underscored.pascalToUpperSnake id
        cases conversion : Naming.pascalToUpperSnake id special with
        | mk converted after =>
          rw [conversion] at name further
          simp only [bind, Except.bind, conversion] at added
          have own : declared? enumeration entry = some (converted,
              { enumeration, name := converted, id, description, literal }) := by
            have converts : converted = memberName id := name
            rw [declared?, read, converts]
          rw [ih further added, List.filterMap_cons_some own]
          rfl

theorem ofDefinition_ok {name : String} {definition : Definition} {enumeration : Enumeration}
    {entries : List Json} (listed : definition.enum? = some entries)
    (made : ofDefinition name definition = .ok enumeration) :
    enumeration = ⟨name, Fields.ofList (entries.filterMap (declared? name))⟩ := by
  rw [ofDefinition, listed] at made
  obtain ⟨members, added, last⟩ := Outcomes.bind_ok.mp made
  cases last
  rw [addEntries_eq .nil added]
  rfl

/-! ## Looking values up -/

/-- Data that tells the id of a member: a string, an integer within bounds, a truth value, or a
record with one of these for an id. -/
def Tells : Json → Prop
  | .object members => ∃ id, Fields.get? members "Id" = some id ∧ Registry.IsKey id
  | literal => Registry.IsKey literal

theorem idOfValue?_ofJson {json : Json} {id : String} :
    idOfValue? (.ofJson json) = some id ↔ Registry.IsKey json ∧ idOfJson json = id := by
  cases json with
  | bool flag =>
    cases flag <;>
      simp [Value.ofJson, idOfValue?, Registry.IsKey, idOfJson, Json.compact, Json.scalarText]
  | string text => simp [Value.ofJson, idOfValue?, Registry.IsKey, idOfJson]
  | integer size =>
    rw [Value.ofJson, Value.ofInt, Registry.IsKey]
    by_cases bounded : Value.isInteger size = true
    · simp [bounded, idOfValue?, Value.toInt_ofInt bounded, idOfJson, Json.compact,
        Json.scalarText, toString]
    · simp [bounded, idOfValue?]
  | _ => simp [Value.ofJson, idOfValue?, Registry.IsKey]

theorem lookup?_ofJson {enumeration : Enumeration} {entry : Json} {member : Member} :
    enumeration.lookup? (.ofJson entry) = some member ↔
      Tells entry ∧ ∃ id, idOf? entry = some id ∧ enumeration.byId? id = some member := by
  have literal : (∀ members, entry ≠ .object members) → enumeration.lookup? (.ofJson entry) =
      (idOfValue? (.ofJson entry)).bind enumeration.byId? := by
    intro other
    cases entry with
    | object members => exact absurd rfl (other members)
    | integer size =>
      rw [Value.ofJson, Value.ofInt]
      split <;> rfl
    | _ => rfl
  cases entry with
  | object members =>
    have found : Fields.get? (Value.ofJsonMembers members) "Id" =
        (Fields.get? members "Id").map Value.ofJson := by
      rw [Value.ofJsonMembers_eq, Fields.get?_mapValues]
    rw [Value.ofJson, lookup?, found, Tells, idOf?]
    cases Fields.get? members "Id" with
    | none => simp
    | some id => simp [Option.bind_eq_some_iff, idOfValue?_ofJson, and_assoc]
  | null =>
    rw [literal fun _ same => by cases same]
    simp [Option.bind_eq_some_iff, idOfValue?_ofJson, Tells, Registry.IsKey]
  | _ =>
    rw [literal fun _ same => by cases same]
    simp [Option.bind_eq_some_iff, idOfValue?_ofJson, Tells, idOf?, and_assoc]

section

variable {name : String} {definition : Definition} {enumeration : Enumeration}
  {entries : List Json} (listed : definition.enum? = some entries)
  (made : ofDefinition name definition = .ok enumeration)

include listed made

/-- The member of a name is declared by the last entry for it. -/
theorem get?_members_iff {key : String} {member : Member} :
    Fields.get? enumeration.members key = some member ↔
      ∃ before last after, entries = before ++ last :: after ∧
        declared? name last = some (key, member) ∧
        ∀ later ∈ after, nameOf? later ≠ some key := by
  rw [ofDefinition_ok listed made, Fields.get?_ofList_iff]
  constructor
  · rintro ⟨front, back, shape, unnamed⟩
    obtain ⟨before, others, rfl, -, rest⟩ := List.filterMap_eq_append_iff.mp shape
    obtain ⟨skipped, last, after, rfl, -, own, rfl⟩ := List.filterMap_eq_cons_iff.mp rest
    rw [names_declared, List.mem_filterMap] at unnamed
    exact ⟨before ++ skipped, last, after, by simp, own,
      fun later member same => unnamed ⟨later, member, same⟩⟩
  · rintro ⟨before, last, after, rfl, own, unnamed⟩
    refine ⟨before.filterMap (declared? name), after.filterMap (declared? name), ?_, ?_⟩
    · rw [List.filterMap_append, List.filterMap_cons_some own]
    · rw [names_declared, List.mem_filterMap]
      exact fun ⟨later, member, same⟩ => unnamed later member same

/-- An id is found if it is that of the member for its name. -/
theorem byId?_iff {id : String} {member : Member} :
    enumeration.byId? id = some member ↔
      member.id = id ∧ Fields.get? enumeration.members (memberName id) = some member := by
  have keyed : ∀ {key : String} {member : Member},
      Fields.get? enumeration.members key = some member → key = memberName member.id := by
    intro key member present
    obtain ⟨_, _, _, -, declared, -⟩ := (get?_members_iff listed made).mp present
    exact (declared?_eq_some declared).2.1
  have distinct := (ofDefinition_wellFormed made).2.distinct
  constructor
  · intro found
    obtain ⟨same, key, present⟩ := byId?_listed distinct found
    exact ⟨same, by rw [← same, ← keyed present]; exact present⟩
  · rintro ⟨rfl, present⟩
    cases found : enumeration.byId? member.id with
    | none =>
      have others := List.find?_eq_none.mp found member
        (Fields.value_mem (Fields.mem_of_get? present))
      simp at others
    | some other =>
      obtain ⟨same, key, otherPresent⟩ := byId?_listed distinct found
      rw [keyed otherPresent, same, present] at otherPresent
      exact otherPresent.symm

end

/-! ## Values that are kept -/

/-- Data stands for a member with its id, and if it is a literal it is what the member is written
as. -/
def Keeps (enumeration : Enumeration) (entry : Json) : Prop :=
  ∃ member, enumeration.lookup? (.ofJson entry) = some member ∧ idOf? entry = some member.id ∧
    (isLiteral entry = true → ∀ keyOf, member.toPlain.toJson keyOf = .ok entry)

/-- What tells an id is written for a member only if the member was declared by just that. -/
theorem written_iff {name key : String} {last entry : Json} {member : Member}
    (declared : declared? name last = some (key, member)) (tells : Tells entry)
    (literal : isLiteral entry = true) :
    (∀ keyOf, member.toPlain.toJson keyOf = .ok entry) ↔ last = entry := by
  obtain ⟨-, -, own⟩ := declared?_eq_some declared
  constructor
  · intro written
    have written := written fun _ key => key
    unfold Member.toPlain at written
    cases shape : last with
    | null =>
      rw [shape] at declared
      cases declared
    | object members =>
      rw [own, shape] at written
      obtain ⟨others, -, impossible⟩ := Outcomes.bind_ok.mp written
      cases impossible
      cases literal
    | integer size =>
      rw [own, shape] at written
      simp only [isLiteral, if_true, Value.ofJson, Value.ofInt] at written
      split at written
      · rename_i bounded
        cases written
        rw [Value.toInt_ofInt bounded]
      · cases Value.numberToJson_ok written
        cases tells
    | float number =>
      rw [own, shape] at written
      cases Value.numberToJson_ok written
      cases tells
    | array items =>
      rw [own, shape] at written
      obtain ⟨others, -, impossible⟩ := Outcomes.bind_ok.mp written
      cases impossible
      cases tells
    | _ =>
      rw [own, shape] at written
      cases written
      rfl
  · rintro rfl keyOf
    rw [Member.toPlain, own, if_pos literal]
    cases last with
    | integer size =>
      have bounded : Value.isInteger size = true := tells
      show (Value.ofInt size).toJson keyOf = _
      rw [Value.ofInt, if_pos bounded, Value.toJson, Value.toInt_ofInt bounded]
    | string text => rfl
    | bool flag => rfl
    | object members => cases literal
    | _ => cases tells

theorem idOf?_of_tells {entry : Json} (tells : Tells entry) : ∃ id, idOf? entry = some id := by
  cases entry with
  | null => cases tells
  | object members =>
    obtain ⟨id, found, -⟩ := tells
    exact ⟨idOfJson id, by rw [idOf?, found]; rfl⟩
  | _ => exact ⟨_, rfl⟩

section

variable {name : String} {definition : Definition} {enumeration : Enumeration}
  {entries : List Json} (listed : definition.enum? = some entries)
  (made : ofDefinition name definition = .ok enumeration)

include listed made

/-- A declared value is kept exactly if it tells its id, and if the last entry for the name of its
member has the same id, or for a literal is the very same. -/
theorem keeps_iff (entry : Json) :
    enumeration.Keeps entry ↔
      Tells entry ∧ ∃ before last after, entries = before ++ last :: after ∧
        idOf? last = idOf? entry ∧ (isLiteral entry = true → last = entry) ∧
        ∀ later ∈ after, nameOf? later ≠ nameOf? entry := by
  constructor
  · rintro ⟨member, found, own, written⟩
    obtain ⟨tells, id, told, byId⟩ := lookup?_ofJson.mp found
    obtain ⟨rfl, present⟩ := (byId?_iff listed made).mp byId
    obtain ⟨before, last, after, rfl, declared, others⟩ :=
      (get?_members_iff listed made).mp present
    refine ⟨tells, before, last, after, rfl, ?_, ?_, ?_⟩
    · rw [(declared?_eq_some declared).1, told]
    · exact fun literal => (written_iff declared tells literal).mp (written literal)
    · rw [nameOf?, told]
      exact others
  · rintro ⟨tells, before, last, after, rfl, same, whole, others⟩
    obtain ⟨id, told⟩ := idOf?_of_tells tells
    obtain ⟨member, declared, rfl⟩ := declared?_of_idOf? name (same.trans told)
    rw [nameOf?, told] at others
    have present :=
      (get?_members_iff listed made).mpr ⟨before, last, after, rfl, declared, others⟩
    have byId := (byId?_iff listed made).mpr ⟨rfl, present⟩
    refine ⟨member, lookup?_ofJson.mpr ⟨tells, member.id, told, byId⟩, told, fun literal => ?_⟩
    exact (written_iff declared tells literal).mpr (whole literal)

/-- Entries whose members have names of their own are all kept, if they tell their ids. -/
theorem keeps_of_apart (apart : (entries.filterMap nameOf?).Nodup) {entry : Json}
    (member : entry ∈ entries) (tells : Tells entry) : enumeration.Keeps entry := by
  obtain ⟨before, after, rfl⟩ := List.append_of_mem member
  refine (keeps_iff listed made entry).mpr ⟨tells, before, entry, after, rfl, rfl, fun _ => rfl, ?_⟩
  obtain ⟨id, told⟩ := idOf?_of_tells tells
  have own : nameOf? entry = some (memberName id) := by rw [nameOf?, told]; rfl
  rw [List.filterMap_append, List.filterMap_cons_some own, List.nodup_append] at apart
  obtain ⟨fresh, -⟩ := List.nodup_cons.mp apart.2.1
  intro later listed same
  exact fresh (List.mem_filterMap.mpr ⟨later, listed, same.trans own⟩)

end

/-- Units of mass; the milligram is given twice, once by a record. -/
def units : List Json :=
  [.object [("Id", .string "mg"), ("Description", .string "milligram")], .string "kg", .integer 2,
    .string "mg"]

theorem keeps_iff_units :
    ∃ enumeration, Definition.enum? ⟨[("enum", .array units)]⟩ = some units ∧
      ofDefinition "Unit" ⟨[("enum", .array units)]⟩ = .ok enumeration ∧
      enumeration.Keeps (.string "mg") := by
  have given : (ofDefinition "Unit" ⟨[("enum", .array units)]⟩).toBool = true := by decide +kernel
  have listed : Definition.enum? ⟨[("enum", .array units)]⟩ = some units := rfl
  obtain ⟨enumeration, made⟩ := Outcomes.toBool_iff.mp given
  refine ⟨enumeration, listed, made, (keeps_iff listed made _).mpr ?_⟩
  exact ⟨trivial, units.take 3, .string "mg", [], rfl, rfl, fun _ => rfl, nofun⟩

/-- Of a milligram and a megagram only the second is kept. -/
theorem ofDefinition_loses_unit :
    ∃ enumeration,
      ofDefinition "Unit" ⟨[("enum", .array [.string "mg", .string "Mg"])]⟩ = .ok enumeration ∧
      enumeration.lookup? (.ofJson (.string "mg")) = none := by
  have lost : ∃ enumeration ∈
      (ofDefinition "Unit" ⟨[("enum", .array [.string "mg", .string "Mg"])]⟩).toOption,
      (enumeration.lookup? (.ofJson (.string "mg"))).isNone = true := by
    decide +kernel
  obtain ⟨enumeration, made, lost⟩ := lost
  exact ⟨enumeration, Outcomes.toOption_iff.mp made, Option.isNone_iff_eq_none.mp lost⟩

end Enumeration

end TypedSchema
