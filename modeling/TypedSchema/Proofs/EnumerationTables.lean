import TypedSchema.Proofs.EnumerationValues

/-!
The tables of enumerations. Every member is listed under the name that its id is converted to, so no
two members have one id: each is found by its id, by its name, and as itself. The plain form of a
member is found again exactly if it tells the id.
-/

namespace TypedSchema

/-- Members whose plain form tells their id: records, and literals that are strings, truth values or
integers within bounds. -/
def Member.TellsId (member : Member) : Prop :=
  ∀ literal, member.literal = some literal → Registry.IsKey literal

namespace Enumeration

section

variable {name : String} {definition : Definition} {enumeration : Enumeration}

theorem lists_entries (made : ofDefinition name definition = .ok enumeration) :
    ∃ entries, definition.enum? = some entries := by
  cases listed : definition.enum? with
  | none =>
    rw [ofDefinition, listed] at made
    cases made
  | some entries => exact ⟨entries, rfl⟩

/-- What the table holds under a name was declared by an entry of the definition. -/
theorem declared_of_listed (made : ofDefinition name definition = .ok enumeration) {key : String}
    {member : Member} (listed : (key, member) ∈ enumeration.members) :
    ∃ entry, declared? name entry = some (key, member) := by
  have distinct := (ofDefinition_wellFormed made).2.distinct
  obtain ⟨_, entries⟩ := lists_entries made
  obtain ⟨_, entry, _, -, declared, -⟩ :=
    (get?_members_iff entries made).mp (Fields.get?_of_mem distinct listed)
  exact ⟨entry, declared⟩

theorem byId?_of_listed (made : ofDefinition name definition = .ok enumeration) {key : String}
    {member : Member} (listed : (key, member) ∈ enumeration.members) :
    enumeration.byId? member.id = some member := by
  obtain ⟨_, entries⟩ := lists_entries made
  obtain ⟨_, declared⟩ := declared_of_listed made listed
  refine (byId?_iff entries made).mpr ⟨rfl, ?_⟩
  rw [← (declared?_eq_some declared).2.1]
  exact Fields.get?_of_mem (ofDefinition_wellFormed made).2.distinct listed

/-- The names of a table are what the ids of its members are converted to. -/
theorem names_of_ids (made : ofDefinition name definition = .ok enumeration) :
    Fields.names enumeration.members =
      ((Fields.values enumeration.members).map Member.id).map memberName := by
  rw [Fields.names, Fields.values, List.map_map, List.map_map]
  refine List.map_congr_left fun entry listed => ?_
  obtain ⟨_, declared⟩ := declared_of_listed made listed
  exact (declared?_eq_some declared).2.1

/-- A record is found by its id, and so is a literal that is a key; nothing else is. -/
theorem lookup?_toPlain_iff (made : ofDefinition name definition = .ok enumeration) {key : String}
    {member : Member} (listed : (key, member) ∈ enumeration.members) :
    enumeration.lookup? member.toPlain = some member ↔ member.TellsId := by
  have byId := byId?_of_listed made listed
  obtain ⟨entry, declared⟩ := declared_of_listed made listed
  obtain ⟨own, -, literal⟩ := declared?_eq_some declared
  unfold Member.TellsId Member.toPlain
  by_cases plain : isLiteral entry = true
  · have tells : Tells entry ↔ Registry.IsKey entry := by
      cases entry with
      | object members => cases plain
      | _ => rfl
    rw [literal, if_pos plain]
    simp [lookup?_ofJson, own, byId, tells]
  · rw [literal, if_neg plain]
    simp [lookup?, Member.toEntries, Fields.get?_cons, idOfValue?, byId]

/-- Tables are coherent: a member goes by the name it is listed under and by the name of the
enumeration, no two members have one id, and a member is found by its id, by its name, as itself,
and, as far as that tells the id, in its plain form. -/
theorem ofDefinition_coherent (made : ofDefinition name definition = .ok enumeration) :
    (∀ entry ∈ enumeration.members,
      entry.2.name = entry.1 ∧ entry.2.enumeration = enumeration.name) ∧
    ((Fields.values enumeration.members).map Member.id).Nodup ∧
    ∀ member ∈ Fields.values enumeration.members,
      enumeration.byId? member.id = some member ∧
      enumeration.member? member.name = some member ∧
      enumeration.lookup? (.member member) = some member ∧
      (enumeration.lookup? member.toPlain = some member ↔ member.TellsId) := by
  have own := (ofDefinition_wellFormed made).2
  refine ⟨?_, ?_, ?_⟩
  · intro entry listed
    have held := own.members entry.1 entry.2 (Fields.get?_of_mem own.distinct listed)
    exact ⟨held.name, held.enumeration⟩
  · have names : (Fields.names enumeration.members).Nodup := own.distinct
    rw [names_of_ids made] at names
    exact names.of_map
  · intro member among
    obtain ⟨⟨key, member⟩, listed, rfl⟩ := List.mem_map.mp among
    have present := Fields.get?_of_mem own.distinct listed
    have held := own.members key _ present
    have byName : enumeration.member? member.name = some member := by
      rw [member?, held.name]
      exact present
    refine ⟨byId?_of_listed made listed, byName, ?_, lookup?_toPlain_iff made listed⟩
    rw [lookup?, if_pos held.enumeration]
    exact byName

end

/-- The milligram, which was given as a record first, is read back from the literal it became. -/
theorem ofDefinition_coherent_units :
    ∃ enumeration, ofDefinition "Unit" ⟨[("enum", .array units)]⟩ = .ok enumeration ∧
      (∀ entry ∈ enumeration.members,
        entry.2.name = entry.1 ∧ entry.2.enumeration = enumeration.name) ∧
      ((Fields.values enumeration.members).map Member.id).Nodup ∧
      ∃ member ∈ Fields.values enumeration.members, member.id = "mg" ∧ member.TellsId ∧
        enumeration.byId? "mg" = some member ∧
        enumeration.lookup? member.toPlain = some member := by
  have given : ∃ enumeration ∈ (ofDefinition "Unit" ⟨[("enum", .array units)]⟩).toOption,
      ∃ member ∈ Fields.values enumeration.members, member.id = "mg" ∧
        member.literal.any (fun literal => literal.string?.isSome) = true := by
    decide +kernel
  obtain ⟨enumeration, made, member, among, same, written⟩ := given
  have made := Outcomes.toOption_iff.mp made
  have tells : member.TellsId := by
    intro literal held
    rw [held] at written
    cases literal with
    | string id => trivial
    | _ => cases written
  obtain ⟨named, apart, each⟩ := ofDefinition_coherent made
  obtain ⟨byId, -, -, again⟩ := each member among
  exact ⟨enumeration, made, named, apart, member, among, same, tells, same ▸ byId, again.mpr tells⟩

end Enumeration

end TypedSchema
