import Mathlib.Data.List.Perm.Subperm
import TypedSchema.Proofs.Compile.Ending

/-!
Completing types always ends, since a line of heirs has no name twice. Where names are apart it
never fails: the parents of a type were registered before it, so no type waits for itself.
-/

namespace TypedSchema.Compile

variable {document : Document}

/-! ## Parents -/

theorem Made.of_object {past : Registry} {name : String} {definition : Definition}
    {category : Category} {resolved : Resolved} {lineage : Option Lineage}
    (made : Made document past name definition category resolved lineage)
    (anonymous : isAnonymous category = true) (object : category ≠ .enumeration) :
    ∃ own, lineage = some own := by
  cases made with
  | custom => exact ⟨_, rfl⟩
  | enumeration => exact absurd rfl object
  | heir => exact ⟨_, rfl⟩
  | synonym => cases anonymous
  | combined => exact ⟨_, rfl⟩
  | shaped inPlace =>
    rw [anonymous] at inPlace
    cases inPlace

/-- A parent is what was registered under some name, or was made for a schema in its place. -/
theorem Made.parent {past : Registry} {name : String} {definition : Definition}
    {category : Category} {resolved : Resolved} {composite : Composite}
    (made : Made document past name definition category resolved (some composite.lineage))
    {parent : String} (member : parent ∈ composite.parents) :
    (∃ target entry, Fields.get? past.entries target = some entry ∧
        entry.type = .composite parent) ∨
      ∃ inner own, Part name definition category inner parent ∧ inner.shape = .ok own ∧
        isAnonymous own = true ∧ own ≠ .enumeration ∧ parent ∈ Fields.names past.entries := by
  rw [Composite.parents] at member
  generalize composite.lineage = lineage at made member
  cases made with
  | custom => cases member
  | heir _ found typed =>
    rw [List.mem_singleton.mp member]
    exact .inl ⟨_, _, found, typed⟩
  | combined each =>
    obtain ⟨part, listed, made⟩ := Lists.source_of_result each member
    cases made with
    | reference _ _ _ found typed => exact .inl ⟨_, _, found, typed⟩
    | inPlace node shape anonymous object found =>
      exact .inr ⟨_, _, .parent listed node shape anonymous, shape, anonymous, object, found⟩

section

variable {workspace : Workspace} (sound : Sound document workspace) {name : String}

include sound

/-- Types of their own are declared with their registration, but for enumerations. -/
theorem Sound.declared_of_registered (apart : NamesApart document) {definition : Definition}
    {category : Category} (named : Named document name definition category)
    (anonymous : isAnonymous category = true) (object : category ≠ .enumeration)
    (registered : name ∈ Fields.names workspace.registry.entries) :
    name ∈ Fields.names workspace.registry.composites := by
  obtain ⟨entry, present, rfl, rfl⟩ := sound.made_of_registered apart named registered
  obtain ⟨_, lineage, -, made, table⟩ := (sound.entries name entry present).made.history
  obtain ⟨own, rfl⟩ := made.of_object anonymous object
  obtain ⟨composite, described, -⟩ := Option.map_eq_some_iff.mp table
  exact Fields.mem_names_iff.mpr ⟨composite, described⟩

/-- Who refers to a composite type refers to it by its own name. -/
theorem Sound.composite_of_typed {past : Registry} (order : Past workspace.registry name past)
    {target parent : String} {entry : Entry}
    (present : Fields.get? past.entries target = some entry)
    (typed : entry.type = .composite parent) :
    position workspace.registry parent < position workspace.registry name ∧
      parent ∈ Fields.names workspace.registry.composites := by
  have registered := order.entries target entry present
  obtain rfl := (sound.entries target entry registered).composite parent typed
  refine ⟨order.before parent (Fields.mem_names_iff.mpr ⟨entry, present⟩), ?_⟩
  have known := sound.typesKnown.entries parent entry registered
  rw [typed] at known
  cases known with
  | composite has => exact Fields.mem_names_iff.mpr has.described

/-- A composite type was made of what had been registered before it. -/
theorem Sound.composite_history {composite : Composite}
    (present : Fields.get? workspace.registry.composites name = some composite) :
    ∃ entry past, Fields.get? workspace.registry.entries name = some entry ∧
      Past workspace.registry name past ∧
      Made document past name entry.definition entry.category ⟨entry.type, entry.caster⟩
        (some composite.lineage) := by
  obtain ⟨entry, registered⟩ :=
    Fields.mem_names_iff.mp (sound.composites name composite present).registered
  obtain ⟨past, lineage, order, made, table⟩ := (sound.entries name entry registered).made.history
  rw [present, Option.map_some] at table
  obtain ⟨own, rfl, equal⟩ := Option.map_eq_some_iff.mp table.symm
  rw [Prod.mk.injEq] at equal
  exact ⟨entry, past, registered, order, equal.1 ▸ made⟩

/-- The parents of a type were registered before it. -/
theorem Sound.parent_earlier {composite : Composite}
    (present : Fields.get? workspace.registry.composites name = some composite) {parent : String}
    (member : parent ∈ composite.parents) :
    position workspace.registry parent < position workspace.registry name := by
  obtain ⟨entry, past, -, order, made⟩ := sound.composite_history present
  rcases made.parent member with ⟨_, _, found, typed⟩ | ⟨_, _, -, -, -, -, found⟩
  · exact (sound.composite_of_typed order found typed).1
  · exact order.before _ found

/-- The parents of a type are composite types. -/
theorem Sound.parent_declared (apart : NamesApart document) {composite : Composite}
    (present : Fields.get? workspace.registry.composites name = some composite) {parent : String}
    (member : parent ∈ composite.parents) :
    parent ∈ Fields.names workspace.registry.composites := by
  obtain ⟨entry, past, registered, order, made⟩ := sound.composite_history present
  rcases made.parent member with
    ⟨_, _, found, typed⟩ | ⟨inner, own, part, shape, anonymous, object, found⟩
  · exact (sound.composite_of_typed order found typed).2
  · obtain ⟨held, known, same, sameCategory⟩ := (sound.entries name entry registered).origin
    have named := sound.known name held known
    rw [← same, ← sameCategory] at named
    have inside := named.placed.part named.shape part
    exact sound.declared_of_registered apart ⟨inside, shape, .inr anonymous⟩ anonymous object
      (order.entries.names found)

end

/-! ## Generations -/

/-- Parents are declared, and rank below their heirs. -/
def Ranked (start : Registry) (rank : String → Nat) : Prop :=
  ∀ name composite, Fields.get? start.composites name = some composite →
    ∀ parent ∈ composite.parents,
      rank parent < rank name ∧ parent ∈ Fields.names start.composites

section

variable {start : Registry} {before : Inherited} {error : Error}

theorem Completing.found (completing : Completing start before) {name : String}
    (declared : name ∈ Fields.names start.composites) :
    ∃ composite, before.registry.composite name = .ok composite := by
  obtain ⟨composite, present⟩ := Fields.mem_names_iff.mp (completing.names name declared)
  exact ⟨composite, Registry.found_ok.mpr present⟩

theorem inherit_total (completing : Completing start before) {composite : Composite}
    (declared : ∀ parent ∈ composite.parents, parent ∈ Fields.names start.composites) :
    inherit before.registry composite ≠ .error error := by
  intro failed
  unfold inherit at failed
  unfold Composite.parents at declared
  cases lineage : composite.lineage with
  | custom =>
    simp only [lineage] at failed
    cases failed
  | passthrough parent =>
    simp only [lineage] at failed declared
    rcases Outcomes.bind_error.mp failed with absent | ⟨above, -, ⟨⟩⟩
    obtain ⟨above, present⟩ := completing.found (declared parent List.mem_cons_self)
    rw [present] at absent
    cases absent
  | combined parents =>
    simp only [lineage] at failed declared
    rcases Outcomes.bind_error.mp failed with refused | ⟨aboves, -, ⟨⟩⟩
    obtain ⟨parent, member, absent⟩ := Outcomes.mapM_error refused
    obtain ⟨above, present⟩ := completing.found (declared parent member)
    rw [present] at absent
    cases absent

/-- Why a type cannot be completed. -/
inductive CompleteFails (start : Registry) (generations : Nat) (heirs : List String)
    (name : String) (error : Error) : Prop where
  | circular (waiting : name ∈ heirs) (same : error = .circularReference name)
  | unknown {between : Inherited} (completing : Completing start between)
    (absent : between.registry.composite name = .error error)
  | parent {composite : Composite} {parent : String} {between : Inherited}
    (free : name ∉ heirs) (declared : Fields.get? start.composites name = some composite)
    (member : parent ∈ composite.parents) (completing : Completing start between)
    (failed : (complete generations (name :: heirs) parent).run between = .error error)
  | inherit {old composite : Composite} {between : Inherited}
    (declared : Fields.get? start.composites name = some old)
    (parents : composite.parents = old.parents) (completing : Completing start between)
    (failed : inherit between.registry composite = .error error)

theorem complete_fails (starting : Starting start) {generations : Nat} {heirs : List String}
    {name : String} (completing : Completing start before)
    (ran : (complete (generations + 1) heirs name).run before = .error error) :
    CompleteFails start generations heirs name error := by
  simp only [complete, run_bind_error, run_get_error, run_get_ok, false_or] at ran
  obtain ⟨_, current, ⟨rfl, rfl⟩, ran⟩ := ran
  split at ran
  · exact (run_pure_error.mp ran).elim
  · split at ran
    · rename_i waiting
      simp only [run_bind_error, run_throw_error, run_throw_ok, false_and, exists_false,
        or_false] at ran
      exact .circular (by simpa using waiting) ran
    · rename_i free
      simp only [run_bind_error, run_get_error, run_get_ok, run_lift_error, run_lift_ok,
        run_modify_error, and_false, exists_false, or_false, false_or] at ran
      obtain ⟨_, _, ⟨rfl, rfl⟩, missing | ⟨composite, _, ⟨own, rfl⟩, ran⟩⟩ := ran
      · exact .unknown completing missing
      · obtain ⟨-, -, old, started, lineage, -⟩ :=
          completing.composites name composite (Registry.found_ok.mp own)
        have parents : composite.parents = old.parents := by
          rw [Composite.parents, Composite.parents, lineage]
        have above := complete_ok starting generations (name :: heirs)
        rcases ran with failed | ⟨_, between, parentsRan, _, _, ⟨rfl, rfl⟩, failed⟩
        · obtain ⟨done, parent, rest, results, between, split, runs, failed⟩ :=
            run_forM_error failed
          have member : parent ∈ composite.parents :=
            split ▸ List.mem_append_right done List.mem_cons_self
          exact .parent (by simpa using free) started (parents ▸ member)
            (completeEach_ok above completing runs).1 failed
        · obtain ⟨_, runs⟩ := run_forM_ok parentsRan
          exact .inherit started parents (completeEach_ok above completing runs).1 failed

/-- There are never more heirs than types. -/
theorem heirs_le {heirs : List String} (distinct : heirs.Nodup)
    (among : heirs ⊆ Fields.names start.composites) : heirs.length ≤ start.composites.length := by
  have fits := (List.subperm_of_subset distinct among).length_le
  rwa [Fields.names, List.length_map] at fits

/-- A type can be completed while others of higher rank wait for it. -/
theorem complete_total (starting : Starting start) {rank : String → Nat}
    (ranked : Ranked start rank) (generations : Nat) (heirs : List String) (name : String)
    (completing : Completing start before) (declared : name ∈ Fields.names start.composites)
    (distinct : heirs.Nodup) (among : heirs ⊆ Fields.names start.composites)
    (below : ∀ heir ∈ heirs, rank name < rank heir)
    (enough : start.composites.length < generations + heirs.length) :
    (complete generations heirs name).run before ≠ .error error := by
  intro ran
  have free : name ∉ heirs := fun heir => Nat.lt_irrefl _ (below name heir)
  have longer : (name :: heirs).Nodup := List.nodup_cons.mpr ⟨free, distinct⟩
  induction generations generalizing heirs name before with
  | zero =>
    have fits := heirs_le distinct among
    omega
  | succ generations ih =>
    cases complete_fails starting completing ran with
    | circular waiting => exact free waiting
    | unknown completing absent =>
      obtain ⟨composite, present⟩ := completing.found declared
      rw [present] at absent
      cases absent
    | @parent _ parent _ _ started member completing failed =>
      obtain ⟨lower, known⟩ := ranked name _ started parent member
      have deeper : ∀ heir ∈ name :: heirs, rank parent < rank heir := by
        intro heir waits
        cases List.mem_cons.mp waits with
        | inl same => exact same ▸ lower
        | inr earlier => exact Nat.lt_trans lower (below heir earlier)
      have fresh : parent ∉ name :: heirs := fun heir => Nat.lt_irrefl _ (deeper parent heir)
      exact ih (name :: heirs) parent completing known longer
        (List.cons_subset.mpr ⟨declared, among⟩) deeper (by rw [List.length_cons]; omega) failed
        fresh (List.nodup_cons.mpr ⟨fresh, longer⟩)
    | inherit started parents completing failed =>
      exact inherit_total completing
        (fun parent member => (ranked name _ started parent (parents ▸ member)).2) failed

theorem completeAll_total (starting : Starting start) {rank : String → Nat}
    (ranked : Ranked start rank) (names : List String) :
    ∃ registry, completeAll names start = .ok registry := by
  unfold completeAll
  cases completed : ((names.filter (Fields.has start.composites)).forM
      (complete (start.composites.length + 1) [])).run { registry := start } with
  | ok outcome =>
    simp only [completed]
    exact ⟨_, rfl⟩
  | error error =>
    exfalso
    obtain ⟨done, name, rest, results, between, split, runs, failed⟩ := run_forM_error completed
    have each := completeEach_ok
      (complete_ok starting (start.composites.length + 1) []) starting.completing runs
    have member : name ∈ names.filter (Fields.has start.composites) :=
      split ▸ List.mem_append_right done List.mem_cons_self
    have declared := Fields.has_iff.mp (List.mem_filter.mp member).2
    exact complete_total starting ranked _ [] name each.1 declared List.nodup_nil
      (List.nil_subset _) nofun (by rw [List.length_nil]; omega) failed

/-! ## Rejections -/

theorem inherit_rejection {registry : Registry} {composite : Composite}
    (failed : inherit registry composite = .error error) : Rejection error := by
  unfold inherit at failed
  split at failed
  · cases failed
  · rcases Outcomes.bind_error.mp failed with absent | ⟨above, -, ⟨⟩⟩
    exact found_rejection absent
  · rcases Outcomes.bind_error.mp failed with refused | ⟨aboves, -, ⟨⟩⟩
    obtain ⟨parent, -, absent⟩ := Outcomes.mapM_error refused
    exact found_rejection absent

/-- Generations never run out, whatever stands for what: each heir that waits is another type. -/
theorem complete_rejection (starting : Starting start) (generations : Nat) (heirs : List String)
    (name : String) (completing : Completing start before) (distinct : heirs.Nodup)
    (among : heirs ⊆ Fields.names start.composites)
    (enough : start.composites.length < generations + heirs.length)
    (ran : (complete generations heirs name).run before = .error error) : Rejection error := by
  induction generations generalizing heirs name before with
  | zero =>
    have fits := heirs_le distinct among
    omega
  | succ generations ih =>
    cases complete_fails starting completing ran with
    | circular _ same => exact same ▸ .circular name
    | unknown _ absent => exact found_rejection absent
    | @parent _ parent _ free declared _ completing failed =>
      have own : name ∈ Fields.names start.composites := Fields.mem_names_iff.mpr ⟨_, declared⟩
      exact ih (name :: heirs) parent completing (List.nodup_cons.mpr ⟨free, distinct⟩)
        (List.cons_subset.mpr ⟨own, among⟩) (by rw [List.length_cons]; omega) failed
    | inherit _ _ _ failed => exact inherit_rejection failed

theorem completeAll_rejection (starting : Starting start) {names : List String}
    (failed : completeAll names start = .error error) : Rejection error := by
  unfold completeAll at failed
  rcases Outcomes.bind_error.mp failed with broken | ⟨outcome, -, ⟨⟩⟩
  obtain ⟨done, name, rest, results, between, split, runs, refused⟩ := run_forM_error broken
  have each := completeEach_ok
    (complete_ok starting (start.composites.length + 1) []) starting.completing runs
  exact complete_rejection starting _ [] name each.1 List.nodup_nil (List.nil_subset _)
    (by rw [List.length_nil]; omega) refused

end

/-- The types of a filled workspace can be completed. -/
theorem Sound.completes {workspace : Workspace} (sound : Sound document workspace)
    (apart : NamesApart document) (names : List String) :
    ∃ registry, completeAll names workspace.registry = .ok registry :=
  completeAll_total sound.starting
    (fun _ _ present _ member =>
      ⟨sound.parent_earlier present member, sound.parent_declared apart present member⟩) names

end TypedSchema.Compile
