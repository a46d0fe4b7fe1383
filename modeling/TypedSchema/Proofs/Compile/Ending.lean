import TypedSchema.Proofs.Compile.Accounts
import TypedSchema.Proofs.Compile.Listing

/-!
Resolving always ends, whatever refers to what. A name is entered only if it is a listed one that is
not under way, or if it was just made for a schema inside another; everything else that is known has
been registered. So the listed names that are left, each with the levels of its definition, bound
how deep goals can be nested. There is one lemma for each rule.
-/

namespace TypedSchema.Compile

/-! ## Layers -/

/-- The layers that go into names which are still to be entered. -/
def allowance (pending resolving : List String) (most : Nat) : Nat :=
  (pending.filter fun name => !resolving.contains name).length * (2 * most + 2)

section

variable {pending : List String} {most : Nat}

theorem left_cons (name : String) (resolving : List String) :
    (pending.filter fun other => !(name :: resolving).contains other) =
      (pending.filter fun other => !resolving.contains other).filter fun other => other ≠ name := by
  rw [List.filter_filter]
  refine List.filter_congr fun other _ => ?_
  by_cases same : other = name <;> simp [same]

theorem allowance_cons_le (name : String) (resolving : List String) :
    allowance pending (name :: resolving) most ≤ allowance pending resolving most := by
  rw [allowance, left_cons]
  exact Nat.mul_le_mul_right _ (List.length_filter_le ..)

/-- A name that is entered sets its layers free. -/
theorem allowance_enter {name : String} {resolving : List String} (member : name ∈ pending)
    (free : name ∉ resolving) :
    allowance pending (name :: resolving) most + (2 * most + 2) ≤
      allowance pending resolving most := by
  have left : name ∈ pending.filter fun other => !resolving.contains other := by
    rw [List.mem_filter]
    exact ⟨member, by simpa using free⟩
  have fewer : (pending.filter fun other => !(name :: resolving).contains other).length <
      (pending.filter fun other => !resolving.contains other).length := by
    rw [left_cons]
    exact List.length_filter_lt_length_iff_exists.mpr ⟨name, left, by simp⟩
  rw [allowance, allowance, ← Nat.succ_mul]
  exact Nat.mul_le_mul_right _ fewer

end

/-- A solver with so many layers ends where these suffice: besides the allowance, each level of
nesting takes a layer for the schema and one for the type made of it. -/
structure SolverEnds (pending resolving : List String) (most layers : Nat) (solve : Solver) :
    Prop where
  reference : allowance pending resolving most < layers → ∀ target,
    Ends pending resolving most (solve (.named target))
  made : ∀ added : Classified, added.definition.toJson.depth ≤ most →
    allowance pending resolving most + 2 * added.definition.toJson.depth < layers →
      ∀ name, Ends pending resolving most (resolveAnonymous solve name added)
  place : ∀ definition : Definition, definition.toJson.depth ≤ most →
    allowance pending resolving most + 2 * definition.toJson.depth + 1 < layers →
      ∀ hint, Ends pending resolving most (solve (.inline definition hint))

/-- There are layers enough for references from a schema and for all that stands inside it. -/
structure Room (pending resolving : List String) (most layers : Nat) (outer : Json) : Prop where
  references : allowance pending resolving most < layers
  inside : ∀ inner, Json.Inside inner outer → inner.depth ≤ most ∧
    allowance pending resolving most + 2 * inner.depth + 1 < layers

theorem Room.of_depth {pending resolving : List String} {most layers : Nat}
    {definition : Definition} (deep : definition.toJson.depth ≤ most + 1)
    (enough : allowance pending resolving most + 2 * definition.toJson.depth ≤ layers) :
    Room pending resolving most layers definition.toJson where
  references := by
    have positive := depth_pos definition
    omega
  inside := fun inner inside => by
    have smaller := inside.depth_lt
    omega

/-- A known name that is neither registered nor under way is still to be entered, and there is room
for that. -/
theorem Accounted.room {pending resolving : List String} {most layers : Nat}
    {workspace : Workspace} (accounted : Accounted pending resolving most workspace)
    (enough : allowance pending resolving most < layers + 1) {name : String} {held : Classified}
    (known : Fields.get? workspace.known name = some held)
    (fresh : name ∉ Fields.names workspace.registry.entries) (free : name ∉ resolving) :
    Room pending (name :: resolving) most layers held.definition.toJson := by
  have left : name ∈ pending :=
    (accounted.settled name (Fields.mem_names_iff.mpr ⟨held, known⟩)).resolve_right
      fun settled => settled.elim fresh free
  have deep := accounted.shallow name left held known
  have freed : allowance pending (name :: resolving) most + (2 * most + 2) ≤
      allowance pending resolving most := allowance_enter left free
  exact .of_depth (by omega) (by omega)

/-! ## Rules -/

section

variable {pending resolving : List String} {most layers : Nat} {solve : Solver}
  (solves : SolverEnds pending resolving most layers solve)

theorem resolveScalar_rejection {patterns : Patterns} {definition : Definition} {context : String}
    {error : Error} (refused : resolveScalar patterns definition context = .error error) :
    Rejection error := by
  rcases Outcomes.bind_error.mp refused with unknown | ⟨scalar, -, ⟨⟩⟩
  exact .schema (scalarOf_error unknown)

include solves

theorem resolveInline_ends {outer schema : Json} (room : Room pending resolving most layers outer)
    (inside : Json.Inside schema outer) (hint : String) :
    Ends pending resolving most (resolveInline solve hint schema) := by
  refine .lift (fun error refused => .schema (definitionAt_error refused).1)
    fun definition read => ?_
  rw [definitionAt, Outcomes.mapError_ok] at read
  obtain ⟨deep, enough⟩ := room.inside schema inside
  rw [Definition.ofJson_ok read] at deep enough
  exact solves.place definition deep enough hint

variable {definition : Definition}
  (room : Room pending resolving most layers definition.toJson)

include room

theorem resolveReference_ends (context : String) :
    Ends pending resolving most (resolveReference solve definition context) := by
  unfold resolveReference
  split
  · exact solves.reference room.references _
  · exact .throw (.schema (.unidentified ..))

theorem resolveList_ends (name : String) :
    Ends pending resolving most (resolveList solve definition name) := by
  unfold resolveList
  split
  · exact .pure _
  · exact .pure _
  · rename_i items _ declared
    have inside := Relation.TransGen.single (Definition.child_of_get? declared)
    exact .bind (resolveInline_ends solves room inside _) fun item => .pure _

theorem resolveUnion_ends (name : String) :
    Ends pending resolving most (resolveUnion solve definition name) := by
  refine .bind (.mapM fun option member => ?_) fun members => ?_
  · have listed := List.fst_mem_of_mem_zipIdx (List.mem_of_mem_filter member)
    exact resolveInline_ends solves room (Definition.inside_of_oneOf listed) _
  · -- What is made of the members takes no further step.
    split
    · split <;> exact .pure _
    · exact .pure _

theorem resolveConditional_ends {parts : List Json} (allOf : definition.allOf? = some parts)
    (name : String) : Ends pending resolving most (resolveConditional solve name parts) := by
  refine .bind (.mapM fun part member => ?_) fun conditions => .pure _
  have whole := Definition.inside_of_array? allOf (List.fst_mem_of_mem_zipIdx member)
  refine .lift (fun error refused => .schema (constantsOf_error refused)) fun constants _ => ?_
  refine .lift (fun error refused => .schema (definitionAt_error refused).1)
    fun branch read => ?_
  rw [definitionAt, Outcomes.mapError_ok] at read
  refine .bind ?_ fun resolved => .pure _
  cases found : part.1.member? "then" with
  | none =>
    rw [found] at read
    cases read
  | some schema =>
    rw [found, Option.getD_some] at read
    obtain ⟨deep, enough⟩ := room.inside schema (.head (Json.child_of_member? found) whole)
    rw [Definition.ofJson_ok read] at deep enough
    exact solves.place branch deep enough _

theorem resolveKeyed_ends (name : String) :
    Ends pending resolving most (resolveKeyed solve definition name) := by
  refine .lift (fun error refused => .schema (discriminator_error refused)) fun found _ => ?_
  cases found with
  | none => exact .throw (.schema (.unsupported ..))
  | some discriminator =>
    refine .bind (.mapM fun target _ => ?_) fun branches => .pure _
    exact .bind (solves.reference room.references _) fun branch => .pure _

theorem resolvePolymorph_ends (name : String) :
    Ends pending resolving most (resolvePolymorph solve definition name) := by
  unfold resolvePolymorph
  split
  · rename_i parts allOf
    exact resolveConditional_ends solves room allOf name
  · exact resolveKeyed_ends solves room name

theorem resolveParent_ends {part : Json} (inside : Json.Inside part definition.toJson)
    (name : String) (index : Nat) :
    Ends pending resolving most (resolveParent solve name part index) := by
  refine .lift (fun error refused => .schema (definitionAt_error refused).1) fun inner read => ?_
  rw [definitionAt, Outcomes.mapError_ok] at read
  obtain ⟨deep, enough⟩ := room.inside part inside
  rw [Definition.ofJson_ok read] at deep enough
  refine .lift (fun error refused => .schema (shape_error refused).1) fun category _ => ?_
  have affordable :
      allowance pending resolving most + 2 * inner.toJson.depth < layers := by omega
  have anonymous : ∀ parent, Ends pending resolving most
      (discard (resolveAnonymous solve parent ⟨inner, category⟩)) := fun parent =>
    .discard (solves.made ⟨inner, category⟩ deep affordable parent)
  cases category with
  | passthrough =>
    refine .bind (resolveReference_ends solves (.of_depth (by omega) (by omega)) name)
      fun target => ?_
    split
    · exact .pure _
    · exact .throw (.schema (.unsupported ..))
  | custom => exact .bind (anonymous _) fun _ => .pure _
  | multiInheritance => exact .bind (anonymous _) fun _ => .pure _
  | _ => exact .throw (.schema (.unsupported ..))

/-! ## Registration -/

omit solves room in
theorem adds_enter {before entered : Workspace} (known : entered.known = before.known)
    (entries : ∀ name ∈ Fields.names before.registry.entries,
      name ∈ Fields.names entered.registry.entries) : Adds most before entered where
  entries := entries
  known := fun _ _ held => .inl (known ▸ held)

omit solves room in
theorem mem_enter {workspace : Workspace} {name other : String} {held : Classified}
    {resolved : Resolved} (registered : other ∈ Fields.names workspace.registry.entries) :
    other ∈ Fields.names (workspace.enter name held resolved).registry.entries :=
  Fields.mem_names_insert.mpr (.inr registered)

omit solves room in
theorem enter_ends (name : String) (held : Classified) (resolved : Resolved) :
    Ends pending resolving most (modify (·.enter name held resolved)) :=
  .modify fun _ => adds_enter rfl fun _ => mem_enter

omit solves room in
theorem enterComposite_ends (name : String) (held : Classified) (lineage : Lineage) :
    Ends pending resolving most (modify (·.enterComposite name held lineage)) :=
  .modify fun _ => adds_enter rfl fun _ => mem_enter

theorem registerPassthrough_ends (name : String) (category : Category) :
    Ends pending resolving most (registerPassthrough solve name ⟨definition, category⟩) := by
  refine .bind (resolveReference_ends solves room name) fun target => ?_
  split
  · exact enterComposite_ends _ _ _
  · exact enter_ends _ _ _

theorem register_ends (patterns : Patterns) (name : String) (category : Category) :
    Ends pending resolving most (register patterns solve name ⟨definition, category⟩) := by
  unfold register
  cases category with
  | native => exact .lift (fun _ => resolveScalar_rejection) fun _ _ => enter_ends _ _ _
  | enumeration =>
    refine .lift (fun error refused => .schema (ofDefinition_error refused)) fun _ _ => ?_
    exact .modify fun _ => adds_enter rfl fun _ => mem_enter
  | custom => exact enterComposite_ends _ _ _
  | passthrough => exact registerPassthrough_ends solves room name _
  | multiInheritance =>
    refine .bind (.mapM fun part member => ?_) fun parents => enterComposite_ends _ _ _
    have listed := List.fst_mem_of_mem_zipIdx member
    exact resolveParent_ends solves room (Definition.inside_of_allOf listed) name part.2
  | list => exact .bind (resolveList_ends solves room name) fun _ => enter_ends _ _ _
  | union => exact .bind (resolveUnion_ends solves room name) fun _ => enter_ends _ _ _
  | polymorph => exact .bind (resolvePolymorph_ends solves room name) fun _ => enter_ends _ _ _

/-! ## Goals -/

theorem resolveShape_ends (patterns : Patterns) (deep : definition.toJson.depth ≤ most)
    (enough : allowance pending resolving most + 2 * definition.toJson.depth < layers)
    (hint : String) :
    Ends pending resolving most (resolveShape patterns solve definition hint) := by
  unfold resolveShape
  split
  · exact .pure _
  · refine .lift (fun error refused => .schema (shape_error refused).1) fun category _ => ?_
    have anonymous : Ends pending resolving most
        (resolveAnonymous solve hint ⟨definition, category⟩) :=
      solves.made ⟨definition, category⟩ deep enough hint
    cases category with
    | passthrough => exact resolveReference_ends solves room hint
    | native => exact .read fun _ => resolveScalar_rejection
    | list => exact resolveList_ends solves room hint
    | union => exact resolveUnion_ends solves room hint
    | polymorph => exact resolvePolymorph_ends solves room hint
    | enumeration => exact anonymous
    | custom => exact anonymous
    | multiInheritance => exact anonymous

end

section

variable {pending resolving : List String} {most layers : Nat} {patterns : Patterns}
  {self : List String → Solver}

/-- A name that was resolved is registered. -/
theorem resolveNamed_registers {name : String} {before after : Workspace} {resolved : Resolved}
    (ran : (resolveNamed patterns self resolving name).run before = .ok (resolved, after)) :
    name ∈ Fields.names after.registry.entries := by
  have looked : ∀ before, (do
      let entry ← (← get).registry.entry name
      return ⟨entry.type, entry.caster⟩ : Compile Resolved).run before = .ok (resolved, after) →
        name ∈ Fields.names after.registry.entries := by
    intro before ran
    simp only [run_bind_ok, run_get_ok, run_lift_ok, run_pure_ok, Registry.entry,
      Registry.found_ok] at ran
    obtain ⟨_, _, ⟨rfl, rfl⟩, entry, _, ⟨present, rfl⟩, -, rfl⟩ := ran
    exact Fields.mem_names_iff.mpr ⟨entry, present⟩
  obtain ⟨_, _, -, ran⟩ := run_bind_ok.mp ran
  split at ran
  · split at ran
    · simp only [run_bind_ok, run_throw_ok, false_and, exists_false] at ran
    · obtain ⟨_, _, -, ran⟩ := run_bind_ok.mp ran
      obtain ⟨_, _, -, ran⟩ := run_bind_ok.mp ran
      obtain ⟨_, between, -, ran⟩ := run_bind_ok.mp ran
      exact looked between ran
  · exact looked _ ran

/-- A name is resolved if there is room to enter it, where it has to be. -/
theorem resolveNamed_ends {name : String} {before : Workspace}
    (solves : SolverEnds pending (name :: resolving) most layers (self (name :: resolving)))
    (accounted : Accounted pending (name :: resolving) most before)
    (enough : ∀ held, Fields.get? before.known name = some held →
      name ∉ Fields.names before.registry.entries → name ∉ resolving →
        Room pending (name :: resolving) most layers held.definition.toJson) :
    EndsFrom most (resolveNamed patterns self resolving name) before := by
  have looked : Ends pending (name :: resolving) most (do
      let entry ← (← get).registry.entry name
      return ⟨entry.type, entry.caster⟩ : Compile Resolved) := by
    exact .get fun workspace => .lift (fun _ => found_rejection) fun entry _ => .pure _
  refine EndsFrom.get ?_
  split
  · rename_i absent
    have fresh := not_registered absent
    split
    · exact Rejection.circular name
    · rename_i free
      refine EndsFrom.get (EndsFrom.lift (fun _ => found_rejection) fun held found => ?_)
      have room := enough held (Registry.found_ok.mp found) fresh (by simpa using free)
      exact (Ends.bind (register_ends solves room patterns name held.category)
        fun _ => looked) before accounted
  · exact looked before accounted

end

/-- Solvers with so many layers end where these suffice, whatever is under way. -/
theorem solve_ends (patterns : Patterns) (pending resolving : List String) (most layers : Nat) :
    SolverEnds pending resolving most layers (solve patterns layers resolving) := by
  induction layers generalizing resolving with
  | zero => exact ⟨nofun, nofun, nofun⟩
  | succ layers ih =>
    constructor
    · intro enough target before accounted
      exact resolveNamed_ends (ih (target :: resolving)) (accounted.enter target)
        fun held known fresh free => accounted.room enough known fresh free
    · intro added deep enough name before accounted
      have ends : EndsFrom most (solve patterns (layers + 1) resolving (.named name))
          (before.adopt name added) := by
        refine resolveNamed_ends (ih (name :: resolving)) (accounted.adopt deep)
          fun held known fresh free => ?_
        rcases find_adopt known with old | ⟨-, rfl⟩
        · rw [(adopt_known name added).2] at fresh
          exact accounted.room (by omega) old fresh free
        · have fewer : allowance pending (name :: resolving) most ≤
              allowance pending resolving most := allowance_cons_le name resolving
          exact .of_depth (by omega) (by omega)
      refine .intro (fun error ran => ?_) fun result after ran => ?_
      · simp only [resolveAnonymous, run_bind_error, run_modify_error, run_modify_ok,
          false_or] at ran
        obtain ⟨_, _, rfl, failed⟩ := ran
        exact ends.rejection failed
      · simp only [resolveAnonymous, run_bind_ok, run_modify_ok] at ran
        obtain ⟨_, _, rfl, solved⟩ := ran
        exact (ends.adds solved).of_adopt deep (resolveNamed_registers solved)
    · intro definition deep enough hint
      have room : Room pending resolving most layers definition.toJson :=
        .of_depth (by omega) (by omega)
      exact resolveShape_ends (ih resolving) room patterns deep (by omega) hint

/-! ## Phases -/

section

variable {pending : List String} {most layers : Nat} {solve : Solver}
  (solves : SolverEnds pending [] most layers solve)

include solves

theorem registerAll_ends (enough : allowance pending [] most < layers) :
    Ends pending [] most (registerAll solve) := by
  refine .forM fun category _ => .get fun workspace => ?_
  exact .forM fun name _ => .discard (solves.reference enough name)

theorem discoverProperty_ends {outer schema : Json} (room : Room pending [] most layers outer)
    (inside : Json.Inside schema outer) (owner key : String) :
    Ends pending [] most (discoverProperty solve owner key schema) := by
  unfold discoverProperty
  split
  · exact .pure _
  · rename_i definition object
    obtain ⟨node, -⟩ := objectType?_eq_some object
    obtain ⟨deep, enough⟩ := room.inside schema inside
    rw [Definition.ofJson_ok node] at deep enough
    refine .get fun workspace => ?_
    split
    · exact .discard (solves.made ⟨definition, .custom⟩ deep (Nat.lt_of_succ_lt enough) _)
    · exact .pure _

theorem discover_ends {owner : String} {before : Workspace} {outer : Classified}
    (accounted : Accounted pending [] most before)
    (known : Fields.get? before.known owner = some outer)
    (room : Room pending [] most layers outer.definition.toJson) :
    EndsFrom most (discover solve owner) before := by
  refine EndsFrom.get (EndsFrom.lift (fun _ => found_rejection) fun held found => ?_)
  rw [Workspace.find, Registry.found_ok, known] at found
  cases found
  exact Ends.forM (fun entry member => discoverProperty_ends solves room
    (Definition.inside_of_properties member) owner entry.1) before accounted

theorem bindProperties_ends {outer : Json} (room : Room pending [] most layers outer)
    (owner : String) (required : Bool) {entries : List (String × Json)}
    (inside : ∀ entry ∈ entries, Json.Inside entry.2 outer) (special : SpecialNames) :
    Ends pending [] most (bindProperties solve owner required entries special) := by
  induction entries generalizing special with
  | nil => exact .pure _
  | cons entry rest ih =>
    refine .bind (resolveInline_ends solves room (inside entry List.mem_cons_self) _)
      fun resolved => ?_
    refine .bind (ih (fun other member => inside other (List.mem_cons_of_mem entry member)) _)
      fun others => ?_
    exact .pure _

theorem bindCatchAll_ends (owner : String) {definition : Definition}
    (room : Room pending [] most layers definition.toJson) :
    Ends pending [] most (bindCatchAll solve owner definition) := by
  unfold bindCatchAll
  split
  · exact .pure _
  · exact .pure _
  · exact .pure _
  · rename_i schema _ _ declared
    have inside := Relation.TransGen.single (Definition.child_of_get? declared)
    exact .bind (resolveInline_ends solves room inside _) fun resolved => .pure _

theorem bind_ends {name : String} {before : Workspace} {outer : Classified}
    (accounted : Accounted pending [] most before)
    (known : Fields.get? before.known name = some outer)
    (room : Room pending [] most layers outer.definition.toJson) :
    EndsFrom most (bind solve name) before := by
  refine EndsFrom.get (EndsFrom.lift (fun _ => found_rejection) fun held found => ?_)
  rw [Workspace.find, Registry.found_ok, known] at found
  cases found
  suffices ends : Ends pending [] most _ from ends before accounted
  refine .bind (bindProperties_ends solves room name true (fun entry member =>
    Definition.inside_of_properties (mem_splitProperties.1.mp member).1) []) fun first => ?_
  refine .bind (bindProperties_ends solves room name false (fun entry member =>
    Definition.inside_of_properties (mem_splitProperties.2.mp member).1) first.2)
    fun second => ?_
  refine .bind (bindCatchAll_ends solves name room) fun catchAll => ?_
  refine .get fun workspace => .lift (fun _ => found_rejection) fun composite _ => ?_
  exact .modify fun _ => adds_enter rfl fun _ => id

end

end TypedSchema.Compile
