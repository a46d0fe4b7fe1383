import TypedSchema.Proofs.Decode.Faults
import TypedSchema.Proofs.Decode.Refilling

/-!
How computations on data stop: one lemma for each of them says which step fails, what it fails with
and what the steps around it make of the error. An initializer stops where its keywords do not bind
or where one of its leaves cannot coerce a keyword.
-/

namespace TypedSchema

/-- The types whose own signatures the initializer of a type binds in the end: the type itself, or
ancestors that it is put together from. -/
inductive Registry.LeafOf (registry : Registry) : String → String → Prop where
  | direct {name : String} {composite : Composite} {signature : Signature}
    (present : Fields.get? registry.composites name = some composite)
    (shape : composite.initializer = .direct signature) : LeafOf registry name name
  | parent {name parent leaf : String} {composite : Composite} {signature : Signature}
    {parents : List String} (present : Fields.get? registry.composites name = some composite)
    (shape : composite.initializer = .combined signature parents) (member : parent ∈ parents)
    (above : LeafOf registry parent leaf) : LeafOf registry name leaf

namespace Decode

open NameTable (Grows)

variable {registry : Registry} {cast : Cast} {names after : NameTable} {error : Error}

/-! ## Coercing -/

/-- An error that ended a run between two states, because a value could not be coerced. -/
structure Uncoerced (registry : Registry) (cast : Cast) (before after : NameTable)
    (step : Assignment) (error : Error) : Prop where
  casted : (step.value.isNull || registry.conforms step.value step.type) = false
  refused : ∃ start refusal, Grows before start ∧
    (cast step.caster step.value).run start = (.error refusal, after) ∧
    refusal.toError (.argument step.name step.type) = error

namespace Uncoerced

variable {step : Assignment}

theorem earlier {before : NameTable} (grows : Grows before names)
    (uncoerced : Uncoerced registry cast names after step error) :
    Uncoerced registry cast before after step error := by
  obtain ⟨start, refusal, later, rest⟩ := uncoerced.refused
  exact ⟨uncoerced.casted, start, refusal, grows.trans later, rest⟩

theorem not_null (uncoerced : Uncoerced registry cast names after step error) :
    step.value.isNull = false :=
  (Bool.or_eq_false_iff.mp uncoerced.casted).1

end Uncoerced

theorem coerce_error {name : String} {type : TypeExpr} {caster : Caster} {value : Value}
    (ran : (coerce registry cast name type caster value).run names = (.error error, after)) :
    Uncoerced registry cast names after ⟨name, type, caster, value⟩ error := by
  unfold coerce at ran
  split at ran
  · cases ran
  · rename_i casted
    obtain ⟨refusal, refused, made⟩ := run_adapt_error.mp ran
    exact ⟨Bool.eq_false_iff.mpr casted, names, refusal, .refl names, refused, made⟩

/-! ## Filling -/

section

variable (growing : GrowingCast cast) {assigned : Fields Value} {stopped : Stopped}

include growing

theorem assignDeclared_error {params : List Property} {declared : Fields Value}
    (ran : (assignDeclared registry cast params declared assigned).run names =
      (.error stopped, after)) :
    ∃ param ∈ params, ∃ value cause, Fields.get? declared param.name = some value ∧
      Uncoerced registry cast names after ⟨param.name, param.type, param.caster, value⟩ cause ∧
      stopped.error = cause.atField param.external := by
  induction params generalizing declared assigned names with
  | nil => cases ran
  | cons param rest ih =>
    unfold assignDeclared at ran
    split at ran
    · obtain ⟨other, member, others⟩ := ih ran
      exact ⟨other, List.mem_cons_of_mem _ member, others⟩
    · rename_i value found
      cases run_bind_error.mp ran with
      | inl failed =>
        obtain ⟨cause, refused, rfl⟩ := run_adapt_error.mp failed
        exact ⟨param, List.mem_cons_self, value, cause, found, coerce_error refused, rfl⟩
      | inr later =>
        obtain ⟨coerced, between, first, ran⟩ := later
        obtain ⟨other, member, value, cause, held, uncoerced, same⟩ := ih ran
        have grows : Grows names between :=
          (coerce_growing growing ..).of_run (run_adapt_ok.mp first)
        rw [Fields.get?_erase] at held
        split at held
        · cases held
        · exact ⟨other, List.mem_cons_of_mem _ member, value, cause, held,
            uncoerced.earlier grows, same⟩

theorem assignExtra_error {type : String} {way : CatchAll} {entries : List (String × Value)}
    (ran : (assignExtra registry cast type way entries assigned).run names =
      (.error stopped, after)) :
    ∃ entry ∈ entries, ∃ cause,
      Uncoerced registry cast names after ⟨entry.1, way.type, way.caster, entry.2⟩ cause ∧
      stopped.error = cause.atField (Naming.snakeToPascal entry.1 (after.of type)) := by
  induction entries generalizing assigned names with
  | nil => cases ran
  | cons entry rest ih =>
    obtain ⟨name, value⟩ := entry
    rw [run_assignExtra_cons] at ran
    rcases outcome : (coerce registry cast name way.type way.caster value).run names with
      ⟨cause | coerced, between⟩
    · rw [outcome] at ran
      cases ran
      exact ⟨(name, value), List.mem_cons_self, cause, coerce_error outcome, rfl⟩
    · rw [outcome] at ran
      obtain ⟨other, member, cause, uncoerced, same⟩ := ih ran
      have grows : Grows names between := (coerce_growing growing ..).of_run outcome
      exact ⟨other, List.mem_cons_of_mem _ member, cause, uncoerced.earlier grows, same⟩

end

/-- Parents that are run in order stop at one that is missing or stops itself. -/
theorem runParents_error (growing : GrowingCast cast) {depth : Nat} {bound : Bound}
    {parents : List String} {assigned : Fields Value} {stopped : Stopped}
    (ran : (parents.foldlM (fun assigned parent => do
        match registry.composite parent with
        | .error error => throw ⟨error, assigned⟩
        | .ok composite =>
          runInitializer registry cast depth parent composite.initializer
            (handOver composite.signature bound) assigned)
        assigned : Filling (Fields Value)).run names = (.error stopped, after)) :
    ∃ parent ∈ parents, registry.composite parent = .error stopped.error ∨
      ∃ above sofar between, registry.composite parent = .ok above ∧ Grows names between ∧
        (runInitializer registry cast depth parent above.initializer
          (handOver above.signature bound) sofar).run between = (.error stopped, after) := by
  obtain ⟨parent, member, sofar, between, grows, failed⟩ := Growing.foldlM_error
    (fun sofar parent => by
      cases registry.composite parent with
      | error missing => exact .throw _
      | ok above => exact runInitializer_growing growing ..) ran
  refine ⟨parent, member, ?_⟩
  cases found : registry.composite parent with
  | error missing =>
    rw [found] at failed
    cases failed
    exact .inl rfl
  | ok above =>
    rw [found] at failed
    exact .inr ⟨above, sofar, between, rfl, grows, failed⟩

/-- A leaf that could not coerce a keyword. The error names the key that the leaf writes for its
attribute. -/
def Stops (registry : Registry) (cast : Cast) (before after : NameTable) (leaf : String)
    (keywords : Fields Value) (error : Error) : Prop :=
  ∃ own step cause, Fields.get? registry.composites leaf = some own ∧ own.Assigns step ∧
    Fields.get? keywords step.name = some step.value ∧
    Uncoerced registry cast before after step cause ∧
    error = cause.atField (registry.keyOf after leaf step.name)

theorem Stops.earlier {before : NameTable} (grows : Grows before names) {leaf : String}
    {keywords : Fields Value} (stops : Stops registry cast names after leaf keywords error) :
    Stops registry cast before after leaf keywords error := by
  obtain ⟨own, step, cause, present, assigns, held, uncoerced, made⟩ := stops
  exact ⟨own, step, cause, present, assigns, held, uncoerced.earlier grows, made⟩

/-- A leaf takes what it is handed from the keywords. -/
theorem Stops.of_handOver {parent signature : Signature} {keywords : Fields Value}
    (distinct : Fields.Distinct keywords)
    (defaults : signature.DefaultsHold fun value => value.isNull = true) {leaf : String}
    (stops : Stops registry cast names after leaf
      (handOver parent (signature.boundTo keywords)).keyword error) :
    Stops registry cast names after leaf keywords error := by
  obtain ⟨own, step, cause, present, assigns, held, uncoerced, made⟩ := stops
  exact ⟨own, step, cause, present, assigns,
    keyword_of_handOver distinct defaults held uncoerced.not_null, uncoerced, made⟩

section

variable (wellFormed : registry.WellFormed) (growing : GrowingCast cast) {name : String}
  {composite : Composite} (present : Fields.get? registry.composites name = some composite)
  {keywords : Fields Value} (distinct : Fields.Distinct keywords)
  (accepts : composite.signature.Accepts keywords)
  {assigned : Fields Value} {stopped : Stopped}

include wellFormed growing present distinct accepts

/-- What a signature that accepts its keywords cannot coerce is one of them. -/
theorem invoke_stops
    (ran : (invoke registry cast name composite.signature { keyword := keywords } assigned).run
      names = (.error stopped, after)) :
    Stops registry cast names after name keywords stopped.error := by
  have own := (wellFormed.composites name composite present).2
  have binding := (Signature.bind_ok_iff own.distinctParams distinct).mpr ⟨accepts, rfl⟩
  have defaults : composite.signature.DefaultsHold fun value => value.isNull = true :=
    own.defaultsHold rfl
  unfold invoke at ran
  rw [binding] at ran
  cases run_bind_error.mp ran with
  | inl failed =>
    obtain ⟨param, member, value, cause, held, uncoerced, same⟩ :=
      assignDeclared_error growing failed
    rw [own.params] at member
    have declared := own.property_of_mem member
    have shown : registry.keyOf after name param.name = param.external := by
      simp only [Registry.keyOf, present, Composite.externalName, Composite.property?, declared]
    exact ⟨composite, ⟨param.name, param.type, param.caster, value⟩, cause, present,
      .declared declared rfl rfl,
      Signature.keyword_of_boundTo defaults (Fields.mem_of_get? held) uncoerced.not_null,
      uncoerced, shown.symm ▸ same⟩
  | inr later =>
    obtain ⟨sofar, between, first, ran⟩ := later
    have grows : Grows names between := (assignDeclared_growing growing ..).of_run first
    split at ran
    · rename_i way takes
      obtain ⟨entry, member, cause, uncoerced, same⟩ := assignExtra_error growing ran
      obtain ⟨held, undeclared⟩ := Signature.mem_extras.mp member
      have absent := own.undeclared_iff.mp undeclared
      have shown : registry.keyOf after name entry.1 =
          Naming.snakeToPascal entry.1 (after.of name) := by
        simp only [Registry.keyOf, present, Composite.externalName, Composite.property?, absent]
      exact ⟨composite, ⟨entry.1, way.type, way.caster, entry.2⟩, cause, present,
        .undeclared absent (own.catchAll ▸ takes) rfl rfl, Fields.get?_of_mem distinct held,
        uncoerced.earlier grows, shown.symm ▸ same⟩
    · cases ran

theorem runInitializer_direct_stops {depth : Nat} {signature : Signature}
    (direct : composite.initializer = .direct signature)
    (ran : (runInitializer registry cast depth name composite.initializer { keyword := keywords }
      assigned).run names = (.error stopped, after)) :
    Stops registry cast names after name keywords stopped.error := by
  rw [direct, runInitializer_direct, ← Composite.signature_of_direct direct] at ran
  exact invoke_stops wellFormed growing present distinct accepts ran

/-- An initializer whose keywords bind stops at one of its leaves. -/
theorem runInitializer_stops {depth : Nat}
    (ran : (runInitializer registry cast depth name composite.initializer { keyword := keywords }
      assigned).run names = (.error stopped, after)) (fault : stopped.error.IsFault) :
    ∃ leaf, registry.LeafOf name leaf ∧
      Stops registry cast names after leaf keywords stopped.error := by
  induction depth generalizing name composite keywords assigned names with
  | zero =>
    cases shape : composite.initializer with
    | direct signature =>
      exact ⟨name, .direct present shape,
        runInitializer_direct_stops wellFormed growing present distinct accepts shape ran⟩
    | combined signature parents =>
      rw [shape] at ran
      cases ran
      exact fault.elim
  | succ depth ih =>
    have own := (wellFormed.composites name composite present).2
    cases shape : composite.initializer with
    | direct signature =>
      exact ⟨name, .direct present shape,
        runInitializer_direct_stops wellFormed growing present distinct accepts shape ran⟩
    | combined signature parents =>
      have same := Composite.signature_of_combined shape
      have params := own.distinctParams
      have defaults : composite.signature.DefaultsHold fun value => value.isNull = true :=
        own.defaultsHold rfl
      rw [same] at accepts params defaults
      rw [shape] at ran
      unfold runInitializer at ran
      rw [(Signature.bind_ok_iff params distinct).mpr ⟨accepts, rfl⟩] at ran
      obtain ⟨parent, member, stop⟩ := runParents_error growing ran
      cases stop with
      | inl missing => exact absurd fault (Registry.found_no_fault missing)
      | inr stopping =>
        obtain ⟨above, sofar, between, found, grows, failed⟩ := stopping
        have abovePresent := Registry.found_ok.mp found
        have within := wellFormed.within own shape member abovePresent
        -- The parent is given what it declares, so it cannot fail to bind it.
        obtain ⟨leaf, leafOf, stops⟩ := ih abovePresent (distinct_handOver params keywords)
          (accepts_handOver params distinct within) failed
        exact ⟨leaf, .parent present shape member leafOf,
          (stops.of_handOver distinct defaults).earlier grows⟩

end

/-! ## Objects -/

/-- What becomes of the entries of a map when they do not make an object: their attributes do not
bind, or a leaf cannot coerce one of them. -/
theorem fromEntries_error (wellFormed : registry.WellFormed) (growing : GrowingCast cast)
    (sound : names.Sound) {name : String} {composite : Composite}
    (present : Fields.get? registry.composites name = some composite) {entries : Fields Value}
    (ran : (fromEntries registry cast composite entries).run names = (.error error, after))
    (fault : error.IsFault) :
    ∃ cause, error = cause.withinType name ∧
      (composite.signature.bind
          { keyword := Fields.ofList (composite.internalEntries entries) } = .error cause ∨
        ∃ leaf, registry.LeafOf name leaf ∧ Stops registry cast names after leaf
          (Fields.ofList (composite.internalEntries entries)) cause) := by
  obtain ⟨named, own⟩ := wellFormed.composites name composite present
  cases run_bind_error.mp ran with
  | inl failed => cases failed
  | inr later =>
    obtain ⟨keyword, between, read, ran⟩ := later
    rw [run_lift, outcome_eq_iff] at read
    obtain ⟨equal, rfl⟩ := read
    cases equal
    rw [keywords_fst composite entries sound] at ran
    cases run_bind_error.mp ran with
    | inr made =>
      obtain ⟨attributes, last, -, ran⟩ := made
      cases ran
    | inl failed =>
      obtain ⟨stopped, filling, rfl⟩ := run_adapt_error.mp failed
      rw [named] at filling fault ⊢
      refine ⟨stopped.error, rfl, ?_⟩
      have distinct := Fields.distinct_ofList (composite.internalEntries entries)
      cases binding : composite.signature.bind
          { keyword := Fields.ofList (composite.internalEntries entries) } with
      | error cause =>
        rw [generations, runInitializer_refuses binding] at filling
        cases filling
        exact .inl rfl
      | ok bound =>
        have accepts := ((Signature.bind_ok_iff own.distinctParams distinct).mp binding).1
        obtain ⟨leaf, leafOf, stops⟩ := runInitializer_stops wellFormed growing present distinct
          accepts filling fault.of_withinType
        exact .inr ⟨leaf, leafOf, stops.earlier (keywords_grows composite entries names)⟩

/-! ## Casting -/

theorem castItems_error (growing : GrowingCast cast) {caster : Caster} {index : Nat}
    {items : List Value}
    (ran : (castItems cast caster index items).run names = (.error error, after)) :
    ∃ place item start refusal, items[place]? = some item ∧ Grows names start ∧
      (cast caster item).run start = (.error refusal, after) ∧
      error = (refusal.toError (.item caster)).atIndex (index + place) := by
  induction items generalizing index names with
  | nil => cases ran
  | cons item rest ih =>
    cases run_bind_error.mp ran with
    | inl failed =>
      obtain ⟨refusal, refused, rfl⟩ := run_adapt_error.mp failed
      exact ⟨0, item, names, refusal, rfl, .refl names, refused, rfl⟩
    | inr later =>
      obtain ⟨first, between, casted, ran⟩ := later
      cases run_bind_error.mp ran with
      | inl failed =>
        obtain ⟨place, other, start, refusal, held, grows, refused, rfl⟩ := ih failed
        have earlier := (growing caster item).of_run (run_adapt_ok.mp casted)
        refine ⟨place + 1, other, start, refusal, held, earlier.trans grows, refused, ?_⟩
        rw [Nat.add_assoc, Nat.add_comm 1 place]
      | inr last =>
        obtain ⟨others, _, -, impossible⟩ := last
        cases impossible

theorem discriminate_error {dispatcher : Dispatcher Caster} {data : Fields Value} :
    (discriminate cast dispatcher data).run names = (.error error, after) ↔
      (dispatcher.select data = .error error ∧ names = after) ∨
        ∃ branch refusal, dispatcher.select data = .ok branch ∧
          (cast branch.caster (.map data)).run names = (.error refusal, after) ∧
          refusal.toError (fun mismatch => .branch branch.target mismatch.value) = error := by
  simp only [discriminate, run_bind_error, run_except, outcome_eq_iff, run_adapt_error]
  constructor
  · rintro (failed | ⟨branch, _, ⟨selected, rfl⟩, refusal, refused, made⟩)
    · exact .inl failed
    · exact .inr ⟨branch, refusal, selected, refused, made⟩
  · rintro (failed | ⟨branch, refusal, selected, refused, made⟩)
    · exact .inl failed
    · exact .inr ⟨branch, names, ⟨selected, rfl⟩, refusal, refused, made⟩

end Decode

end TypedSchema
