import TypedSchema.Proofs.Decode.Fillable
import TypedSchema.Proofs.Decode.Steady

/-!
Casts are steady. The attributes of keys are the same with any special names that only conversion
has put in place, and a settled object is written alike, so what a cast of settled values gives does
not depend on what was decoded before.
-/

namespace TypedSchema

namespace Decode

open NameTable (Grows)

variable {registry : Registry} {cast : Cast} {near : NameTable → Prop} {allowed : String → Prop}

/-- The computation is steady, as far as errors are told apart by anything but their place. -/
abbrev SteadyRun (near : NameTable → Prop) (allowed : String → Prop) {α : Type}
    (action : Decode α) : Prop :=
  Steady near allowed Error.unplaced action

/-- Casts of settled values are steady. -/
def SteadyCast (registry : Registry) (near : NameTable → Prop) (allowed : String → Prop)
    (cast : Cast) : Prop :=
  ∀ caster value, value.Settled registry near allowed →
    Steady near allowed Refusal.unplaced (cast caster value)

/-! ## Filling -/

theorem toError_steady {action : Attempt Value}
    (steady : Steady near allowed Refusal.unplaced action) (describe : Mismatch → TypeFault) :
    SteadyRun near allowed (ExceptT.adapt (Refusal.toError describe) action) :=
  .adapt steady fun error cause same => by
    rw [Refusal.unplaced_toError, Refusal.unplaced_toError, same]

theorem coerce_steady (steady : SteadyCast registry near allowed cast) (name : String)
    (type : TypeExpr) (caster : Caster) {value : Value}
    (settled : value.Settled registry near allowed) :
    SteadyRun near allowed (coerce registry cast name type caster value) := by
  simp only [coerce]
  split
  · exact .pure value
  · exact toError_steady (steady caster value settled) _

/-- What stopped filling is an error at some place. -/
theorem stopping_steady {α : Type} {action : Decode α} (steady : SteadyRun near allowed action)
    (step : PathStep) (assigned : Fields Value) :
    Steady near allowed Stopped.unplaced
      (ExceptT.adapt (fun error => (⟨error.under step, assigned⟩ : Stopped)) action) :=
  .adapt steady fun error cause same => by simpa [Stopped.unplaced] using same

section

variable (upward : Upward near allowed)

include upward

theorem assignDeclared_steady {params : List Property} {declared : Fields Value}
    (each : ∀ param ∈ params, ∀ entry ∈ declared, SteadyRun near allowed
      (coerce registry cast param.name param.type param.caster entry.2))
    (assigned : Fields Value) :
    Steady near allowed Stopped.unplaced
      (assignDeclared registry cast params declared assigned) := by
  induction params generalizing declared assigned with
  | nil => exact .pure assigned
  | cons param rest ih =>
    have later : ∀ other ∈ rest, ∀ entry ∈ declared, SteadyRun near allowed
        (coerce registry cast other.name other.type other.caster entry.2) := fun other member =>
      each other (List.mem_cons_of_mem _ member)
    simp only [assignDeclared]
    split
    · exact ih later assigned
    · rename_i value found
      have own := each param List.mem_cons_self _ (Fields.mem_of_get? found)
      refine .bind upward (stopping_steady own _ assigned) fun coerced _ _ _ => ?_
      exact ih (fun other member entry kept =>
        later other member entry (List.mem_of_mem_filter kept)) _

theorem assignExtra_steady {type : String} {catchAll : CatchAll} {entries : List (String × Value)}
    (each : ∀ entry ∈ entries, SteadyRun near allowed
      (coerce registry cast entry.1 catchAll.type catchAll.caster entry.2))
    (assigned : Fields Value) :
    Steady near allowed Stopped.unplaced
      (assignExtra registry cast type catchAll entries assigned) := by
  induction entries generalizing assigned with
  | nil => exact .pure assigned
  | cons entry rest ih =>
    obtain ⟨name, value⟩ := entry
    have own := each (name, value) List.mem_cons_self
    have remaining : ∀ sofar, Steady near allowed Stopped.unplaced
        (assignExtra registry cast type catchAll rest sofar) :=
      ih fun other member => each other (List.mem_cons_of_mem _ member)
    -- The key of an entry that fails depends on the table, but it is only the place of the error.
    have steps : Steady near allowed Stopped.unplaced
        (ExceptT.adapt (fun error => (⟨error.atField name, assigned⟩ : Stopped))
          (coerce registry cast name catchAll.type catchAll.caster value) >>= fun value =>
            assignExtra registry cast type catchAll rest (Fields.insert assigned name value)) :=
      .bind upward (stopping_steady own _ assigned) fun value _ _ _ => remaining _
    refine steps.congr (fun names => ?_) fun names => ?_
    · rw [run_assignExtra_cons, run_bind, run_adapt]
      rcases (coerce registry cast name catchAll.type catchAll.caster value).run names with
        ⟨error | _, after⟩
      · simp [Except.mapError, Stopped.unplaced, Error.atField]
      · rfl
    · rw [run_assignExtra_cons, run_bind, run_adapt]
      rcases (coerce registry cast name catchAll.type catchAll.caster value).run names with
        ⟨_ | _, after⟩
      · rfl
      · rfl

variable {holds : Value → Prop}

theorem invoke_steady {signature : Signature}
    (fillable : Fillable registry cast holds (SteadyRun near allowed) signature)
    {arguments : Arguments} (hold : arguments.Hold holds) (type : String)
    (assigned : Fields Value) :
    Steady near allowed Stopped.unplaced
      (invoke registry cast type signature arguments assigned) := by
  simp only [invoke]
  split
  · exact .throw _
  · rename_i bound binding
    have binds := Signature.bind_binds fillable.params fillable.defaults hold binding
    refine .bind upward (assignDeclared_steady upward (fun param member entry held =>
      fillable.declared param member entry.2 (binds.values entry held)) assigned)
      fun sofar _ _ _ => ?_
    split
    · rename_i way takes
      exact assignExtra_steady upward (fun entry held =>
        fillable.extra way takes entry.1 entry.2 (binds.extra.values entry held)) sofar
    · exact .pure sofar

section

variable
  (each : ∀ name composite, Fields.get? registry.composites name = some composite →
    Fillable registry cast holds (SteadyRun near allowed) composite.signature)

include each

theorem runInitializer_steady (depth : Nat) {name : String} {composite : Composite}
    (present : Fields.get? registry.composites name = some composite) {arguments : Arguments}
    (hold : arguments.Hold holds) (type : String) (assigned : Fields Value) :
    Steady near allowed Stopped.unplaced
      (runInitializer registry cast depth type composite.initializer arguments assigned) := by
  generalize shape : composite.initializer = initializer
  induction depth, type, initializer, arguments, assigned using runInitializer.induct
    generalizing name composite with
  | case1 depth type signature arguments assigned =>
    have fillable := each name composite present
    rw [Composite.signature_of_direct shape] at fillable
    rw [runInitializer_direct]
    exact invoke_steady upward fillable hold type assigned
  | case2 type signature parents arguments assigned => exact .throw _
  | case3 depth type signature parents arguments assigned error failed =>
    rw [runInitializer, failed]
    exact .throw _
  | case4 depth type signature parents arguments assigned bound binding ih =>
    have fillable := each name composite present
    rw [Composite.signature_of_combined shape] at fillable
    have binds := Signature.bind_binds fillable.params fillable.defaults hold binding
    rw [runInitializer, binding]
    -- Parents are handed what was bound; one that is missing fails alike with all tables.
    refine .foldlM upward (fun parent member sofar => ?_) assigned
    split
    · exact .throw _
    · rename_i above found
      exact ih sofar parent above (Registry.found_ok.mp found) (handOver_hold binds) rfl

theorem construct_steady {name : String} {composite : Composite}
    (present : Fields.get? registry.composites name = some composite) {arguments : Arguments}
    (hold : arguments.Hold holds) :
    SteadyRun near allowed (construct registry cast composite arguments) := by
  have filling := runInitializer_steady upward each (generations registry) present hold
    composite.name []
  refine .bind upward (.adapt filling fun stopped other same => ?_) fun attributes _ _ _ => .pure _
  rw [Error.unplaced_withinType, Error.unplaced_withinType]
  exact congrArg (Error.withinType composite.name) same

end

/-- The attributes of keys are the same with all these special names. -/
theorem keywords_steady {ε : Type} {erase : ε → Error} (composite : Composite)
    {entries : Fields Value} (keys : ∀ key ∈ Fields.names entries, allowed key) :
    Steady near allowed erase (liftM (keywords composite entries)) where
  grows := fun names _ => keywords_grows composite entries names
  same := fun first second here there => by
    rw [run_lift, run_lift, keywords_fst composite entries (upward.sound first here),
      keywords_fst composite entries (upward.sound second there)]
  carried := fun first second _ _ type name member => by
    rw [run_lift] at member ⊢
    rcases mem_keywords.mp member with held | read
    · exact .inl held
    · exact .inr (mem_keywords.mpr (.inr read))
  keys := fun names _ type name member => by
    rw [run_lift] at member
    rcases mem_keywords.mp member with held | ⟨-, read, -⟩
    · exact .inl held
    · exact .inr (keys name read)

/-! ## Casting -/

variable (wellFormed : registry.WellFormed) (steady : SteadyCast registry near allowed cast)

include steady

theorem castItems_steady (caster : Caster) {items : List Value}
    (each : ∀ item ∈ items, item.Settled registry near allowed) (index : Nat) :
    SteadyRun near allowed (castItems cast caster index items) := by
  induction items generalizing index with
  | nil => exact .pure []
  | cons item rest ih =>
    have first := steady caster item (each item List.mem_cons_self)
    refine .bind upward (.adapt first fun error cause same => ?_) fun _ _ _ _ => ?_
    · simp [Error.atIndex, same]
    · refine .bind upward (ih (fun other member => each other (List.mem_cons_of_mem _ member)) _)
        fun _ _ _ _ => ?_
      exact .pure _

theorem discriminate_steady (dispatcher : Dispatcher Caster) {data : Fields Value}
    (settled : (Value.map data).Settled registry near allowed) :
    SteadyRun near allowed (discriminate cast dispatcher data) :=
  .bind upward (.except _) fun branch _ _ _ => toError_steady (steady branch.caster _ settled) _

include wellFormed

omit upward in
theorem fillable_settled {name : String} {composite : Composite}
    (present : Fields.get? registry.composites name = some composite) :
    Fillable registry cast (Value.Settled registry near allowed) (SteadyRun near allowed)
      composite.signature :=
  fillable wellFormed present .null
    (fun property _ _ settled => coerce_steady steady property.name property.type property.caster
      settled)
    fun way _ name _ settled => coerce_steady steady name way.type way.caster settled

theorem fromEntries_steady {name : String} {composite : Composite}
    (present : Fields.get? registry.composites name = some composite) {entries : Fields Value}
    (settled : (Value.map entries).Settled registry near allowed) :
    SteadyRun near allowed (fromEntries registry cast composite entries) := by
  have keys : ∀ key ∈ Fields.names entries, allowed key := fun key member =>
    settled.keys key ⟨entries, .self, member⟩
  refine .bind upward (keywords_steady upward composite keys) fun keyword names _ read => ?_
  rw [run_lift] at read
  cases read
  refine construct_steady upward (fun name composite => fillable_settled wellFormed steady)
    present (keywords_hold fun entry member => ?_)
  exact settled.inner (.entry member .self)

/-- An object of another type is read as it is written, which is the same with all tables. -/
theorem fromObject_steady {name : String} {composite : Composite}
    (present : Fields.get? registry.composites name = some composite) {type : String}
    {attributes : Fields Value}
    (settled : (Value.object type attributes).Settled registry near allowed) :
    SteadyRun near allowed (do
      fromEntries registry cast composite (← plainEntries registry type attributes)) := by
  obtain ⟨entries, written, objectless, keys⟩ := settled.objects type attributes .self
  have plain : SteadyRun near allowed (liftM (plainEntries registry type attributes)) :=
    .of_constant fun names here => congrArg (fun plain => (Except.ok plain, names))
      (written names here)
  -- Whatever the table is, these entries are read, and no object is left in them.
  refine .bind upward plain fun read names here given => ?_
  rw [run_lift] at given
  have same : read = entries := (Except.ok.inj given).symm.trans (written names here)
  subst same
  exact fromEntries_steady upward wellFormed steady present (objectless.settled keys)

theorem castComposite_steady (name : String) {value : Value}
    (settled : value.Settled registry near allowed) :
    Steady near allowed Refusal.unplaced (castComposite registry cast name value) := by
  have nested : ∀ {action : Decode Value}, SteadyRun near allowed action →
      Steady near allowed Refusal.unplaced (ExceptT.adapt Refusal.nested action) := fun inner =>
    .adapt inner fun error cause same => congrArg Refusal.nested same
  have found : ∀ composite, registry.compositeNamed name = .ok composite →
      Fields.get? registry.composites name = some composite := fun composite held => by
    rw [wellFormed.compositeNamed] at held
    exact Registry.found_ok.mp held
  cases value with
  | object type attributes =>
    simp only [castComposite]
    split
    · exact .pure _
    · refine nested (.bind upward (.except _) fun composite names _ held => ?_)
      rw [run_except] at held
      exact fromObject_steady upward wellFormed steady (found composite held) settled
  | map entries =>
    refine nested (.bind upward (.except _) fun composite names _ held => ?_)
    rw [run_except] at held
    exact fromEntries_steady upward wellFormed steady (found composite held) settled
  | _ => exact .throw _

/-- A layer is steady if those below it are. -/
theorem castLayer_steady : SteadyCast registry near allowed (castLayer registry cast) := by
  intro caster value settled
  cases caster with
  | identity => exact .pure value
  | scalar type =>
    simp only [castLayer]
    split
    · exact .pure _
    · exact .throw _
  | list item =>
    cases value with
    | list items =>
      have each := castItems_steady upward steady item
        (fun value member => settled.inner (.item member .self)) 0
      have inner : Steady near allowed Refusal.unplaced
          (ExceptT.adapt Refusal.nested (castItems cast item 0 items)) :=
        .adapt each fun error cause same => congrArg Refusal.nested same
      exact .bind upward inner fun _ _ _ _ => .pure _
    | _ => exact .throw _
  | enumeration name =>
    simp only [castLayer]
    split
    · exact .throw _
    · split
      · exact .pure _
      · exact .throw _
  | composite name => exact castComposite_steady upward wellFormed steady name settled
  | polymorph dispatcher =>
    cases value with
    | object type attributes =>
      simp only [castLayer]
      split
      · exact .pure _
      · exact .throw _
    | map data =>
      have inner := discriminate_steady upward steady dispatcher settled
      exact .adapt inner fun error cause same => congrArg Refusal.nested same
    | _ => exact .throw _

end

/-- Casts are steady, however many layers they have. -/
theorem castWith_steady (wellFormed : registry.WellFormed) (upward : Upward near allowed)
    (layers : Nat) : SteadyCast registry near allowed (castWith registry layers) := by
  induction layers with
  | zero => exact fun _ _ _ => .throw _
  | succ layers ih => exact castLayer_steady upward wellFormed ih

end Decode

namespace Registry

open Decode

variable {registry : Registry} {near : NameTable → Prop} {allowed : String → Prop}

/-- What decoding settled values gives does not depend on what was decoded before. -/
theorem decode_steady (wellFormed : registry.WellFormed) (upward : Upward near allowed)
    (name : String) {value : Value} (settled : value.Settled registry near allowed) :
    SteadyRun near allowed (registry.decode name value) := by
  refine .bind upward (.except _) fun composite names _ held => ?_
  rw [run_except, wellFormed.compositeNamed] at held
  have present : Fields.get? registry.composites name = some composite := found_ok.mp held
  have steady : ∀ layers, SteadyCast registry near allowed (castWith registry layers) :=
    castWith_steady wellFormed upward
  cases value with
  | map entries => exact fromEntries_steady upward wellFormed (steady _) present settled
  | object type attributes =>
    simp only [convert]
    split
    · exact .pure _
    · exact fromObject_steady upward wellFormed (steady _) present settled
  | _ => exact .throw _

end Registry

end TypedSchema
