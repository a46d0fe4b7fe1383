import TypedSchema.Proofs.Compile.Generations
import TypedSchema.Proofs.Decode.Fillable
import TypedSchema.Proofs.Decode.Layers

/-!
How casts fail. In a closed registry every name that a cast looks up is found and
every type has all its leaves within reach, so with enough layers what is left to go wrong is the
data: its type, a key or a value.
-/

namespace TypedSchema

/-! ## Faults -/

/-- Errors about data. -/
def Error.IsFault : Error → Prop
  | .type _ _ _ => True
  | .key _ _ => True
  | .value _ _ => True
  | _ => False

/-- A value that is refused, or a fault inside it. -/
def Refusal.IsFault : Refusal → Prop
  | .mismatch _ => True
  | .nested error => error.IsFault

theorem Error.IsFault.under {error : Error} (fault : error.IsFault) (step : PathStep) :
    (error.under step).IsFault := by
  cases error with
  | type => trivial
  | key => trivial
  | value => trivial
  | _ => exact fault.elim

theorem Error.IsFault.withinType {error : Error} (fault : error.IsFault) (type : String) :
    (error.withinType type).IsFault := by
  cases error with
  | type path within cause =>
    simp only [Error.withinType]
    split
    · trivial
    · trivial
  | key => trivial
  | value => trivial
  | _ => exact fault.elim

theorem Error.IsFault.of_under {error : Error} {step : PathStep}
    (fault : (error.under step).IsFault) : error.IsFault := by
  cases error with
  | type => trivial
  | key => trivial
  | value => trivial
  | _ => exact fault

theorem Error.IsFault.of_withinType {error : Error} {type : String}
    (fault : (error.withinType type).IsFault) : error.IsFault := by
  cases error with
  | type => trivial
  | _ => exact fault

theorem Refusal.IsFault.toError {refusal : Refusal} (fault : refusal.IsFault)
    (describe : Mismatch → TypeFault) : (refusal.toError describe).IsFault := by
  cases refusal with
  | mismatch => trivial
  | nested error => exact fault

theorem Refusal.IsFault.of_toError {refusal : Refusal} {describe : Mismatch → TypeFault}
    (fault : (refusal.toError describe).IsFault) : refusal.IsFault := by
  cases refusal with
  | mismatch => trivial
  | nested error => exact fault

/-- That a name is not found is no fault of the data. -/
theorem Registry.found_no_fault {α : Type} {fields : Fields α} {name : String} {error : Error}
    (missing : found fields name = .error error) : ¬error.IsFault := by
  obtain ⟨-, rfl⟩ := found_error.mp missing
  exact id

/-- Arguments that do not bind are a fault. -/
theorem Signature.bind_fails {signature : Signature} {arguments : Arguments} {error : Error}
    (failed : signature.bind arguments = .error error) : error.IsFault := by
  obtain ⟨path, fault, rfl⟩ := bind_refuses failed
  trivial

theorem Dispatcher.select_fails {κ : Type} {dispatcher : Dispatcher κ} {data : Fields Value}
    {error : Error} (failed : dispatcher.select data = .error error) : error.IsFault := by
  unfold select at failed
  split at failed
  · split at failed
    · cases failed
      trivial
    · split at failed
      · cases failed
        trivial
      · split at failed
        · cases failed
        · cases failed
          trivial
  · split at failed
    · cases failed
    · cases failed
      trivial

namespace Decode

variable {ε ζ α β : Type}

/-! ## Computations -/

/-- All errors of a computation are such as are allowed. -/
def FailsWith (allowed : ε → Prop) (action : Run ε α) : Prop :=
  ∀ names error after, action.run names = (.error error, after) → allowed error

namespace FailsWith

variable {allowed : ε → Prop}

theorem pure (value : α) : FailsWith allowed (Pure.pure value : Run ε α) := by
  intro names error after ran
  cases ran

theorem throw {error : ε} (permitted : allowed error) :
    FailsWith allowed (MonadExcept.throw error : Run ε α) := by
  intro names other after ran
  cases ran
  exact permitted

theorem lift (action : StateM NameTable α) : FailsWith allowed (liftM action : Run ε α) := by
  intro names error after ran
  cases ran

theorem except {result : Except ε α} (each : ∀ error, result = .error error → allowed error) :
    FailsWith allowed (liftM result : Run ε α) := by
  intro names error after ran
  rw [run_except] at ran
  cases ran
  exact each error rfl

theorem bind {first : Run ε α} {next : α → Run ε β} (earlier : FailsWith allowed first)
    (later : ∀ value names after, first.run names = (.ok value, after) →
      FailsWith allowed (next value)) : FailsWith allowed (first >>= next) := by
  intro names error after ran
  rw [run_bind] at ran
  rcases outcome : first.run names with ⟨_ | value, between⟩
  · rw [outcome] at ran
    cases ran
    exact earlier names _ _ outcome
  · rw [outcome] at ran
    exact later value names between outcome _ _ _ ran

theorem adapt {permitted : ζ → Prop} {action : Run ε α} (inner : FailsWith allowed action)
    {f : ε → ζ} (each : ∀ error, allowed error → permitted (f error)) :
    FailsWith permitted (ExceptT.adapt f action) := by
  intro names error after ran
  rw [run_adapt] at ran
  rcases outcome : action.run names with ⟨cause | value, between⟩
  · rw [outcome] at ran
    cases ran
    exact each cause (inner names cause _ outcome)
  · rw [outcome] at ran
    cases ran

theorem foldlM {step : β → α → Run ε β} {items : List α}
    (each : ∀ item ∈ items, ∀ sofar, FailsWith allowed (step sofar item)) (sofar : β) :
    FailsWith allowed (items.foldlM step sofar) := by
  induction items generalizing sofar with
  | nil => exact .pure sofar
  | cons item rest ih =>
    rw [List.foldlM_cons]
    exact .bind (each item List.mem_cons_self sofar) fun next _ _ _ =>
      ih (fun other member => each other (List.mem_cons_of_mem _ member)) next

end FailsWith

/-! ## Filling -/

variable {registry : Registry} {cast : Cast}

theorem coerce_fails {name : String} {type : TypeExpr} {caster : Caster} {value : Value}
    (casts : value.isNull = false → FailsWith Refusal.IsFault (cast caster value)) :
    FailsWith Error.IsFault (coerce registry cast name type caster value) := by
  unfold coerce
  split
  · exact .pure value
  · rename_i casted
    have notNull : value.isNull = false := by
      cases null : value.isNull with
      | false => rfl
      | true => simp [null] at casted
    exact .adapt (casts notNull) fun refusal fault => fault.toError _

/-- Whatever stopped filling is a fault. -/
def Stopped.IsFault (stopped : Stopped) : Prop :=
  stopped.error.IsFault

theorem assignDeclared_fails {params : List Property} {declared : Fields Value}
    (each : ∀ param ∈ params, ∀ entry ∈ declared,
      FailsWith Error.IsFault (coerce registry cast param.name param.type param.caster entry.2))
    (assigned : Fields Value) :
    FailsWith Stopped.IsFault (assignDeclared registry cast params declared assigned) := by
  induction params generalizing declared assigned with
  | nil => exact .pure assigned
  | cons param rest ih =>
    have later : ∀ other ∈ rest, ∀ entry ∈ declared, FailsWith Error.IsFault
        (coerce registry cast other.name other.type other.caster entry.2) := fun other member =>
      each other (List.mem_cons_of_mem _ member)
    unfold assignDeclared
    split
    · exact ih later assigned
    · rename_i value found
      have own := each param List.mem_cons_self _ (Fields.mem_of_get? found)
      refine .bind (.adapt own fun error fault => fault.under _) fun coerced _ _ _ => ?_
      exact ih (fun other member entry kept =>
        later other member entry (List.mem_of_mem_filter kept)) _

theorem assignExtra_fails {type : String} {catchAll : CatchAll} {entries : List (String × Value)}
    (each : ∀ entry ∈ entries, FailsWith Error.IsFault
      (coerce registry cast entry.1 catchAll.type catchAll.caster entry.2))
    (assigned : Fields Value) :
    FailsWith Stopped.IsFault (assignExtra registry cast type catchAll entries assigned) := by
  induction entries generalizing assigned with
  | nil => exact .pure assigned
  | cons entry rest ih =>
    unfold assignExtra
    refine .bind (.lift _) fun result names after ran => ?_
    cases result with
    | ok value => exact ih (fun other member => each other (List.mem_cons_of_mem _ member)) _
    | error error =>
      have fault := each entry List.mem_cons_self names error after (run_attempt_ok.mp ran)
      exact .bind (.lift _) fun later _ _ _ => .throw (fault.under _)

variable {holds : Value → Prop}

theorem invoke_fails {signature : Signature}
    (fillable : Fillable registry cast holds (FailsWith Error.IsFault) signature)
    {arguments : Arguments} (hold : arguments.Hold holds) (type : String)
    (assigned : Fields Value) :
    FailsWith Stopped.IsFault (invoke registry cast type signature arguments assigned) := by
  unfold invoke
  split
  · rename_i error failed
    exact .throw (Signature.bind_fails failed)
  · rename_i bound binding
    have binds := Signature.bind_binds fillable.params fillable.defaults hold binding
    refine .bind (assignDeclared_fails (fun param member entry held =>
      fillable.declared param member entry.2 (binds.values entry held)) assigned)
      fun sofar _ _ _ => ?_
    split
    · rename_i way takes
      exact assignExtra_fails (fun entry held =>
        fillable.extra way takes entry.1 entry.2 (binds.extra.values entry held)) sofar
    · exact .pure sofar

section

variable
  (each : ∀ name composite, Fields.get? registry.composites name = some composite →
    Fillable registry cast holds (FailsWith Error.IsFault) composite.signature)

include each

/-- An initializer all of whose leaves are within reach fails with faults only. -/
theorem runInitializer_fails {depth : Nat} {name : String} {composite : Composite}
    (present : Fields.get? registry.composites name = some composite) {found : List Signature}
    (reached : leaves registry depth composite.initializer = some found) {arguments : Arguments}
    (hold : arguments.Hold holds) (type : String) (assigned : Fields Value) :
    FailsWith Stopped.IsFault
      (runInitializer registry cast depth type composite.initializer arguments assigned) := by
  generalize shape : composite.initializer = initializer at reached
  induction depth, type, initializer, arguments, assigned using runInitializer.induct
    generalizing name composite found with
  | case1 depth type signature arguments assigned =>
    have fillable := each name composite present
    rw [Composite.signature_of_direct shape] at fillable
    rw [runInitializer_direct]
    exact invoke_fails fillable hold type assigned
  | case2 type signature parents arguments assigned => cases reached
  | case3 depth type signature parents arguments assigned error failed =>
    rw [runInitializer, failed]
    exact .throw (Signature.bind_fails failed)
  | case4 depth type signature parents arguments assigned bound binding ih =>
    have fillable := each name composite present
    rw [Composite.signature_of_combined shape] at fillable
    have binds := Signature.bind_binds fillable.params fillable.defaults hold binding
    rw [leaves_combined, Option.map_eq_some_iff] at reached
    obtain ⟨all, parentsReached, -⟩ := reached
    rw [runInitializer, binding]
    -- No parent is missing, as its leaves are among those that are reached.
    refine .foldlM (fun parent member sofar => ?_) assigned
    obtain ⟨above, own, abovePresent, ownReached⟩ := parentLeaves_each parentsReached member
    rw [Registry.composite, Registry.found_ok.mpr abovePresent]
    exact ih sofar parent above abovePresent (handOver_hold binds) rfl ownReached

theorem construct_fails (reached : registry.Reached) {name : String} {composite : Composite}
    (present : Fields.get? registry.composites name = some composite) {arguments : Arguments}
    (hold : arguments.Hold holds) :
    FailsWith Error.IsFault (construct registry cast composite arguments) := by
  obtain ⟨found, leaves⟩ := reached name composite present
  have filling := runInitializer_fails each present leaves hold composite.name []
  exact .bind (.adapt filling fun stopped fault => fault.withinType composite.name)
    fun attributes _ _ _ => .pure _

theorem fromEntries_fails (reached : registry.Reached) {name : String} {composite : Composite}
    (present : Fields.get? registry.composites name = some composite) {entries : Fields Value}
    (hold : ∀ entry ∈ entries, holds entry.2) :
    FailsWith Error.IsFault (fromEntries registry cast composite entries) := by
  refine .bind (.lift _) fun keyword names after read => ?_
  rw [run_lift, outcome_eq_iff] at read
  obtain ⟨same, -⟩ := read
  cases same
  exact construct_fails each reached present (keywords_hold hold)

end

end Decode

end TypedSchema
