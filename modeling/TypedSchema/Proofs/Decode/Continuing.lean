import TypedSchema.Proofs.Decode.Faults
import TypedSchema.Proofs.Decode.Filling

/-!
More layers change nothing. With a cast that goes on where another one is cut off, every computation
on data goes on where it was cut off, and runs as before wherever it was not. So one layer more goes
on from any number of layers, and once these are enough all further layers do the same.
-/

namespace TypedSchema

namespace Decode

variable {ε ζ α β : Type}

/-- Wherever a run does not end in an error that is no fault, the other computation runs in the same
way. -/
structure Continues (fault : ε → Prop) (action other : Run ε α) : Prop where
  runs : ∀ names, (∃ error after, action.run names = (.error error, after) ∧ ¬fault error) ∨
    action.run names = other.run names

namespace Continues

variable {fault : ε → Prop}

theorem refl (action : Run ε α) : Continues fault action action :=
  ⟨fun _ => .inr rfl⟩

theorem trans {first second third : Run ε α} (earlier : Continues fault first second)
    (later : Continues fault second third) : Continues fault first third := by
  constructor
  intro names
  rcases earlier.runs names with cut | same
  · exact .inl cut
  · rw [same]
    exact later.runs names

theorem of_cut {error : ε} (cut : ¬fault error) (other : Run ε α) :
    Continues fault (throw error) other :=
  ⟨fun names => .inl ⟨error, names, rfl, cut⟩⟩

theorem bind {first other : Run ε α} {next further : α → Run ε β}
    (earlier : Continues fault first other)
    (later : ∀ value, Continues fault (next value) (further value)) :
    Continues fault (first >>= next) (other >>= further) := by
  constructor
  intro names
  rcases earlier.runs names with ⟨error, after, ran, cut⟩ | same
  · refine .inl ⟨error, after, ?_, cut⟩
    rw [run_bind, ran]
  · rw [run_bind, run_bind, ← same]
    rcases first.run names with ⟨_ | value, between⟩
    · exact .inr rfl
    · exact (later value).runs between

theorem adapt {permitted : ζ → Prop} {action other : Run ε α}
    (inner : Continues fault action other) {f : ε → ζ}
    (each : ∀ error, permitted (f error) → fault error) :
    Continues permitted (ExceptT.adapt f action) (ExceptT.adapt f other) := by
  constructor
  intro names
  rcases inner.runs names with ⟨error, after, ran, cut⟩ | same
  · refine .inl ⟨f error, after, ?_, mt (each error) cut⟩
    rw [run_adapt, ran]
    rfl
  · rw [run_adapt, run_adapt, same]
    exact .inr rfl

theorem foldlM {step further : β → α → Run ε β}
    (each : ∀ sofar item, Continues fault (step sofar item) (further sofar item)) (items : List α)
    (sofar : β) : Continues fault (items.foldlM step sofar) (items.foldlM further sofar) := by
  induction items generalizing sofar with
  | nil => exact .refl _
  | cons item rest ih =>
    rw [List.foldlM_cons, List.foldlM_cons]
    exact .bind (each sofar item) ih

/-- A computation that fails with faults only is never cut off. -/
theorem eq_of_fails {action other : Run ε α} (continues : Continues fault action other)
    (fails : FailsWith fault action) : action = other := by
  funext names
  rcases continues.runs names with ⟨error, after, ran, cut⟩ | same
  · exact absurd (fails names error after ran) cut
  · exact same

end Continues

/-! ## Filling -/

/-- A cast that goes on wherever another one is cut off. -/
def ContinuesCast (cast other : Cast) : Prop :=
  ∀ caster value, Continues Refusal.IsFault (cast caster value) (other caster value)

section

variable {registry : Registry} {cast other : Cast} (continues : ContinuesCast cast other)

include continues

theorem coerce_continues (name : String) (type : TypeExpr) (caster : Caster) (value : Value) :
    Continues Error.IsFault (coerce registry cast name type caster value)
      (coerce registry other name type caster value) := by
  unfold coerce
  split
  · exact .refl _
  · exact .adapt (continues caster value) fun _ => Refusal.IsFault.of_toError

theorem assignDeclared_continues (params : List Property) (declared assigned : Fields Value) :
    Continues Stopped.IsFault (assignDeclared registry cast params declared assigned)
      (assignDeclared registry other params declared assigned) := by
  induction params generalizing declared assigned with
  | nil => exact .refl _
  | cons param rest ih =>
    unfold assignDeclared
    split
    · exact ih declared assigned
    · refine .bind (.adapt (coerce_continues continues ..) fun error fault => ?_) fun value =>
        ih _ _
      exact Error.IsFault.of_under fault

theorem assignExtra_continues (type : String) (catchAll : CatchAll)
    (entries : List (String × Value)) (assigned : Fields Value) :
    Continues Stopped.IsFault (assignExtra registry cast type catchAll entries assigned)
      (assignExtra registry other type catchAll entries assigned) := by
  induction entries generalizing assigned with
  | nil => exact .refl _
  | cons entry rest ih =>
    -- The error names the key by the special names after it, which are the same for both casts.
    have first :=
      @coerce_continues registry _ _ continues entry.1 catchAll.type catchAll.caster entry.2
    constructor
    intro names
    rw [run_assignExtra_cons, run_assignExtra_cons]
    rcases first.runs names with ⟨error, after, ran, cut⟩ | same
    · rw [ran]
      exact .inl ⟨_, after, rfl, fun fault => cut (Error.IsFault.of_under fault)⟩
    · rw [← same]
      split
      · exact (ih _).runs _
      · exact .inr rfl

theorem invoke_continues (type : String) (signature : Signature) (arguments : Arguments)
    (assigned : Fields Value) :
    Continues Stopped.IsFault (invoke registry cast type signature arguments assigned)
      (invoke registry other type signature arguments assigned) := by
  unfold invoke
  split
  · exact .refl _
  · refine .bind (assignDeclared_continues continues ..) fun assigned => ?_
    split
    · exact assignExtra_continues continues ..
    · exact .refl _

theorem runInitializer_continues (depth : Nat) (type : String) (initializer : Initializer)
    (arguments : Arguments) (assigned : Fields Value) :
    Continues Stopped.IsFault
      (runInitializer registry cast depth type initializer arguments assigned)
      (runInitializer registry other depth type initializer arguments assigned) := by
  induction depth, type, initializer, arguments, assigned using runInitializer.induct with
  | case1 depth type signature arguments assigned =>
    rw [runInitializer_direct, runInitializer_direct]
    exact invoke_continues continues ..
  | case2 => exact .refl _
  | case3 depth type signature parents arguments assigned error failed =>
    rw [runInitializer, runInitializer, failed]
    exact .refl _
  | case4 depth type signature parents arguments assigned bound binding ih =>
    rw [runInitializer, runInitializer, binding]
    refine .foldlM (fun sofar parent => ?_) parents assigned
    split
    · exact .refl _
    · exact ih ..

theorem construct_continues (composite : Composite) (arguments : Arguments) :
    Continues Error.IsFault (construct registry cast composite arguments)
      (construct registry other composite arguments) :=
  .bind (.adapt (runInitializer_continues continues ..) fun _ => Error.IsFault.of_withinType)
    fun _ => .refl _

theorem fromEntries_continues (composite : Composite) (entries : Fields Value) :
    Continues Error.IsFault (fromEntries registry cast composite entries)
      (fromEntries registry other composite entries) :=
  .bind (.refl _) fun _ => construct_continues continues ..

/-! ## Casting -/

theorem castItems_continues (caster : Caster) (index : Nat) (items : List Value) :
    Continues Error.IsFault (castItems cast caster index items)
      (castItems other caster index items) := by
  induction items generalizing index with
  | nil => exact .refl _
  | cons item rest ih =>
    refine .bind (.adapt (continues caster item) fun refusal fault => ?_) fun item =>
      .bind (ih _) fun items => .refl _
    exact .of_toError (Error.IsFault.of_under fault)

theorem discriminate_continues (dispatcher : Dispatcher Caster) (data : Fields Value) :
    Continues Error.IsFault (discriminate cast dispatcher data)
      (discriminate other dispatcher data) :=
  .bind (.refl _) fun branch =>
    .adapt (continues branch.caster (.map data)) fun _ => Refusal.IsFault.of_toError

theorem castComposite_continues (name : String) (value : Value) :
    Continues Refusal.IsFault (castComposite registry cast name value)
      (castComposite registry other name value) := by
  unfold castComposite
  split
  · split
    · exact .refl _
    · refine .adapt (.bind (.refl _) fun composite => ?_) fun _ => id
      exact .bind (.refl _) fun entries => fromEntries_continues continues ..
  · exact .adapt (.bind (.refl _) fun composite => fromEntries_continues continues ..) fun _ => id
  · exact .refl _

/-- A layer on top of a cast goes on wherever one on top of another is cut off. -/
theorem castLayer_continues :
    ContinuesCast (castLayer registry cast) (castLayer registry other) := by
  intro caster value
  cases caster with
  | list item =>
    cases value with
    | list items =>
      exact .bind (.adapt (castItems_continues continues ..) fun _ => id) fun items => .refl _
    | _ => exact .refl _
  | composite name => exact castComposite_continues continues ..
  | polymorph dispatcher =>
    cases value with
    | map data => exact .adapt (discriminate_continues continues ..) fun _ => id
    | _ => exact .refl _
  | _ => exact .refl _

end

/-- One layer more. -/
theorem castWith_succ_continues (registry : Registry) (layers : Nat) :
    ContinuesCast (castWith registry layers) (castWith registry (layers + 1)) := by
  induction layers with
  | zero =>
    -- A cast without layers is cut off at once, which is no fault.
    exact fun caster value => .of_cut id _
  | succ layers ih => exact castLayer_continues ih

theorem castWith_continues (registry : Registry) {layers more : Nat} (fewer : layers ≤ more) :
    ContinuesCast (castWith registry layers) (castWith registry more) := by
  induction fewer with
  | refl => exact fun caster value => .refl _
  | step _ ih => exact fun caster value => (ih caster value).trans (castWith_succ_continues ..)

/-! ## Generations -/

theorem foldlM_congr {step other : β → α → Run ε β} {items : List α}
    (each : ∀ item ∈ items, ∀ sofar, step sofar item = other sofar item) (sofar : β) :
    items.foldlM step sofar = items.foldlM other sofar := by
  induction items generalizing sofar with
  | nil => rfl
  | cons item rest ih =>
    rw [List.foldlM_cons, List.foldlM_cons, each item List.mem_cons_self]
    exact congrArg _ (funext fun next =>
      ih (fun other member => each other (List.mem_cons_of_mem item member)) next)

/-- More generations than there are above an initializer change nothing. -/
theorem runInitializer_deeper {registry : Registry} (cast : Cast) {depth more : Nat}
    (fewer : depth ≤ more) {initializer : Initializer} {found : List Signature}
    (reached : leaves registry depth initializer = some found) (type : String)
    (arguments : Arguments) (assigned : Fields Value) :
    runInitializer registry cast more type initializer arguments assigned =
      runInitializer registry cast depth type initializer arguments assigned := by
  induction depth, type, initializer, arguments, assigned using runInitializer.induct
    generalizing more found with
  | case1 depth type signature arguments assigned =>
    rw [runInitializer_direct, runInitializer_direct]
  | case2 type signature parents arguments assigned => cases reached
  | case3 depth type signature parents arguments assigned error failed =>
    obtain ⟨more, rfl⟩ := Nat.exists_eq_succ_of_ne_zero (Nat.ne_zero_of_lt fewer)
    rw [runInitializer, runInitializer, failed]
  | case4 depth type signature parents arguments assigned bound binding ih =>
    obtain ⟨more, rfl⟩ := Nat.exists_eq_succ_of_ne_zero (Nat.ne_zero_of_lt fewer)
    rw [leaves_combined, Option.map_eq_some_iff] at reached
    obtain ⟨all, parentsReached, -⟩ := reached
    rw [runInitializer, runInitializer, binding]
    -- The leaves of each parent are reached with one generation less.
    refine foldlM_congr (fun parent member sofar => ?_) assigned
    obtain ⟨above, own, present, ownReached⟩ := parentLeaves_each parentsReached member
    rw [Registry.composite, Registry.found_ok.mpr present]
    exact ih sofar parent above (Nat.le_of_succ_le_succ fewer) ownReached

end Decode

end TypedSchema
