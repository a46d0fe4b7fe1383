import TypedSchema.Proofs.Decode.Keys

/-!
Every computation on data only adds special names, whether it succeeds or not. The state of a
registry is then sound after any history of them.
-/

namespace TypedSchema

namespace Decode

/-! ## Filling -/

/-- A cast all of whose runs only add special names. -/
def GrowingCast (cast : Cast) : Prop :=
  ∀ caster value, Growing (cast caster value)

section

variable {registry : Registry} {cast : Cast}

theorem coerce_growing (growing : GrowingCast cast) (name : String) (type : TypeExpr)
    (caster : Caster) (value : Value) : Growing (coerce registry cast name type caster value) := by
  unfold coerce
  split
  · exact .pure value
  · exact .adapt (growing caster value) _

theorem assignDeclared_growing (growing : GrowingCast cast) (params : List Property)
    (declared assigned : Fields Value) :
    Growing (assignDeclared registry cast params declared assigned) := by
  induction params generalizing declared assigned with
  | nil => exact .pure assigned
  | cons param rest ih =>
    unfold assignDeclared
    split
    · exact ih declared assigned
    · exact .bind (.adapt (coerce_growing growing ..) _) fun value => ih _ _

theorem assignExtra_growing (growing : GrowingCast cast) (type : String) (catchAll : CatchAll)
    (entries : List (String × Value)) (assigned : Fields Value) :
    Growing (assignExtra registry cast type catchAll entries assigned) := by
  induction entries generalizing assigned with
  | nil => exact .pure assigned
  | cons entry rest ih =>
    unfold assignExtra
    refine .bind (Growing.run (coerce_growing growing ..)) fun result => ?_
    cases result with
    | ok value => exact ih _
    | error error => exact .bind .get fun names => .throw _

theorem invoke_growing (growing : GrowingCast cast) (type : String) (signature : Signature)
    (arguments : Arguments) (assigned : Fields Value) :
    Growing (invoke registry cast type signature arguments assigned) := by
  unfold invoke
  split
  · exact .throw _
  · refine .bind (assignDeclared_growing growing ..) fun assigned => ?_
    split
    · exact assignExtra_growing growing ..
    · exact .pure assigned

theorem runInitializer_growing (growing : GrowingCast cast) (depth : Nat) (type : String)
    (initializer : Initializer) (arguments : Arguments) (assigned : Fields Value) :
    Growing (runInitializer registry cast depth type initializer arguments assigned) := by
  fun_induction runInitializer registry cast depth type initializer arguments assigned with
  | case1 => exact invoke_growing growing ..
  | case2 => exact .throw _
  | case3 => exact .throw _
  | case4 depth type signature parents arguments assigned bound binding ih =>
    refine .foldlM (fun sofar parent => ?_) parents assigned
    split
    · exact .throw _
    · exact ih ..

theorem construct_growing (growing : GrowingCast cast) (composite : Composite)
    (arguments : Arguments) : Growing (construct registry cast composite arguments) :=
  .bind (.adapt (runInitializer_growing growing ..) _) fun _ => .pure _

theorem fromEntries_growing (growing : GrowingCast cast) (composite : Composite)
    (entries : Fields Value) : Growing (fromEntries registry cast composite entries) :=
  .bind (.lift (keywords_grows composite entries)) fun _ => construct_growing growing ..

/-! ## Casting -/

theorem castItems_growing (growing : GrowingCast cast) (caster : Caster) (index : Nat)
    (items : List Value) : Growing (castItems cast caster index items) := by
  induction items generalizing index with
  | nil => exact .pure []
  | cons item rest ih =>
    exact .bind (.adapt (growing caster item) _) fun item => .bind (ih _) fun items => .pure _

theorem discriminate_growing (growing : GrowingCast cast) (dispatcher : Dispatcher Caster)
    (data : Fields Value) : Growing (discriminate cast dispatcher data) :=
  .bind (.except _) fun branch => .adapt (growing branch.caster (.map data)) _

theorem plainEntries_growing (type : String) (attributes : Fields Value) (names : NameTable) :
    NameTable.Grows names (plainEntries registry type attributes names).2 :=
  .refl names

theorem castComposite_growing (growing : GrowingCast cast) (name : String) (value : Value) :
    Growing (castComposite registry cast name value) := by
  unfold castComposite
  split
  · split
    · exact .pure _
    · refine .adapt (.bind (.except _) fun composite => ?_) _
      exact .bind (.lift (plainEntries_growing _ _)) fun entries => fromEntries_growing growing ..
  · exact .adapt (.bind (.except _) fun composite => fromEntries_growing growing ..) _
  · exact .throw _

theorem castLayer_growing (growing : GrowingCast cast) (caster : Caster) (value : Value) :
    Growing (castLayer registry cast caster value) := by
  unfold castLayer
  split
  · exact .pure value
  · split
    · exact .pure _
    · exact .throw _
  · split
    · exact .bind (.adapt (castItems_growing growing ..) _) fun items => .pure _
    · exact .throw _
  · split
    · exact .throw _
    · split
      · exact .pure _
      · exact .throw _
  · exact castComposite_growing growing ..
  · split
    · split
      · exact .pure _
      · exact .throw _
    · exact .adapt (discriminate_growing growing ..) _
    · exact .throw _

theorem castWith_growing (registry : Registry) (layers : Nat) :
    GrowingCast (castWith registry layers) := by
  induction layers with
  | zero => exact fun caster value => .throw _
  | succ layers ih => exact fun caster value => castLayer_growing ih caster value

end

end Decode

namespace Registry

open Decode NameTable

variable (registry : Registry)

theorem cast_growing (caster : Caster) (value : Value) : Growing (registry.cast caster value) :=
  .adapt (castWith_growing registry _ caster value) _

theorem instantiate_growing (name : String) (value : Value) :
    Growing (registry.instantiate name value) :=
  .bind (.except _) fun entry => registry.cast_growing entry.caster value

theorem discriminate_growing (name : String) (value : Value) :
    Growing (registry.discriminate name value) := by
  refine .bind (.except _) fun entry => ?_
  split
  · exact Decode.discriminate_growing (castWith_growing registry _) _ _
  · exact .throw _
  · exact .throw _

theorem construct_growing (name : String) (arguments : Arguments) :
    Growing (registry.construct name arguments) :=
  .bind (.except _) fun _ => Decode.construct_growing (castWith_growing registry _) ..

theorem convert_growing (composite : Composite) (value : Value) :
    Growing (registry.convert composite value) := by
  unfold convert
  split
  · exact fromEntries_growing (castWith_growing registry _) ..
  · split
    · exact .pure _
    · exact .bind (.lift (plainEntries_growing _ _)) fun entries =>
        fromEntries_growing (castWith_growing registry _) ..
  · exact .throw _

theorem decode_growing (name : String) (value : Value) : Growing (registry.decode name value) :=
  .bind (.except _) fun composite => registry.convert_growing composite value

/-! ## Histories -/

/-- The special names that a registry can have after any number of computations on data. -/
inductive Reachable : NameTable → Prop where
  | start : Reachable registry.names
  | decoded {names : NameTable} (name : String) (value : Value) (reached : Reachable names) :
    Reachable ((registry.decode name value).run names).2
  | instantiated {names : NameTable} (name : String) (value : Value) (reached : Reachable names) :
    Reachable ((registry.instantiate name value).run names).2
  | discriminated {names : NameTable} (name : String) (value : Value) (reached : Reachable names) :
    Reachable ((registry.discriminate name value).run names).2
  | constructed {names : NameTable} (name : String) (arguments : Arguments)
    (reached : Reachable names) : Reachable ((registry.construct name arguments).run names).2

variable {registry}

theorem Reachable.grows {names : NameTable} (reached : registry.Reachable names) :
    Grows registry.names names := by
  induction reached with
  | start => exact .refl _
  | decoded name value _ ih =>
    exact ih.trans ((registry.decode_growing name value).grows _)
  | instantiated name value _ ih =>
    exact ih.trans ((registry.instantiate_growing name value).grows _)
  | discriminated name value _ ih =>
    exact ih.trans ((registry.discriminate_growing name value).grows _)
  | constructed name arguments _ ih =>
    exact ih.trans ((registry.construct_growing name arguments).grows _)

end Registry

end TypedSchema
