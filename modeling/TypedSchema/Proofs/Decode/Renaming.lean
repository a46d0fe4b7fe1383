import TypedSchema.Proofs.Decode.SteadyCasts

/-!
Decoding by a type under another name. The name of a type shows in the objects that are made, in
errors, and in which special names its own keys are added to. A type with the table of another one
therefore takes the same data and gives its objects the same attributes.
-/

namespace TypedSchema

/-! ## Signatures -/

namespace Signature

theorem sortKeywords_renamed (signature : Signature) (owner : String) (keywords : Fields Value)
    (given extra : Fields Value) :
    (sortKeywords { signature with owner } keywords given extra).toOption =
      (signature.sortKeywords keywords given extra).toOption := by
  induction keywords generalizing given extra with
  | nil => rfl
  | cons entry rest ih =>
    have params : ({ signature with owner } : Signature).param? = signature.param? := rfl
    have accepts : ({ signature with owner } : Signature).acceptsExtra = signature.acceptsExtra :=
      rfl
    simp only [sortKeywords, params, accepts]
    split
    · split
      · rfl
      · exact ih _ _
    · split
      · exact ih _ _
      · rfl

/-- Another owner binds alike. -/
theorem bind_renamed (signature : Signature) (owner : String) (arguments : Arguments) :
    (bind { signature with owner } arguments).toOption = (signature.bind arguments).toOption := by
  rw [bind_eq, bind_eq]
  split
  · rfl
  · refine Outcomes.toOption_bind (sortKeywords_renamed signature owner _ _ _) fun ⟨given, extra⟩ => ?_
    dsimp only
    -- Only the error for missing arguments has the owner.
    rcases fill signature.params given with ⟨filled, _ | ⟨first, rest⟩⟩
    · rfl
    · rfl

end Signature

namespace Decode

variable {ε ζ η θ α β : Type}

/-! ## Matching computations -/

/-- Computations that give the same wherever they do not fail, and they fail alike. What they leave
are the same special names. -/
structure Matches (action : Run ε α) (other : Run ζ α) : Prop where
  results : ∀ names, (action.run names).1.toOption = (other.run names).1.toOption
  tables : ∀ names, (action.run names).2 = (other.run names).2

namespace Matches

theorem refl (action : Run ε α) : Matches action action :=
  ⟨fun _ => rfl, fun _ => rfl⟩

theorem throw (error : ε) (cause : ζ) :
    Matches (MonadExcept.throw error : Run ε α) (MonadExcept.throw cause : Run ζ α) :=
  ⟨fun _ => rfl, fun _ => rfl⟩

theorem bind {first : Run ε α} {second : Run ζ α} {next : α → Run ε β} {further : α → Run ζ β}
    (earlier : Matches first second) (later : ∀ value, Matches (next value) (further value)) :
    Matches (first >>= next) (second >>= further) := by
  constructor
  · intro names
    rcases Outcomes.toOption_eq (earlier.results names) with ⟨error, cause, one, two⟩ | ⟨value, one, two⟩
    · rw [run_bind_of_error one, run_bind_of_error two]
      rfl
    · rw [run_bind_of_ok one, run_bind_of_ok two, earlier.tables names]
      exact (later value).results _
  · intro names
    rcases Outcomes.toOption_eq (earlier.results names) with ⟨error, cause, one, two⟩ | ⟨value, one, two⟩
    · rw [run_bind_of_error one, run_bind_of_error two]
      exact earlier.tables names
    · rw [run_bind_of_ok one, run_bind_of_ok two, earlier.tables names]
      exact (later value).tables _

end Matches

/-! ## Filling -/

variable {registry : Registry} {cast : Cast}

/-- The type counts for the place of an error only. -/
theorem assignExtra_matches (type other : String) (catchAll : CatchAll)
    (entries : List (String × Value)) (assigned : Fields Value) :
    Matches (assignExtra registry cast type catchAll entries assigned)
      (assignExtra registry cast other catchAll entries assigned) := by
  induction entries generalizing assigned with
  | nil => exact .refl _
  | cons entry rest ih =>
    obtain ⟨name, value⟩ := entry
    constructor
    · intro names
      rw [run_assignExtra_cons, run_assignExtra_cons]
      rcases (coerce registry cast name catchAll.type catchAll.caster value).run names with
        ⟨_ | value, after⟩
      · rfl
      · exact (ih _).results after
    · intro names
      rw [run_assignExtra_cons, run_assignExtra_cons]
      rcases (coerce registry cast name catchAll.type catchAll.caster value).run names with
        ⟨_ | value, after⟩
      · rfl
      · exact (ih _).tables after

theorem invoke_matches (type other owner : String) (signature : Signature) (arguments : Arguments)
    (assigned : Fields Value) :
    Matches (invoke registry cast type { signature with owner } arguments assigned)
      (invoke registry cast other signature arguments assigned) := by
  simp only [invoke]
  rcases Outcomes.toOption_eq (signature.bind_renamed owner arguments) with
    ⟨error, cause, renamed, own⟩ | ⟨bound, renamed, own⟩
  · rw [renamed, own]
    exact .throw _ _
  · rw [renamed, own]
    refine .bind (.refl _) fun sofar => ?_
    cases signature.catchAll with
    | none => exact .refl _
    | some catchAll => exact assignExtra_matches type other catchAll bound.extra sofar

theorem runInitializer_matches (depth : Nat) (type other owner : String)
    (initializer : Initializer) (arguments : Arguments) (assigned : Fields Value) :
    Matches
      (runInitializer registry cast depth type (initializer.renamed owner) arguments assigned)
      (runInitializer registry cast depth other initializer arguments assigned) := by
  cases initializer with
  | direct signature =>
    simp only [Initializer.renamed, runInitializer]
    exact invoke_matches type other owner signature arguments assigned
  | combined signature parents =>
    cases depth with
    | zero => exact .throw _ _
    | succ depth =>
      simp only [Initializer.renamed, runInitializer]
      rcases Outcomes.toOption_eq (signature.bind_renamed owner arguments) with
        ⟨error, cause, renamed, own⟩ | ⟨bound, renamed, own⟩
      · rw [renamed, own]
        exact .throw _ _
      · -- What was bound is handed to the same parents.
        rw [renamed, own]
        exact .refl _

/-! ## Objects from entries -/

/-- The attributes of an object that is made of the entries of a map. -/
def fillFrom (registry : Registry) (cast : Cast) (composite : Composite)
    (entries : Fields Value) : Filling (Fields Value) :=
  runInitializer registry cast (generations registry) composite.name composite.initializer
    { keyword := Fields.ofList (composite.internalEntries entries) } []

/-- An object is filled once the keys of its entries have been read. -/
theorem fromEntries_fills (registry : Registry) (cast : Cast) (composite : Composite)
    (entries : Fields Value) {names : NameTable} (sound : names.Sound) :
    ((fromEntries registry cast composite entries).run names).1.toOption =
        (((fillFrom registry cast composite entries).run
          (keywords composite entries names).2).1.toOption).map (Value.object composite.name) ∧
      ((fromEntries registry cast composite entries).run names).2 =
        ((fillFrom registry cast composite entries).run (keywords composite entries names).2).2 := by
  have reads : ((liftM (keywords composite entries) : Decode (Fields Value)).run names).1 =
      .ok (composite.internalEntries entries) := by
    rw [run_lift, keywords_fst composite entries sound]
  rw [fromEntries, run_bind_of_ok reads, run_lift]
  simp only [construct, run_bind, run_adapt, fillFrom]
  rcases (runInitializer registry cast (generations registry) composite.name
    composite.initializer { keyword := Fields.ofList (composite.internalEntries entries) } []).run
      (keywords composite entries names).2 with ⟨_ | attributes, after⟩
  · exact ⟨rfl, rfl⟩
  · exact ⟨rfl, rfl⟩

theorem fillFrom_steady {allowed : String → Prop} (wellFormed : registry.WellFormed)
    (steady : SteadyCast registry NameTable.Sound allowed cast) {name : String}
    {composite : Composite} (present : Fields.get? registry.composites name = some composite)
    {entries : Fields Value}
    (settled : (Value.map entries).Settled registry NameTable.Sound allowed) :
    Steady NameTable.Sound allowed Stopped.unplaced (fillFrom registry cast composite entries) := by
  have hold : Arguments.Hold (Value.Settled registry NameTable.Sound allowed)
      { keyword := Fields.ofList (composite.internalEntries entries) } := by
    refine ⟨nofun, fun entry member => ?_⟩
    have listed := (Fields.mem_insertAll member).resolve_right List.not_mem_nil
    obtain ⟨key, held, -⟩ := Composite.mem_internalEntries listed
    exact settled.inner (.entry held .self)
  exact runInitializer_steady (.sound_tables _)
    (fun name composite => fillable_settled wellFormed steady) _ present hold _ _

end Decode

/-! ## Types with the table of another one -/

/-- A type that is another one under a name of its own. -/
structure Composite.Renames (composite target : Composite) : Prop where
  properties : composite.properties = target.properties
  catchAll : composite.catchAll = target.catchAll
  initializer : composite.initializer = target.initializer.renamed composite.name
  special : ∀ name, name ∈ composite.special ↔ name ∈ target.special

namespace Composite.Renames

variable {composite target other : Composite}

theorem trans (first : composite.Renames target) (second : target.Renames other) :
    composite.Renames other where
  properties := first.properties.trans second.properties
  catchAll := first.catchAll.trans second.catchAll
  initializer := by
    rw [first.initializer, second.initializer]
    cases other.initializer with
    | direct => rfl
    | combined => rfl
  special := fun name => (first.special name).trans (second.special name)

variable (renames : composite.Renames target)

include renames

theorem declaring? (key : String) : composite.declaring? key = target.declaring? key := by
  rw [Composite.declaring?, Composite.declaring?, renames.properties]

theorem internalEntries (entries : Fields Value) :
    composite.internalEntries entries = target.internalEntries entries := by
  simp only [Composite.internalEntries, Composite.attributeOf, renames.declaring?]

end Composite.Renames

/-- Two outcomes that are objects with the same attributes, or none of them is an object. -/
inductive SameAttributes (name target : String) : Except Error Value → Except Error Value → Prop where
  | accepted (attributes : Fields Value) :
    SameAttributes name target (.ok (.object name attributes)) (.ok (.object target attributes))
  | rejected (error cause : Error) : SameAttributes name target (.error error) (.error cause)

namespace Decode

variable {registry : Registry} {cast : Cast} {composite target : Composite}

theorem fillFrom_matches (renames : composite.Renames target) (entries : Fields Value) :
    Matches (fillFrom registry cast composite entries) (fillFrom registry cast target entries) := by
  rw [fillFrom, fillFrom, renames.initializer, renames.internalEntries]
  exact runInitializer_matches _ _ _ _ _ _ _

section

variable (wellFormed : registry.WellFormed)
  (steady : SteadyCast registry NameTable.Sound (fun _ => True) cast) {name : String}
  (present : Fields.get? registry.composites name = some target)
  (renames : composite.Renames target) {entries : Fields Value}
  (objectless : (Value.map entries).Objectless)

include wellFormed steady present renames objectless

/-- Filling gives the same attributes under both names, whatever was decoded before. -/
theorem fillFrom_renamed {first second : NameTable} (here : first.Sound) (there : second.Sound) :
    ((fillFrom registry cast composite entries).run first).1.toOption =
      ((fillFrom registry cast target entries).run second).1.toOption := by
  have settled : (Value.map entries).Settled registry NameTable.Sound fun _ => True :=
    objectless.settled fun _ _ => trivial
  rw [(fillFrom_matches renames entries).results first]
  exact Outcomes.toOption_of_mapError
    ((fillFrom_steady wellFormed steady present settled).same first second here there)

/-- The entries of a map make objects with the same attributes, or none under either name. -/
theorem fromEntries_renamed {first second : NameTable} (here : first.Sound) (there : second.Sound) :
    SameAttributes composite.name target.name
      ((fromEntries registry cast composite entries).run first).1
      ((fromEntries registry cast target entries).run second).1 := by
  obtain ⟨own, -⟩ := fromEntries_fills registry cast composite entries here
  obtain ⟨theirs, -⟩ := fromEntries_fills registry cast target entries there
  rw [fillFrom_renamed wellFormed steady present renames objectless
    (here.grow (keywords_grows composite entries first))
    (there.grow (keywords_grows target entries second))] at own
  cases filled : ((fillFrom registry cast target entries).run
      (keywords target entries second).2).1.toOption with
  | none =>
    rw [filled, Option.map_none, Outcomes.toOption_none] at own theirs
    obtain ⟨error, refused⟩ := own
    obtain ⟨cause, alsoRefused⟩ := theirs
    rw [refused, alsoRefused]
    exact .rejected error cause
  | some attributes =>
    rw [filled, Option.map_some, Outcomes.toOption_iff] at own theirs
    rw [own, theirs]
    exact .accepted attributes

/-- Each name has its own keys among its special names. Otherwise the same ones are added. -/
theorem fromEntries_renamed_names {names : NameTable} (sound : names.Sound) (type special : String) :
    (type ≠ composite.name →
      special ∈ ((fromEntries registry cast composite entries).run names).2.of type →
        special ∈ ((fromEntries registry cast target entries).run names).2.of type) ∧
    (type ≠ target.name →
      special ∈ ((fromEntries registry cast target entries).run names).2.of type →
        special ∈ ((fromEntries registry cast composite entries).run names).2.of type) := by
  have settled : (Value.map entries).Settled registry NameTable.Sound fun _ => True :=
    objectless.settled fun _ _ => trivial
  have filling := fillFrom_steady wellFormed steady present settled
  rw [(fromEntries_fills registry cast composite entries sound).2,
    (fromEntries_fills registry cast target entries sound).2,
    (fillFrom_matches renames entries).tables]
  -- The keys of the entries are added to the names of one type only, and filling adds the same.
  have onward : ∀ first second : Composite, type ≠ first.name →
      special ∈ ((fillFrom registry cast target entries).run
        (keywords first entries names).2).2.of type →
      special ∈ ((fillFrom registry cast target entries).run
        (keywords second entries names).2).2.of type := by
    intro first second other member
    have early := keywords_grows first entries names
    have late := keywords_grows second entries names
    rcases filling.carried _ _ (sound.grow early) (sound.grow late) type special member with
      read | added
    · rcases mem_keywords.mp read with held | ⟨same, -⟩
      · exact (filling.grows _ (sound.grow late)).kept type special (late.kept type special held)
      · exact absurd same other
    · exact added
  exact ⟨onward composite target, onward target composite⟩

end

end Decode

end TypedSchema
