import TypedSchema.Proofs.Registry.WellFormed

/-!
What is assigned last. The leaves of a type put its table together: under every name its property is
that of the last leaf that declares the name, and so the last assignment to an attribute is by the
declaration that the table has for it.
-/

namespace TypedSchema

namespace Decode

variable {registry : Registry} {cast : Cast}

/-! ## Leaves and tables -/

/-- The parameters of leaves under their names. -/
def leafParams (found : List Signature) : List (String × Property) :=
  found.flatMap fun leaf => leaf.params.map fun param => (param.name, param)

/-- The way of the last leaf that takes extras. -/
def lastCatchAll (found : List Signature) : Option CatchAll :=
  (found.filterMap Signature.catchAll).getLast?

theorem leafParams_append (first second : List Signature) :
    leafParams (first ++ second) = leafParams first ++ leafParams second :=
  List.flatMap_append

theorem leafParams_cons (leaf : Signature) (rest : List Signature) :
    leafParams (leaf :: rest) =
      (leaf.params.map fun param => (param.name, param)) ++ leafParams rest :=
  List.flatMap_cons

theorem lastCatchAll_append (first second : List Signature) :
    lastCatchAll (first ++ second) = (lastCatchAll second).or (lastCatchAll first) := by
  rw [lastCatchAll, List.filterMap_append, List.getLast?_append]
  rfl

theorem lastCatchAll_cons (leaf : Signature) (rest : List Signature) :
    lastCatchAll (leaf :: rest) = (lastCatchAll rest).or leaf.catchAll := by
  have single : lastCatchAll [leaf] = leaf.catchAll := by
    rw [lastCatchAll]
    cases found : leaf.catchAll with
    | none => rw [List.filterMap_cons_none found]; rfl
    | some catchAll => rw [List.filterMap_cons_some found]; rfl
  rw [← List.singleton_append, lastCatchAll_append, single]

/-- The leaves of a composite type declare what its table holds. -/
def Declares (found : List Signature) (composite : Composite) : Prop :=
  (∀ name, Fields.get? composite.properties name =
      Fields.get? (Fields.ofList (leafParams found)) name) ∧
    composite.catchAll = lastCatchAll found

theorem Declares.direct {composite : Composite} (own : composite.WellFormed registry)
    {signature : Signature} (direct : composite.initializer = .direct signature) :
    Declares [signature] composite := by
  have same := Composite.signature_of_direct direct
  constructor
  · intro name
    have keyed := own.params_keyed
    rw [same] at keyed
    rw [leafParams, List.flatMap_cons, List.flatMap_nil, List.append_nil, keyed,
      Fields.ofList_of_distinct own.distinct]
  · rw [lastCatchAll_cons, ← same, own.catchAll]
    rfl

theorem Declares.parents {depth : Nat}
    (each : ∀ parent composite found, Fields.get? registry.composites parent = some composite →
      leaves registry depth composite.initializer = some found → Declares found composite)
    (distinct : ∀ name composite, Fields.get? registry.composites name = some composite →
      Fields.Distinct composite.properties)
    {parents : List String} {composites : List Composite} {all : List (List Signature)}
    (found : List.Forall₂ (fun parent composite =>
      Fields.get? registry.composites parent = some composite) parents composites)
    (held : parentLeaves registry depth parents = some all) :
    (∀ name, Fields.get? (Fields.ofList (composites.flatMap Composite.properties)) name =
        Fields.get? (Fields.ofList (leafParams all.flatten)) name) ∧
      (composites.filterMap Composite.catchAll).getLast? = lastCatchAll all.flatten := by
  induction found generalizing all with
  | nil =>
    cases held
    exact ⟨fun name => rfl, rfl⟩
  | @cons parent composite rest remaining present _ ih =>
    obtain ⟨same, own, others, presentToo, ownLeaves, restHeld, rfl⟩ := parentLeaves_cons.mp held
    rw [present] at presentToo
    cases presentToo
    obtain ⟨properties, catchAll⟩ := each parent composite own present ownLeaves
    obtain ⟨restProperties, restCatchAll⟩ := ih restHeld
    constructor
    · intro name
      rw [List.flatMap_cons, List.flatten_cons, leafParams_append, Fields.get?_ofList_append,
        Fields.get?_ofList_append, restProperties, ← properties,
        Fields.ofList_of_distinct (distinct parent composite present)]
    · rw [List.flatten_cons, lastCatchAll_append, ← restCatchAll, ← catchAll]
      cases declared : composite.catchAll with
      | none => rw [List.filterMap_cons_none declared, Option.or_none]
      | some own =>
        rw [List.filterMap_cons_some declared, List.getLast?_cons]
        cases (remaining.filterMap Composite.catchAll).getLast? <;> rfl

/-- The table of every composite type is what its leaves declare, the last one counting. -/
theorem leaves_declare (wellFormed : registry.WellFormed) {depth : Nat} {name : String}
    {composite : Composite} (present : Fields.get? registry.composites name = some composite)
    {found : List Signature} (held : leaves registry depth composite.initializer = some found) :
    Declares found composite := by
  generalize shape : composite.initializer = initializer at held
  induction depth, initializer using leaves.induct generalizing name composite found with
  | case1 depth signature =>
    cases (leaves_direct depth signature).symm.trans held
    exact .direct (wellFormed.composites name composite present).2 shape
  | case2 signature parents => cases held
  | case3 depth signature parents ih =>
    rw [leaves_combined, Option.map_eq_some_iff] at held
    obtain ⟨all, parentsHeld, rfl⟩ := held
    obtain ⟨composites, composed, properties, catchAll⟩ :=
      (wellFormed.composites name composite present).2.merged signature parents shape
    have parts := Declares.parents
      (fun parent above found abovePresent held => ih above abovePresent rfl held)
      (fun name composite present => (wellFormed.composites name composite present).2.distinct)
      (Lists.mapM_eq_some.mp composed) parentsHeld
    constructor
    · intro name
      rw [properties, Composite.mergedProperties_eq, parts.1]
    · rw [catchAll, Composite.mergedCatchAll_eq, parts.2]

/-! ## The last assignment -/

/-- Assignments under the names of their attributes. -/
def keyed (steps : List Assignment) : List (String × Assignment) :=
  steps.map fun step => (step.name, step)

/-- The last assignment to an attribute. -/
def lastStep (steps : List Assignment) (name : String) : Option Assignment :=
  Fields.get? (Fields.ofList (keyed steps)) name

theorem lastStep_append (first second : List Assignment) (name : String) :
    lastStep (first ++ second) name = (lastStep second name).or (lastStep first name) := by
  rw [lastStep, keyed, List.map_append, Fields.get?_ofList_append]
  rfl

theorem lastStep_cons (step : Assignment) (rest : List Assignment) (name : String) :
    lastStep (step :: rest) name =
      (lastStep rest name).or (if name = step.name then some step else none) := by
  rw [lastStep, keyed, List.map_cons, Fields.get?_ofList_cons]
  rfl

theorem lastStep_eq_none_iff {steps : List Assignment} {name : String} :
    lastStep steps name = none ↔ name ∉ steps.map Assignment.name := by
  rw [lastStep, Fields.get?_eq_none_iff, Fields.mem_names_ofList]
  simp [Fields.names, keyed]

/-- The assignment of a bound value by a property. -/
def Property.step (property : Property) (bound : Bound) : Assignment where
  name := property.name
  type := property.type
  caster := property.caster
  value := (Fields.get? bound.declared property.name).getD .null

/-- The assignment of an extra. -/
def CatchAll.step (catchAll : CatchAll) (name : String) (value : Value) : Assignment where
  name := name
  type := catchAll.type
  caster := catchAll.caster
  value := value

theorem assignments_eq (leaf : Signature) (bound : Bound) :
    leaf.assignments bound =
      leaf.params.map (Property.step · bound) ++
        match leaf.catchAll with
        | some catchAll => bound.extra.map fun (name, value) => CatchAll.step catchAll name value
        | none => [] := rfl

theorem mem_assignments {leaf : Signature} {bound : Bound} {step : Assignment} :
    step ∈ leaf.assignments bound ↔
      (∃ param ∈ leaf.params, step = Property.step param bound) ∨
        ∃ catchAll name value, leaf.catchAll = some catchAll ∧ (name, value) ∈ bound.extra ∧
          step = CatchAll.step catchAll name value := by
  rw [assignments_eq, List.mem_append]
  refine or_congr ?_ ?_
  · simp only [List.mem_map, eq_comm]
  · cases leaf.catchAll with
    | none => simp
    | some catchAll => simp [eq_comm]

theorem names_assignments (leaf : Signature) (bound : Bound) :
    (leaf.assignments bound).map Assignment.name =
      leaf.params.map Property.name ++
        if leaf.acceptsExtra then Fields.names bound.extra else [] := by
  rw [assignments_eq, List.map_append]
  cases takes : leaf.catchAll with
  | none => simp [Property.step, Signature.acceptsExtra, takes, Function.comp_def]
  | some catchAll =>
    simp [Property.step, CatchAll.step, Signature.acceptsExtra, takes, Fields.names,
      Function.comp_def]

theorem lastStep_params (params : List Property) (bound : Bound) (name : String) :
    lastStep (params.map (Property.step · bound)) name =
      (Fields.get? (Fields.ofList (params.map fun param => (param.name, param))) name).map
        (Property.step · bound) := by
  have mapped : keyed (params.map (Property.step · bound)) =
      Fields.mapValues (Property.step · bound) (params.map fun param => (param.name, param)) := by
    simp [keyed, Fields.mapValues, Property.step, Function.comp_def]
  rw [lastStep, mapped, Fields.ofList_mapValues, Fields.get?_mapValues]

theorem lastStep_extra (catchAll : CatchAll) {extra : Fields Value}
    (distinct : Fields.Distinct extra) (name : String) :
    lastStep (extra.map fun (name, value) => CatchAll.step catchAll name value) name =
      (Fields.get? extra name).map (CatchAll.step catchAll name) := by
  induction extra with
  | nil => rfl
  | cons entry rest ih =>
    rw [Fields.distinct_cons] at distinct
    rw [List.map_cons, lastStep_cons, ih distinct.2, Fields.get?_cons]
    by_cases same : name = entry.1
    · subst same
      have absent : Fields.get? rest entry.1 = none := Fields.get?_eq_none_iff.mpr distinct.1
      simp [absent, CatchAll.step]
    · simp [same, CatchAll.step]

/-- The last assignment to an attribute that is no extra is by the last leaf that declares it. -/
theorem lastStep_declared (found : List Signature) {bound : Bound} {name : String}
    (declared : name ∉ Fields.names bound.extra) :
    lastStep (found.flatMap (·.assignments bound)) name =
      (Fields.get? (Fields.ofList (leafParams found)) name).map (Property.step · bound) := by
  induction found with
  | nil => rfl
  | cons leaf rest ih =>
    have noExtra : lastStep
        (match leaf.catchAll with
          | some catchAll => bound.extra.map fun (name, value) => CatchAll.step catchAll name value
          | none => []) name = none := by
      rw [lastStep_eq_none_iff]
      cases leaf.catchAll with
      | none => exact List.not_mem_nil
      | some catchAll => simpa [CatchAll.step, Fields.names, Function.comp_def] using declared
    rw [List.flatMap_cons, lastStep_append, ih, assignments_eq, lastStep_append, noExtra,
      Option.none_or, lastStep_params, leafParams_cons, Fields.get?_ofList_append, Option.map_or]

/-- The last assignment of an extra is by the last leaf that takes extras. -/
theorem lastStep_undeclared (found : List Signature) {bound : Bound}
    (distinct : Fields.Distinct bound.extra) {name : String} {value : Value}
    (extra : Fields.get? bound.extra name = some value)
    (undeclared : name ∉ Fields.names (leafParams found)) :
    lastStep (found.flatMap (·.assignments bound)) name =
      (lastCatchAll found).map (CatchAll.step · name value) := by
  induction found with
  | nil => rfl
  | cons leaf rest ih =>
    rw [leafParams_cons, Fields.names, List.map_append, List.mem_append, not_or] at undeclared
    have noParam : lastStep (leaf.params.map (Property.step · bound)) name = none := by
      rw [lastStep_eq_none_iff]
      simpa [Property.step, Function.comp_def] using undeclared.1
    rw [List.flatMap_cons, lastStep_append, ih undeclared.2, assignments_eq, lastStep_append,
      noParam, Option.or_none, lastCatchAll_cons]
    cases leaf.catchAll with
    | none => cases lastCatchAll rest <;> rfl
    | some catchAll =>
      rw [lastStep_extra catchAll distinct, extra]
      cases lastCatchAll rest <;> rfl

end Decode

end TypedSchema
