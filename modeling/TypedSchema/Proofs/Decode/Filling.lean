import TypedSchema.Proofs.Decode.Growth
import TypedSchema.Proofs.Lists
import TypedSchema.Proofs.Types.Bound

/-!
Filling as one list of assignments. An initializer that is combined runs initializers of parents, in
the end those with a signature of their own: its leaves. Where filling succeeds it binds once and
then coerces and assigns, leaf after leaf, what the leaf declares and what it takes as extra.
-/

namespace TypedSchema

/-- A value on its way into an attribute. -/
structure Assignment where
  name : String
  type : TypeExpr
  caster : Caster
  value : Value

namespace Signature

/-- What a leaf assigns: its parameters, then the extras if it takes any. -/
def assignments (signature : Signature) (bound : Bound) : List Assignment :=
  (signature.params.map fun param =>
      ⟨param.name, param.type, param.caster,
        (Fields.get? bound.declared param.name).getD .null⟩) ++
    match signature.catchAll with
    | some catchAll =>
      bound.extra.map fun (name, value) => ⟨name, catchAll.type, catchAll.caster, value⟩
    | none => []

end Signature

namespace Decode

variable (registry : Registry) (cast : Cast)

/-- Coerces values and assigns them in order. -/
def assignAll : List Assignment → Fields Value → Decode (Fields Value)
  | [], assigned => return assigned
  | step :: rest, assigned => do
    let value ← coerce registry cast step.name step.type step.caster step.value
    assignAll rest (Fields.insert assigned step.name value)

/-- The signatures that an initializer binds in the end, in order. -/
def leaves : Nat → Initializer → Option (List Signature)
  | _, .direct signature => some [signature]
  | 0, .combined _ _ => none
  | depth + 1, .combined _ parents =>
    (parents.mapM fun parent =>
      (Fields.get? registry.composites parent).bind fun composite =>
        leaves depth composite.initializer).map List.flatten

variable {registry cast}

/-! ## Runs of assignments -/

section

variable {names after : NameTable} {assigned result : Fields Value}

theorem assignAll_append_ok {first second : List Assignment} :
    (assignAll registry cast (first ++ second) assigned).run names = (.ok result, after) ↔
      ∃ sofar between, (assignAll registry cast first assigned).run names = (.ok sofar, between) ∧
        (assignAll registry cast second sofar).run between = (.ok result, after) := by
  induction first generalizing assigned names with
  | nil =>
    constructor
    · intro ran
      exact ⟨assigned, names, rfl, ran⟩
    · rintro ⟨sofar, between, start, ran⟩
      cases start
      exact ran
  | cons step rest ih =>
    rw [List.cons_append, assignAll, assignAll, run_bind_ok]
    constructor
    · rintro ⟨value, middle, coerced, ran⟩
      obtain ⟨sofar, between, first, second⟩ := ih.mp ran
      exact ⟨sofar, between, run_bind_ok.mpr ⟨value, middle, coerced, first⟩, second⟩
    · rintro ⟨sofar, between, ran, second⟩
      obtain ⟨value, middle, coerced, first⟩ := run_bind_ok.mp ran
      exact ⟨value, middle, coerced, ih.mpr ⟨sofar, between, first, second⟩⟩

theorem assignDeclared_ok {params : List Property} {declared : Fields Value}
    (distinct : (params.map Property.name).Nodup)
    (given : ∀ param ∈ params, Fields.get? declared param.name ≠ none) :
    (assignDeclared registry cast params declared assigned).run names = (.ok result, after) ↔
      (assignAll registry cast (params.map fun param =>
        ⟨param.name, param.type, param.caster,
          (Fields.get? declared param.name).getD .null⟩) assigned).run names =
        (.ok result, after) := by
  induction params generalizing declared assigned names with
  | nil => simp [assignDeclared, assignAll]
  | cons param rest ih =>
    simp only [List.map_cons, List.nodup_cons] at distinct
    obtain ⟨value, found⟩ := Option.ne_none_iff_exists'.mp (given param List.mem_cons_self)
    -- Once a value is assigned it is taken out; the parameters left do not ask for it.
    have unaffected : ∀ other ∈ rest, Fields.get? (Fields.erase declared param.name) other.name =
        Fields.get? declared other.name := by
      intro other member
      have different : other.name ≠ param.name := by
        intro same
        exact distinct.1 (same ▸ List.mem_map_of_mem member)
      rw [Fields.get?_erase, if_neg different]
    have later : ∀ other ∈ rest,
        Fields.get? (Fields.erase declared param.name) other.name ≠ none := by
      intro other member
      rw [unaffected other member]
      exact given other (List.mem_cons_of_mem _ member)
    have remaining : (rest.map fun other => (⟨other.name, other.type, other.caster,
          (Fields.get? (Fields.erase declared param.name) other.name).getD .null⟩ : Assignment)) =
        rest.map fun other => ⟨other.name, other.type, other.caster,
          (Fields.get? declared other.name).getD .null⟩ :=
      List.map_congr_left fun other member => by rw [unaffected other member]
    rw [assignDeclared, found, List.map_cons, assignAll, run_bind_ok, run_bind_ok]
    simp only [run_adapt_ok, ih distinct.2 later, remaining, found, Option.getD_some]

theorem run_assignExtra_cons (type : String) (catchAll : CatchAll) (name : String) (value : Value)
    (rest : List (String × Value)) (assigned : Fields Value) (names : NameTable) :
    (assignExtra registry cast type catchAll ((name, value) :: rest) assigned).run names =
      match (coerce registry cast name catchAll.type catchAll.caster value).run names with
      | (.ok value, after) =>
        (assignExtra registry cast type catchAll rest
          (Fields.insert assigned name value)).run after
      | (.error error, after) =>
        (.error ⟨error.atField (Naming.snakeToPascal name (after.of type)), assigned⟩, after) := by
  rw [assignExtra, run_bind, run_lift]
  rcases (coerce registry cast name catchAll.type catchAll.caster value).run names with
    ⟨_ | _, after⟩
  · rfl
  · rfl

theorem assignExtra_ok {type : String} {catchAll : CatchAll} {entries : List (String × Value)} :
    (assignExtra registry cast type catchAll entries assigned).run names = (.ok result, after) ↔
      (assignAll registry cast (entries.map fun (name, value) =>
        ⟨name, catchAll.type, catchAll.caster, value⟩) assigned).run names =
        (.ok result, after) := by
  induction entries generalizing assigned names with
  | nil => simp [assignExtra, assignAll]
  | cons entry rest ih =>
    obtain ⟨name, value⟩ := entry
    rw [assignExtra, List.map_cons, assignAll, run_bind_ok, run_bind_ok]
    constructor
    · rintro ⟨outcome, between, attempted, ran⟩
      cases outcome with
      | error error => cases ran
      | ok value => exact ⟨value, between, run_attempt_ok.mp attempted, ih.mp ran⟩
    · rintro ⟨value, between, coerced, ran⟩
      exact ⟨.ok value, between, run_attempt_ok.mpr coerced, ih.mpr ran⟩

theorem invoke_ok {type : String} {signature : Signature} {keywords : Fields Value}
    (params : signature.DistinctParams) (distinct : Fields.Distinct keywords) :
    (invoke registry cast type signature { keyword := keywords } assigned).run names =
        (.ok result, after) ↔
      signature.Accepts keywords ∧
        (assignAll registry cast (signature.assignments (signature.boundTo keywords))
          assigned).run names = (.ok result, after) := by
  unfold invoke
  rcases Signature.bind_cases params distinct with ⟨accepts, binds⟩ | ⟨refused, error, failed⟩
  · rw [binds]
    have given : ∀ param ∈ signature.params,
        Fields.get? (signature.boundTo keywords).declared param.name ≠ none := by
      intro param member
      rw [Signature.get?_boundTo params keywords member]
      exact Option.some_ne_none _
    simp only [accepts, true_and, run_bind_ok, assignDeclared_ok params given]
    rw [Signature.assignments, assignAll_append_ok]
    cases signature.catchAll with
    | some catchAll => simp only [assignExtra_ok]
    | none => simp only [assignAll, run_pure, outcome_eq_iff, Except.ok.injEq]
  · rw [failed]
    refine ⟨fun ran => ?_, fun impossible => absurd impossible.1 refused⟩
    cases ran

end

/-! ## Handing over -/

section

variable {parent signature : Signature} {keywords : Fields Value}

/-- What a parent may declare among several: nothing that is not declared for all of them. -/
structure Within (parent signature : Signature) : Prop where
  declares : ∀ param ∈ parent.params, signature.declares param.name = true
  extra : parent.acceptsExtra = true → signature.acceptsExtra = true

theorem Within.undeclared (within : Within parent signature) {name : String}
    (undeclared : signature.declares name = false) : parent.declares name = false := by
  rw [Bool.eq_false_iff]
  intro declared
  obtain ⟨param, member, rfl⟩ := Signature.declares_iff.mp declared
  rw [within.declares param member] at undeclared
  cases undeclared

theorem handOver_keyword (distinct : Fields.Distinct keywords) :
    (handOver parent (signature.boundTo keywords)).keyword =
      ((signature.boundTo keywords).declared.filter fun entry => parent.declares entry.1) ++
        if parent.acceptsExtra then signature.extras keywords else [] := by
  have extras : Fields.Distinct (signature.extras keywords) :=
    Signature.distinct_filter distinct _
  have apart : ∀ name ∈ Fields.names (signature.extras keywords),
      name ∉ Fields.names ((signature.boundTo keywords).declared.filter fun entry =>
        parent.declares entry.1) := by
    intro name extra declared
    have kept := (List.Sublist.map Prod.fst List.filter_sublist).subset declared
    rw [← Fields.names, Signature.names_boundTo] at kept
    obtain ⟨param, member, rfl⟩ := List.mem_map.mp kept
    have undeclared := (Signature.mem_names_extras.mp extra).2
    rw [Signature.declares_iff.mpr ⟨param, member, rfl⟩] at undeclared
    cases undeclared
  have appended := Fields.insertAll_of_absent extras apart
  unfold handOver
  split
  · exact appended
  · exact (List.append_nil _).symm

theorem distinct_handOver (params : signature.DistinctParams) (keywords : Fields Value) :
    Fields.Distinct (handOver parent (signature.boundTo keywords)).keyword := by
  have declared := Signature.distinct_filter (Signature.distinct_boundTo params keywords)
    fun entry => parent.declares entry.1
  unfold handOver
  split
  · exact declared.insertAll _
  · exact declared

/-- A parent is given the value of each of its parameters. -/
theorem get?_handOver (params : signature.DistinctParams) (distinct : Fields.Distinct keywords)
    {name : String} (declared : parent.declares name = true)
    (all : signature.declares name = true) :
    Fields.get? (handOver parent (signature.boundTo keywords)).keyword name =
      Fields.get? (signature.boundTo keywords).declared name := by
  obtain ⟨param, member, rfl⟩ := Signature.declares_iff.mp all
  rw [handOver_keyword distinct, Fields.get?_append, Fields.get?_filter, if_pos declared,
    Signature.get?_boundTo params keywords member, Option.some_or]

theorem extras_handOver (distinct : Fields.Distinct keywords)
    (within : Within parent signature) :
    parent.extras (handOver parent (signature.boundTo keywords)).keyword =
      if parent.acceptsExtra then signature.extras keywords else [] := by
  have noneDeclared : parent.extras ((signature.boundTo keywords).declared.filter fun entry =>
      parent.declares entry.1) = [] := by
    simp [Signature.extras]
  have allExtra : parent.extras (signature.extras keywords) = signature.extras keywords := by
    apply List.filter_eq_self.mpr
    intro entry member
    simp [within.undeclared (Signature.mem_extras.mp member).2]
  rw [handOver_keyword distinct]
  unfold Signature.extras at noneDeclared allExtra ⊢
  rw [List.filter_append, noneDeclared, List.nil_append]
  split
  · exact allExtra
  · rfl

theorem accepts_handOver (params : signature.DistinctParams)
    (distinct : Fields.Distinct keywords) (within : Within parent signature) :
    parent.Accepts (handOver parent (signature.boundTo keywords)).keyword where
  supplied := by
    intro param member
    obtain ⟨own, ownMember, sameName⟩ := Signature.declares_iff.mp (within.declares param member)
    have declared : parent.declares param.name = true :=
      Signature.declares_iff.mpr ⟨param, member, rfl⟩
    have found := get?_handOver params distinct declared (within.declares param member)
    rw [← sameName, Signature.get?_boundTo params keywords ownMember, sameName] at found
    rw [Property.supplied_of_get? found]
    exact Option.some_ne_none _
  extra := by
    rw [extras_handOver distinct within]
    split
    · exact fun _ => ‹_›
    · exact fun extra => absurd rfl extra

/-- Whatever is handed over and is no default was given under its name. -/
theorem keyword_of_handOver (distinct : Fields.Distinct keywords)
    (defaults : signature.DefaultsHold fun value => value.isNull = true) {name : String}
    {value : Value}
    (held : Fields.get? (handOver parent (signature.boundTo keywords)).keyword name = some value)
    (given : value.isNull = false) : Fields.get? keywords name = some value := by
  have member := Fields.mem_of_get? held
  rw [handOver_keyword distinct, List.mem_append] at member
  cases member with
  | inl declared =>
    exact Signature.keyword_of_boundTo defaults (List.mem_of_mem_filter declared) given
  | inr extra =>
    split at extra
    · exact Fields.get?_of_mem distinct (Signature.mem_extras.mp extra).1
    · cases extra

/-- What a leaf of a parent assigns is the same before and after the handing over. -/
theorem assignments_handOver {leaf : Signature} (params : signature.DistinctParams)
    (parentParams : parent.DistinctParams) (distinct : Fields.Distinct keywords)
    (within : Within parent signature) (leafWithin : Within leaf parent) :
    leaf.assignments
        (parent.boundTo (handOver parent (signature.boundTo keywords)).keyword) =
      leaf.assignments (signature.boundTo keywords) := by
  have declared : ∀ param ∈ leaf.params,
      Fields.get? (parent.boundTo (handOver parent (signature.boundTo keywords)).keyword).declared
          param.name =
        Fields.get? (signature.boundTo keywords).declared param.name := by
    intro param member
    have ofParent := leafWithin.declares param member
    obtain ⟨own, ownMember, sameName⟩ := Signature.declares_iff.mp ofParent
    have all : signature.declares param.name = true := sameName ▸ within.declares own ownMember
    obtain ⟨top, topMember, topName⟩ := Signature.declares_iff.mp all
    have handed := get?_handOver params distinct ofParent all
    rw [← topName, Signature.get?_boundTo params keywords topMember, topName, ← sameName] at handed
    rw [← topName, Signature.get?_boundTo params keywords topMember, topName, ← sameName,
      Signature.get?_boundTo parentParams _ ownMember, Property.supplied_of_get? handed]
    rfl
  have assigned : (leaf.params.map fun param => (⟨param.name, param.type, param.caster,
        (Fields.get? (parent.boundTo (handOver parent
          (signature.boundTo keywords)).keyword).declared param.name).getD .null⟩ : Assignment)) =
      leaf.params.map fun param => ⟨param.name, param.type, param.caster,
        (Fields.get? (signature.boundTo keywords).declared param.name).getD .null⟩ :=
    List.map_congr_left fun param member => by rw [declared param member]
  unfold Signature.assignments
  rw [assigned]
  cases found : leaf.catchAll with
  | none => rfl
  | some catchAll =>
    have accepts : parent.acceptsExtra = true := leafWithin.extra (by
      simp [Signature.acceptsExtra, found])
    have extra : (parent.boundTo (handOver parent (signature.boundTo keywords)).keyword).extra =
        (signature.boundTo keywords).extra :=
      (extras_handOver distinct within).trans (if_pos accepts)
    rw [extra]

end

/-- What is handed over is what was bound. -/
theorem handOver_hold {holds : Value → Prop} {signature parent : Signature} {bound : Bound}
    (binds : signature.Binds holds bound) : (handOver parent bound).Hold holds where
  positional := nofun
  keyword := by
    intro entry member
    have declared : ∀ entry ∈ bound.declared.filter fun entry => (parent.param? entry.1).isSome,
        holds entry.2 := fun entry kept => binds.values entry (List.mem_of_mem_filter kept)
    unfold handOver at member
    simp only at member
    split at member
    · cases Fields.mem_insertAll member with
      | inl extra => exact binds.extra.values entry extra
      | inr kept => exact declared entry kept
    · exact declared entry member

/-! ## Leaves -/

/-- An initializer whose parents declare nothing that it does not declare itself. -/
structure Nested (registry : Registry) (initializer : Initializer) : Prop where
  params : initializer.signature.DistinctParams
  within : ∀ signature parents, initializer = .combined signature parents →
    ∀ parent ∈ parents, ∀ composite, Fields.get? registry.composites parent = some composite →
      Within composite.signature signature

theorem Within.refl (signature : Signature) : Within signature signature where
  declares := fun param member => Signature.declares_iff.mpr ⟨param, member, rfl⟩
  extra := id

theorem Within.trans {leaf parent signature : Signature} (inner : Within leaf parent)
    (outer : Within parent signature) : Within leaf signature where
  declares := by
    intro param member
    obtain ⟨own, ownMember, sameName⟩ := Signature.declares_iff.mp (inner.declares param member)
    exact sameName ▸ outer.declares own ownMember
  extra := outer.extra ∘ inner.extra

variable {registry : Registry} {cast : Cast}

/-- The leaves of parents, one parent after the other. -/
def parentLeaves (registry : Registry) (depth : Nat) (parents : List String) :
    Option (List (List Signature)) :=
  parents.mapM fun parent =>
    (Fields.get? registry.composites parent).bind fun composite =>
      leaves registry depth composite.initializer

theorem parentLeaves_iff {depth : Nat} {parents : List String} {found : List (List Signature)} :
    parentLeaves registry depth parents = some found ↔
      List.Forall₂ (fun parent own => ∃ composite,
        Fields.get? registry.composites parent = some composite ∧
          leaves registry depth composite.initializer = some own) parents found := by
  simp only [parentLeaves, Lists.mapM_eq_some, Option.bind_eq_some_iff]

theorem parentLeaves_cons {depth : Nat} {parent : String} {rest : List String}
    {found : List (List Signature)} :
    parentLeaves registry depth (parent :: rest) = some found ↔
      ∃ composite own others, Fields.get? registry.composites parent = some composite ∧
        leaves registry depth composite.initializer = some own ∧
        parentLeaves registry depth rest = some others ∧ found = own :: others := by
  rw [parentLeaves_iff, List.forall₂_cons_left_iff]
  constructor
  · rintro ⟨own, others, ⟨composite, held, ownLeaves⟩, later, rfl⟩
    exact ⟨composite, own, others, held, ownLeaves, parentLeaves_iff.mpr later, rfl⟩
  · rintro ⟨composite, own, others, held, ownLeaves, later, rfl⟩
    exact ⟨own, others, ⟨composite, held, ownLeaves⟩, parentLeaves_iff.mp later, rfl⟩

theorem leaves_direct (depth : Nat) (signature : Signature) :
    leaves registry depth (.direct signature) = some [signature] := by
  cases depth <;> rfl

theorem leaves_combined {depth : Nat} {signature : Signature} {parents : List String} :
    leaves registry (depth + 1) (.combined signature parents) =
      (parentLeaves registry depth parents).map List.flatten := by
  rw [leaves, parentLeaves]

/-- Where the leaves of all parents are found, those of each are. -/
theorem parentLeaves_each {depth : Nat} {parents : List String} {found : List (List Signature)}
    (held : parentLeaves registry depth parents = some found) {parent : String}
    (member : parent ∈ parents) :
    ∃ composite own, Fields.get? registry.composites parent = some composite ∧
      leaves registry depth composite.initializer = some own := by
  obtain ⟨own, -, composite, present, ownLeaves⟩ :=
    Lists.result_of_source (parentLeaves_iff.mp held) member
  exact ⟨composite, own, present, ownLeaves⟩

/-- A leaf of parents is the leaf of one of them. -/
theorem mem_parentLeaves {depth : Nat} {parents : List String} {found : List (List Signature)}
    (held : parentLeaves registry depth parents = some found) {leaf : Signature}
    (member : leaf ∈ found.flatten) :
    ∃ parent ∈ parents, ∃ composite own,
      Fields.get? registry.composites parent = some composite ∧
        leaves registry depth composite.initializer = some own ∧ leaf ∈ own := by
  obtain ⟨own, among, ownMember⟩ := List.mem_flatten.mp member
  obtain ⟨parent, parentMember, composite, present, ownLeaves⟩ :=
    Lists.source_of_result (parentLeaves_iff.mp held) among
  exact ⟨parent, parentMember, composite, own, present, ownLeaves, ownMember⟩

section

variable (nested : ∀ name composite, Fields.get? registry.composites name = some composite →
  Nested registry composite.initializer)

include nested

theorem leaves_within {depth : Nat} {initializer : Initializer} (own : Nested registry initializer)
    {found : List Signature} (held : leaves registry depth initializer = some found)
    {leaf : Signature} (member : leaf ∈ found) : Within leaf initializer.signature := by
  induction depth, initializer using leaves.induct generalizing found with
  | case1 depth signature =>
    cases (leaves_direct depth signature).symm.trans held
    rw [List.mem_singleton.mp member]
    exact .refl signature
  | case2 signature parents => cases held
  | case3 depth signature parents ih =>
    rw [leaves_combined, Option.map_eq_some_iff] at held
    obtain ⟨all, parentsHeld, rfl⟩ := held
    obtain ⟨parent, parentMember, composite, own', present, ownLeaves, leafMember⟩ :=
      mem_parentLeaves parentsHeld member
    have inner := ih composite (nested parent composite present) ownLeaves leafMember
    exact inner.trans (own.within signature parents rfl parent parentMember composite present)

omit nested in
theorem runInitializer_direct (depth : Nat) (type : String) (signature : Signature)
    (arguments : Arguments) (assigned : Fields Value) :
    runInitializer registry cast depth type (.direct signature) arguments assigned =
      invoke registry cast type signature arguments assigned := by
  cases depth <;> rfl

omit nested in
theorem runDirect_ok {depth : Nat} {type : String} {signature : Signature}
    (params : signature.DistinctParams) {keywords : Fields Value}
    (distinct : Fields.Distinct keywords) {assigned result : Fields Value}
    {names after : NameTable} :
    (runInitializer registry cast depth type (.direct signature) { keyword := keywords }
        assigned).run names = (.ok result, after) ↔
      signature.Accepts keywords ∧
        ∃ found, leaves registry depth (.direct signature) = some found ∧
          (assignAll registry cast (found.flatMap (·.assignments (signature.boundTo keywords)))
            assigned).run names = (.ok result, after) := by
  rw [runInitializer_direct, invoke_ok params distinct, leaves_direct]
  simp

omit nested in
/-- Initializers bind before they do anything else. -/
theorem runInitializer_refuses {initializer : Initializer} {arguments : Arguments} {error : Error}
    (refused : initializer.signature.bind arguments = .error error) (depth : Nat) (type : String)
    (assigned : Fields Value) (names : NameTable) :
    (runInitializer registry cast (depth + 1) type initializer arguments assigned).run names =
      (.error ⟨error, assigned⟩, names) := by
  cases initializer with
  | direct signature =>
    have own : signature.bind arguments = .error error := refused
    rw [runInitializer, invoke, own]
    rfl
  | combined signature parents =>
    have own : signature.bind arguments = .error error := refused
    rw [runInitializer, own]
    rfl

/-- An initializer runs at a depth as binding and then assigning all leaves does. -/
def RunsByLeaves (registry : Registry) (cast : Cast) (depth : Nat) : Prop :=
  ∀ (type : String) (initializer : Initializer), Nested registry initializer →
    ∀ keywords : Fields Value, Fields.Distinct keywords →
      ∀ (assigned result : Fields Value) (names after : NameTable),
        (runInitializer registry cast depth type initializer { keyword := keywords }
            assigned).run names = (.ok result, after) ↔
          initializer.signature.Accepts keywords ∧
            ∃ found, leaves registry depth initializer = some found ∧
              (assignAll registry cast
                (found.flatMap (·.assignments (initializer.signature.boundTo keywords)))
                assigned).run names = (.ok result, after)

theorem runParents_ok {depth : Nat} (runs : RunsByLeaves registry cast depth)
    {signature : Signature} (params : signature.DistinctParams) {keywords : Fields Value}
    (distinct : Fields.Distinct keywords) {parents : List String}
    (within : ∀ parent ∈ parents, ∀ composite,
      Fields.get? registry.composites parent = some composite →
        Within composite.signature signature)
    {assigned result : Fields Value} {names after : NameTable} :
    (parents.foldlM (fun assigned parent => do
        match registry.composite parent with
        | .error error => throw ⟨error, assigned⟩
        | .ok composite =>
          runInitializer registry cast depth parent composite.initializer
            (handOver composite.signature (signature.boundTo keywords)) assigned)
        assigned : Filling (Fields Value)).run names = (.ok result, after) ↔
      ∃ all, parentLeaves registry depth parents = some all ∧
        (assignAll registry cast
          (all.flatten.flatMap (·.assignments (signature.boundTo keywords))) assigned).run
          names = (.ok result, after) := by
  induction parents generalizing assigned names with
  | nil => simp [parentLeaves, assignAll]
  | cons parent rest ih =>
    have later : ∀ parent ∈ rest, ∀ composite,
        Fields.get? registry.composites parent = some composite →
          Within composite.signature signature := fun parent member =>
      within parent (List.mem_cons_of_mem _ member)
    rw [List.foldlM_cons, run_bind_ok]
    simp only [ih later, parentLeaves_cons]
    cases present : Fields.get? registry.composites parent with
    | none =>
      have missing : registry.composite parent = .error (.classNotFound parent) := by
        simp only [Registry.composite, Registry.found, present]
      simp [missing]
    | some composite =>
      have found : registry.composite parent = .ok composite := by
        simp only [Registry.composite, Registry.found, present]
      have inner := within parent List.mem_cons_self composite present
      have parentNested := nested parent composite present
      have parentParams : composite.signature.DistinctParams := parentNested.params
      have handed := runs parent composite.initializer parentNested
        (handOver composite.signature (signature.boundTo keywords)).keyword
        (distinct_handOver params keywords)
      -- What the leaves of this parent assign does not change by the handing over.
      have same : ∀ own, leaves registry depth composite.initializer = some own →
          own.flatMap (·.assignments (composite.signature.boundTo
              (handOver composite.signature (signature.boundTo keywords)).keyword)) =
            own.flatMap (·.assignments (signature.boundTo keywords)) := by
        intro own held
        apply List.flatMap_congr
        intro leaf member
        exact assignments_handOver params parentParams distinct inner
          (leaves_within nested parentNested held member)
      simp only [found]
      constructor
      · rintro ⟨sofar, between, ran, all, held, second⟩
        obtain ⟨-, own, ownLeaves, first⟩ := (handed _ _ _ _).mp ran
        refine ⟨own :: all, ⟨composite, own, all, rfl, ownLeaves, held, rfl⟩, ?_⟩
        rw [List.flatten_cons, List.flatMap_append, assignAll_append_ok]
        exact ⟨sofar, between, same own ownLeaves ▸ first, second⟩
      · rintro ⟨all, ⟨held, own, others, equal, ownLeaves, rest, rfl⟩, ran⟩
        cases equal
        rw [List.flatten_cons, List.flatMap_append, assignAll_append_ok] at ran
        obtain ⟨sofar, between, first, second⟩ := ran
        rw [← same own ownLeaves] at first
        have accepts := accepts_handOver params distinct inner
        exact ⟨sofar, between, (handed _ _ _ _).mpr ⟨accepts, own, ownLeaves, first⟩,
          others, rest, second⟩

/-- Filling succeeds exactly when the arguments bind and the assignments of all leaves succeed one
after the other. -/
theorem runInitializer_ok (depth : Nat) : RunsByLeaves registry cast depth := by
  induction depth with
  | zero =>
    intro type initializer own keywords distinct assigned result names after
    cases initializer with
    | direct signature => exact runDirect_ok own.params distinct
    | combined signature parents => simp [runInitializer, leaves]
  | succ depth ih =>
    intro type initializer own keywords distinct assigned result names after
    cases initializer with
    | direct signature => exact runDirect_ok own.params distinct
    | combined signature parents =>
      have params : signature.DistinctParams := own.params
      unfold runInitializer
      rcases Signature.bind_cases params distinct with
        ⟨accepts, binds⟩ | ⟨refused, error, failed⟩
      · rw [binds]
        simp only [Initializer.signature, accepts, true_and, leaves_combined,
          Option.map_eq_some_iff]
        refine (runParents_ok nested ih params distinct
          (own.within signature parents rfl)).trans ?_
        constructor
        · rintro ⟨all, held, ran⟩
          exact ⟨_, ⟨all, held, rfl⟩, ran⟩
        · rintro ⟨_, ⟨all, held, rfl⟩, ran⟩
          exact ⟨all, held, ran⟩
      · rw [failed]
        refine ⟨fun ran => ?_, fun impossible => absurd impossible.1 refused⟩
        cases ran

end

end Decode

end TypedSchema
