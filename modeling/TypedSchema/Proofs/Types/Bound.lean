import TypedSchema.Proofs.Types.Binding

/-!
What binding gives, whatever the arguments are: a value for every parameter in order, and further
keywords of other names where those are accepted. What holds of all arguments and all defaults holds
of the bound values, and binding what was bound gives the same again.
-/

namespace TypedSchema

/-- Something holds of all values among the arguments. -/
structure Arguments.Hold (holds : Value → Prop) (arguments : Arguments) : Prop where
  positional : ∀ value ∈ arguments.positional, holds value
  keyword : ∀ entry ∈ arguments.keyword, holds entry.2

namespace Signature

/-- Keywords that are taken beyond the parameters. -/
structure Extras (signature : Signature) (holds : Value → Prop) (extra : Fields Value) : Prop where
  distinct : Fields.Distinct extra
  undeclared : ∀ name ∈ Fields.names extra, signature.declares name = false
  accepted : extra ≠ [] → signature.acceptsExtra = true
  values : ∀ entry ∈ extra, holds entry.2

/-- A value for every parameter, and further keywords. -/
structure Binds (signature : Signature) (holds : Value → Prop) (bound : Bound) : Prop where
  names : Fields.names bound.declared = signature.params.map Property.name
  values : ∀ entry ∈ bound.declared, holds entry.2
  extra : signature.Extras holds bound.extra

/-- The defaults of all parameters are such values. -/
def DefaultsHold (signature : Signature) (holds : Value → Prop) : Prop :=
  ∀ param ∈ signature.params, ∀ value, param.default = .value value → holds value

variable {signature : Signature} {holds : Value → Prop}

theorem holds_insert {fields : Fields Value} (each : ∀ entry ∈ fields, holds entry.2)
    {name : String} {value : Value} (added : holds value) :
    ∀ entry ∈ Fields.insert fields name value, holds entry.2 := by
  intro entry member
  cases Fields.mem_insert member with
  | inl new => exact new ▸ added
  | inr old => exact each entry old

theorem Extras.insert {extra : Fields Value} (extras : signature.Extras holds extra)
    {name : String} {value : Value} (undeclared : ¬(signature.param? name).isSome = true)
    (accepts : signature.acceptsExtra = true) (added : holds value) :
    signature.Extras holds (Fields.insert extra name value) where
  distinct := extras.distinct.insert name value
  undeclared := by
    intro other member
    cases Fields.mem_names_insert.mp member with
    | inl same =>
      rw [same]
      exact Bool.eq_false_iff.mpr undeclared
    | inr old => exact extras.undeclared other old
  accepted := fun _ => accepts
  values := holds_insert extras.values added

/-! ## Sorting and filling -/

theorem sortKeywords_holds {keywords given extra : Fields Value}
    {sorted : Fields Value × Fields Value} (each : ∀ entry ∈ keywords, holds entry.2)
    (known : ∀ entry ∈ given, holds entry.2) (extras : signature.Extras holds extra)
    (sorts : signature.sortKeywords keywords given extra = .ok sorted) :
    (∀ entry ∈ sorted.1, holds entry.2) ∧ signature.Extras holds sorted.2 := by
  induction keywords generalizing given extra with
  | nil =>
    cases sorts
    exact ⟨known, extras⟩
  | cons entry rest ih =>
    obtain ⟨name, value⟩ := entry
    have first : holds value := each _ List.mem_cons_self
    have later : ∀ entry ∈ rest, holds entry.2 := fun entry member =>
      each entry (List.mem_cons_of_mem _ member)
    unfold sortKeywords at sorts
    split at sorts
    · split at sorts
      · cases sorts
      · exact ih later (holds_insert known first) extras sorts
    · rename_i undeclared
      split at sorts
      · rename_i accepts
        exact ih later known (extras.insert undeclared accepts first) sorts
      · cases sorts

theorem supplied_holds (defaults : signature.DefaultsHold holds) {given : Fields Value}
    (known : ∀ entry ∈ given, holds entry.2) {param : Property}
    (member : param ∈ signature.params) {value : Value}
    (supplied : param.supplied given = some value) : holds value := by
  unfold Property.supplied at supplied
  split at supplied
  · rename_i found
    cases supplied
    exact known _ (Fields.mem_of_get? found)
  · rename_i default
    cases supplied
    exact defaults param member _ default
  · cases supplied

/-- Filling that leaves nothing out has a value for every parameter. -/
theorem fill_complete (params : signature.DistinctParams) {given : Fields Value}
    {filled : List (String × Value)} (fills : fill signature.params given = (filled, [])) :
    (∀ param ∈ signature.params, param.supplied given ≠ none) ∧
      filled = signature.params.map fun param =>
        (param.name, (param.supplied given).getD .null) := by
  rw [fill_eq params, Prod.mk.injEq] at fills
  obtain ⟨rfl, missing⟩ := fills
  have all : ∀ param ∈ signature.params, param.supplied given ≠ none := by
    simpa [List.filter_eq_nil_iff] using missing
  exact ⟨all, filterMap_supplied all⟩

/-! ## Binding -/

theorem bind_eq (signature : Signature) (arguments : Arguments) :
    signature.bind arguments =
      if signature.params.length < arguments.positional.length then
        .error (refuse (.tooManyPositional signature.owner signature.params.length
          arguments.positional.length))
      else
        (do
          let (given, extra) ← signature.sortKeywords arguments.keyword
            (Fields.ofList ((signature.params.map Property.name).zip arguments.positional)) []
          match fill signature.params given with
          | (filled, []) => return { declared := Fields.ofList filled, extra }
          | (_, first :: rest) =>
            throw ((refuse (.missingArguments signature.owner
              ((first :: rest).map Property.name))).atField first.external)) := by
  unfold bind
  split
  · rfl
  · rfl

/-- Keywords that do not sort are refused for their names. -/
theorem sortKeywords_refuses {signature : Signature} {keywords given extra : Fields Value}
    {error : Error} (failed : signature.sortKeywords keywords given extra = .error error) :
    ∃ fault, error = refuse fault := by
  induction keywords generalizing given extra with
  | nil => cases failed
  | cons entry rest ih =>
    unfold sortKeywords at failed
    split at failed
    · split at failed
      · cases failed
        exact ⟨_, rfl⟩
      · exact ih failed
    · split at failed
      · exact ih failed
      · cases failed
        exact ⟨_, rfl⟩

/-- Arguments that do not bind are refused with an error about types. -/
theorem bind_refuses {signature : Signature} {arguments : Arguments} {error : Error}
    (failed : signature.bind arguments = .error error) :
    ∃ path fault, error = .type path [] fault := by
  rw [bind_eq] at failed
  split at failed
  · cases failed
    exact ⟨_, _, rfl⟩
  · cases sorts : signature.sortKeywords arguments.keyword
        (Fields.ofList ((signature.params.map Property.name).zip arguments.positional)) [] with
    | error refused =>
      rw [sorts] at failed
      cases failed
      obtain ⟨fault, rfl⟩ := sortKeywords_refuses sorts
      exact ⟨_, fault, rfl⟩
    | ok sorted =>
      rw [sorts] at failed
      simp only [Bind.bind, Except.bind] at failed
      split at failed
      · cases failed
      · cases failed
        exact ⟨_, _, rfl⟩

/-- A required parameter that no keyword names. -/
theorem bind_missing {signature : Signature} {keywords : Fields Value}
    (params : signature.DistinctParams) (distinct : Fields.Distinct keywords) {param : Property}
    (member : param ∈ signature.params) (required : param.default = .required)
    (absent : param.name ∉ Fields.names keywords) :
    ∃ path fault, signature.bind { keyword := keywords } = .error (.type path [] fault) := by
  cases binding : signature.bind { keyword := keywords } with
  | error error =>
    obtain ⟨path, fault, rfl⟩ := bind_refuses binding
    exact ⟨path, fault, rfl⟩
  | ok bound =>
    have supplied := ((bind_ok_iff params distinct).mp binding).1.supplied param member
    rw [Property.supplied, Fields.get?_eq_none_iff.mpr absent, required] at supplied
    exact absurd rfl supplied

/-- Keywords that are all new are refused for one that names no parameter. -/
theorem sortKeywords_error {signature : Signature} {keywords given extra : Fields Value}
    {error : Error} (distinct : Fields.Distinct keywords)
    (fresh : ∀ name ∈ Fields.names keywords, name ∉ Fields.names given)
    (failed : signature.sortKeywords keywords given extra = .error error) :
    ∃ name ∈ Fields.names keywords, error = refuse (.unexpectedArgument signature.owner name) := by
  induction keywords generalizing given extra with
  | nil => cases failed
  | cons entry rest ih =>
    obtain ⟨name, value⟩ := entry
    have found : ∀ others rejected, (∀ other ∈ Fields.names rest, other ∉ Fields.names others) →
        signature.sortKeywords rest others rejected = .error error →
        ∃ named ∈ Fields.names ((name, value) :: rest),
          error = refuse (.unexpectedArgument signature.owner named) := by
      intro others rejected apart failed
      obtain ⟨named, member, refused⟩ := ih (Fields.distinct_cons.mp distinct).2 apart failed
      exact ⟨named, List.mem_cons_of_mem _ member, refused⟩
    unfold sortKeywords at failed
    split at failed
    · split at failed
      · rename_i repeated
        exact absurd (Fields.has_iff.mp repeated) (fresh name List.mem_cons_self)
      · exact found _ _ (Fields.fresh_insert distinct fresh) failed
    · split at failed
      · exact found _ _ (fun other member => fresh other (List.mem_cons_of_mem _ member)) failed
      · cases failed
        exact ⟨name, List.mem_cons_self, rfl⟩

/-- Keywords that do not bind name no parameter or leave one without a value. -/
theorem bind_error {signature : Signature} {keywords : Fields Value} {error : Error}
    (params : signature.DistinctParams) (distinct : Fields.Distinct keywords)
    (failed : signature.bind { keyword := keywords } = .error error) :
    (∃ name ∈ Fields.names keywords,
      error = refuse (.unexpectedArgument signature.owner name)) ∨
    ∃ param ∈ signature.params, param.name ∉ Fields.names keywords ∧ ∃ names,
      error = (refuse (.missingArguments signature.owner names)).atField param.external := by
  have fresh : ∀ name ∈ Fields.names keywords, name ∉ Fields.names ([] : Fields Value) :=
    fun _ _ => List.not_mem_nil
  rw [bind_keywords] at failed
  cases sorts : signature.sortKeywords keywords [] [] with
  | error refused =>
    rw [sorts] at failed
    cases failed
    exact .inl (sortKeywords_error distinct fresh sorts)
  | ok sorted =>
    obtain ⟨-, rfl⟩ := (sortKeywords_ok_iff distinct fresh).mp sorts
    have declaredOnly : Fields.insertAll []
          (keywords.filter fun entry => signature.declares entry.1) =
        keywords.filter fun entry => signature.declares entry.1 :=
      Fields.ofList_of_distinct (distinct_filter distinct _)
    rw [sorts] at failed
    simp only [Bind.bind, Except.bind, declaredOnly, fill_declared keywords params] at failed
    cases missing : signature.params.filter fun param => (param.supplied keywords).isNone with
    | nil =>
      simp only [missing] at failed
      cases failed
    | cons first rest =>
      simp only [missing] at failed
      cases failed
      have unsupplied : first ∈ signature.params.filter fun param =>
          (param.supplied keywords).isNone := missing ▸ List.mem_cons_self
      rw [List.mem_filter, Option.isNone_iff_eq_none] at unsupplied
      refine .inr ⟨first, unsupplied.1, fun named => ?_, _, rfl⟩
      obtain ⟨value, held⟩ := Fields.mem_names_iff.mp named
      rw [Property.supplied_of_get? held] at unsupplied
      cases unsupplied.2

/-- Whatever is bound to a parameter and is no default was given under its name. -/
theorem keyword_of_boundTo {keywords : Fields Value}
    (defaults : signature.DefaultsHold fun value => value.isNull = true) {name : String}
    {value : Value} (held : (name, value) ∈ (signature.boundTo keywords).declared)
    (given : value.isNull = false) : Fields.get? keywords name = some value := by
  obtain ⟨param, member, same⟩ := List.mem_map.mp held
  cases same
  cases found : Fields.get? keywords param.name with
  | some value => rw [Property.supplied_of_get? found, Option.getD_some]
  | none =>
    -- A default is null, and so is what stands for a value that is not there.
    cases default : param.default with
    | value value =>
      have null := defaults param member value default
      simp [Property.supplied, found, default, null] at given
    | required => simp [Property.supplied, found, default, Value.isNull] at given

theorem bind_binds (params : signature.DistinctParams) (defaults : signature.DefaultsHold holds)
    {arguments : Arguments} (hold : arguments.Hold holds) {bound : Bound}
    (binds : signature.bind arguments = .ok bound) : signature.Binds holds bound := by
  rw [bind_eq] at binds
  split at binds
  · cases binds
  · have placed : ∀ entry ∈ Fields.ofList
        ((signature.params.map Property.name).zip arguments.positional), holds entry.2 := by
      intro entry member
      have listed := (Fields.mem_insertAll member).resolve_right List.not_mem_nil
      exact hold.positional entry.2 (List.of_mem_zip listed).2
    have none : signature.Extras holds [] := ⟨List.nodup_nil, nofun, nofun, nofun⟩
    cases sorts : signature.sortKeywords arguments.keyword
        (Fields.ofList ((signature.params.map Property.name).zip arguments.positional)) [] with
    | error error =>
      rw [sorts] at binds
      cases binds
    | ok sorted =>
      rw [sorts] at binds
      obtain ⟨known, extras⟩ := sortKeywords_holds hold.keyword placed none sorts
      cases fills : fill signature.params sorted.1 with
      | mk filled missing =>
        simp only [Bind.bind, Except.bind, fills] at binds
        cases missing with
        | cons first rest => cases binds
        | nil =>
          cases binds
          obtain ⟨all, rfl⟩ := fill_complete params fills
          have distinct : Fields.Distinct (signature.boundTo sorted.1).declared :=
            distinct_boundTo params sorted.1
          have kept : Fields.ofList (signature.boundTo sorted.1).declared = _ :=
            Fields.ofList_of_distinct distinct
          simp only [boundTo] at kept
          simp only [kept]
          refine ⟨names_boundTo signature sorted.1, fun entry member => ?_, extras⟩
          obtain ⟨param, listed, rfl⟩ := List.mem_map.mp member
          obtain ⟨value, supplied⟩ := Option.ne_none_iff_exists'.mp (all param listed)
          simp only [supplied, Option.getD_some]
          exact supplied_holds defaults known listed supplied

/-! ## Binding again -/

namespace Binds

variable {bound : Bound}

/-- All bound values as keywords. -/
def keywords (bound : Bound) : Fields Value :=
  bound.declared ++ bound.extra

theorem declares (binds : signature.Binds holds bound) {name : String} :
    signature.declares name = true ↔ name ∈ Fields.names bound.declared := by
  rw [binds.names, declares_iff, List.mem_map]

theorem distinct (binds : signature.Binds holds bound) (params : signature.DistinctParams) :
    Fields.Distinct (keywords bound) := by
  have declared : (Fields.names bound.declared).Nodup := binds.names ▸ params
  rw [Fields.Distinct, Fields.names, keywords, List.map_append]
  refine List.Nodup.append declared binds.extra.distinct fun name first second => ?_
  have undeclared := binds.extra.undeclared name second
  rw [binds.declares.mpr first] at undeclared
  cases undeclared

/-- Bound values are those that they bind to as keywords. -/
theorem boundTo_keywords (binds : signature.Binds holds bound)
    (params : signature.DistinctParams) :
    signature.Accepts (keywords bound) ∧ signature.boundTo (keywords bound) = bound := by
  have distinctDeclared : Fields.Distinct bound.declared := by
    rw [Fields.Distinct, binds.names]
    exact params
  have supplied : ∀ param ∈ signature.params, ∀ value, (param.name, value) ∈ bound.declared →
      param.supplied (keywords bound) = some value := by
    intro param member value held
    apply Property.supplied_of_get?
    rw [keywords, Fields.get?_append, Fields.get?_of_mem distinctDeclared held, Option.some_or]
  have extras : signature.extras (keywords bound) = bound.extra := by
    have none : bound.declared.filter (fun entry => !signature.declares entry.1) = [] := by
      rw [List.filter_eq_nil_iff]
      intro entry member
      simp [binds.declares.mpr (Fields.name_mem member)]
    have all : bound.extra.filter (fun entry => !signature.declares entry.1) = bound.extra := by
      rw [List.filter_eq_self]
      intro entry member
      simp [binds.extra.undeclared entry.1 (Fields.name_mem member)]
    rw [Signature.extras, keywords, List.filter_append, none, all, List.nil_append]
  refine ⟨⟨fun param member => ?_, fun some => ?_⟩, ?_⟩
  · have named : param.name ∈ Fields.names bound.declared := by
      rw [binds.names]
      exact List.mem_map_of_mem member
    obtain ⟨value, held⟩ := Fields.mem_names_iff.mp named
    rw [supplied param member value (Fields.mem_of_get? held)]
    exact Option.some_ne_none value
  · rw [extras] at some
    exact binds.extra.accepted some
  · have declared : (signature.boundTo (keywords bound)).declared = bound.declared := by
      refine Fields.ext (distinct_boundTo params (keywords bound))
        ((names_boundTo signature _).trans binds.names.symm) fun name member => ?_
      rw [names_boundTo] at member
      obtain ⟨param, listed, rfl⟩ := List.mem_map.mp member
      have named : param.name ∈ Fields.names bound.declared := by
        rw [binds.names]
        exact List.mem_map_of_mem listed
      obtain ⟨value, held⟩ := Fields.mem_names_iff.mp named
      rw [get?_boundTo params _ listed, supplied param listed value (Fields.mem_of_get? held), held,
        Option.getD_some]
    have extra : (signature.boundTo (keywords bound)).extra = bound.extra := extras
    exact congrArg₂ Bound.mk declared extra

end Binds

end Signature

end TypedSchema
