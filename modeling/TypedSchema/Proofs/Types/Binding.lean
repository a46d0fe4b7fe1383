import TypedSchema.Proofs.Fields
import TypedSchema.Types.Signature

/-!
Binding by keywords. Binding succeeds exactly when every parameter gets a value and further keywords
are accepted; every parameter then has the value of its keyword or its default, and the further
keywords keep their order.
-/

namespace TypedSchema

namespace Property

/-- The value that keywords give, or else the default. -/
def supplied (property : Property) (keywords : Fields Value) : Option Value :=
  match Fields.get? keywords property.name, property.default with
  | some value, _ => some value
  | none, .value value => some value
  | none, .required => none

theorem supplied_of_get? {property : Property} {keywords : Fields Value} {value : Value}
    (found : Fields.get? keywords property.name = some value) :
    property.supplied keywords = some value := by
  simp only [supplied, found]

theorem supplied_congr {property : Property} {keywords others : Fields Value}
    (same : Fields.get? keywords property.name = Fields.get? others property.name) :
    property.supplied keywords = property.supplied others := by
  simp only [supplied, same]

end Property

namespace Signature

/-- Whether a name is that of a parameter. -/
def declares (signature : Signature) (name : String) : Bool :=
  (signature.param? name).isSome

theorem declares_iff {signature : Signature} {name : String} :
    signature.declares name = true ↔ ∃ param ∈ signature.params, param.name = name := by
  simp [declares, param?]

/-- No two parameters have a name in common. -/
abbrev DistinctParams (signature : Signature) : Prop :=
  (signature.params.map Property.name).Nodup

/-- The keywords that name no parameter. -/
def extras (signature : Signature) (keywords : Fields Value) : Fields Value :=
  keywords.filter fun entry => !signature.declares entry.1

/-- Every parameter gets a value, and there are no further keywords unless they are accepted. -/
structure Accepts (signature : Signature) (keywords : Fields Value) : Prop where
  supplied : ∀ param ∈ signature.params, param.supplied keywords ≠ none
  extra : signature.extras keywords ≠ [] → signature.acceptsExtra = true

/-- What binding gives where it succeeds. -/
def boundTo (signature : Signature) (keywords : Fields Value) : Bound where
  declared := signature.params.map fun param => (param.name, (param.supplied keywords).getD .null)
  extra := signature.extras keywords

/-! ## Sorting keywords -/

/-- Sorting splits the keywords, and refuses those that it has no place for. -/
theorem sortKeywords_ok_iff {signature : Signature} {keywords given extra : Fields Value}
    {sorted : Fields Value × Fields Value} (distinct : Fields.Distinct keywords)
    (fresh : ∀ name ∈ Fields.names keywords, name ∉ Fields.names given) :
    signature.sortKeywords keywords given extra = .ok sorted ↔
      (signature.extras keywords ≠ [] → signature.acceptsExtra = true) ∧
        sorted = (Fields.insertAll given (keywords.filter fun entry => signature.declares entry.1),
          Fields.insertAll extra (signature.extras keywords)) := by
  induction keywords generalizing given extra with
  | nil =>
    rw [sortKeywords, Except.ok.injEq]
    simpa [extras] using eq_comm
  | cons entry rest ih =>
    obtain ⟨name, value⟩ := entry
    have restDistinct := (Fields.distinct_cons.mp distinct).2
    by_cases declared : signature.declares name = true
    · have unused : Fields.has given name = false := by
        rw [Fields.has_eq_false_iff, Fields.get?_eq_none_iff]
        exact fresh name List.mem_cons_self
      have found : (signature.param? name).isSome = true := declared
      rw [sortKeywords, if_pos found, unused, if_neg Bool.false_ne_true,
        ih restDistinct (Fields.fresh_insert distinct fresh)]
      simp [extras, declared]
    · have missing : ¬(signature.param? name).isSome = true := declared
      rw [sortKeywords, if_neg missing]
      by_cases accepts : signature.acceptsExtra = true
      · rw [if_pos accepts, ih restDistinct fun other member =>
          fresh other (List.mem_cons_of_mem _ member)]
        simp [extras, declared, accepts]
      · rw [if_neg accepts]
        simp [extras, declared, accepts]

/-! ## Filling parameters -/

/-- Values for the parameters that get one, and the parameters that get none. -/
theorem fill_eq {params : List Property} {given : Fields Value}
    (distinct : (params.map Property.name).Nodup) :
    fill params given =
      (params.filterMap fun param => (param.supplied given).map fun value => (param.name, value),
        params.filter fun param => (param.supplied given).isNone) := by
  induction params generalizing given with
  | nil => rfl
  | cons param rest ih =>
    simp only [List.map_cons, List.nodup_cons] at distinct
    -- A value is used up by the parameter of its name; the others do not see the difference.
    have unaffected : ∀ other ∈ rest,
        other.supplied (Fields.erase given param.name) = other.supplied given := by
      intro other member
      apply Property.supplied_congr
      have different : other.name ≠ param.name := by
        intro same
        exact distinct.1 (same ▸ List.mem_map_of_mem member)
      rw [Fields.get?_erase, if_neg different]
    have filled : (rest.filterMap fun other =>
          (other.supplied (Fields.erase given param.name)).map fun value => (other.name, value)) =
        rest.filterMap fun other =>
          (other.supplied given).map fun value => (other.name, value) :=
      List.filterMap_congr fun other member => by rw [unaffected other member]
    have missing : (rest.filter fun other =>
          (other.supplied (Fields.erase given param.name)).isNone) =
        rest.filter fun other => (other.supplied given).isNone :=
      List.filter_congr fun other member => by rw [unaffected other member]
    rw [fill, ih distinct.2, filled, missing]
    cases found : Fields.get? given param.name with
    | some value => simp [Property.supplied, found]
    | none =>
      cases default : param.default with
      | value value => simp [Property.supplied, found, default]
      | required => simp [Property.supplied, found, default]

/-! ## Binding -/

/-- What keywords supply to a parameter is found among the keywords that name parameters. -/
theorem supplied_filter_declares {signature : Signature} {keywords : Fields Value}
    {param : Property} (member : param ∈ signature.params) :
    param.supplied (keywords.filter fun entry => signature.declares entry.1) =
      param.supplied keywords := by
  apply Property.supplied_congr
  have declared : signature.declares param.name = true := declares_iff.mpr ⟨param, member, rfl⟩
  rw [Fields.get?_filter, if_pos declared]

theorem fill_declared {signature : Signature} (keywords : Fields Value)
    (params : signature.DistinctParams) :
    fill signature.params (keywords.filter fun entry => signature.declares entry.1) =
      (signature.params.filterMap fun param =>
          (param.supplied keywords).map fun value => (param.name, value),
        signature.params.filter fun param => (param.supplied keywords).isNone) := by
  rw [fill_eq params]
  congr 1
  · exact List.filterMap_congr fun param member => by rw [supplied_filter_declares member]
  · exact List.filter_congr fun param member => by rw [supplied_filter_declares member]

theorem filterMap_supplied {params : List Property} {keywords : Fields Value}
    (all : ∀ param ∈ params, param.supplied keywords ≠ none) :
    (params.filterMap fun param => (param.supplied keywords).map fun value => (param.name, value)) =
      params.map fun param => (param.name, (param.supplied keywords).getD .null) := by
  induction params with
  | nil => rfl
  | cons param rest ih =>
    have first := all param List.mem_cons_self
    obtain ⟨value, found⟩ := Option.ne_none_iff_exists'.mp first
    rw [List.filterMap_cons, List.map_cons,
      ih fun other member => all other (List.mem_cons_of_mem _ member)]
    simp [found]

theorem distinct_filter {keywords : Fields Value} (distinct : Fields.Distinct keywords)
    (keep : String × Value → Bool) : Fields.Distinct (keywords.filter keep) :=
  distinct.sublist (List.Sublist.map _ List.filter_sublist)

/-- Without positional arguments, binding sorts the keywords and fills in what is missing. -/
theorem bind_keywords (signature : Signature) (keywords : Fields Value) :
    signature.bind { keyword := keywords } =
      (do
        let (given, extra) ← signature.sortKeywords keywords [] []
        match fill signature.params given with
        | (filled, []) => return { declared := Fields.ofList filled, extra }
        | (_, first :: rest) =>
          throw ((refuse (.missingArguments signature.owner
            ((first :: rest).map Property.name))).atField first.external)) := by
  have few : ¬signature.params.length < ([] : List Value).length := Nat.not_lt_zero _
  have positional : (signature.params.map Property.name).zip ([] : List Value) = [] :=
    List.zip_nil_right
  simp only [bind, few, positional, if_false]
  rfl

theorem bind_ok_iff {signature : Signature} {keywords : Fields Value} {bound : Bound}
    (params : signature.DistinctParams) (distinct : Fields.Distinct keywords) :
    signature.bind { keyword := keywords } = .ok bound ↔
      signature.Accepts keywords ∧ bound = signature.boundTo keywords := by
  have sorting : ∀ sorted, _ := fun sorted =>
    @sortKeywords_ok_iff signature keywords [] [] sorted distinct (by simp [Fields.names])
  have declaredOnly : Fields.insertAll []
        (keywords.filter fun entry => signature.declares entry.1) =
      keywords.filter fun entry => signature.declares entry.1 :=
    Fields.ofList_of_distinct (distinct_filter distinct _)
  have extraOnly : Fields.insertAll [] (signature.extras keywords) = signature.extras keywords :=
    Fields.ofList_of_distinct (distinct_filter distinct _)
  rw [declaredOnly, extraOnly] at sorting
  rw [bind_keywords]
  cases outcome : signature.sortKeywords keywords [] [] with
  | error error =>
    have refused : ¬(signature.extras keywords ≠ [] → signature.acceptsExtra = true) := by
      intro accepted
      have sorted := (sorting _).mpr ⟨accepted, rfl⟩
      rw [outcome] at sorted
      cases sorted
    constructor
    · intro impossible
      cases impossible
    · rintro ⟨accepts, -⟩
      exact absurd accepts.extra refused
  | ok sorted =>
    obtain ⟨accepted, rfl⟩ := (sorting sorted).mp outcome
    simp only [Bind.bind, Except.bind, fill_declared keywords params]
    cases missing : signature.params.filter fun param => (param.supplied keywords).isNone with
    | nil =>
      have all : ∀ param ∈ signature.params, param.supplied keywords ≠ none := by
        simpa [List.filter_eq_nil_iff] using missing
      have distinctFilled : Fields.Distinct (signature.boundTo keywords).declared := by
        simpa [Fields.Distinct, Fields.names, boundTo, Function.comp_def] using params
      have filled := Fields.ofList_of_distinct distinctFilled
      simp only [boundTo] at filled
      simp only [filterMap_supplied all, filled]
      constructor
      · intro equal
        cases equal
        exact ⟨⟨all, accepted⟩, rfl⟩
      · rintro ⟨-, rfl⟩
        rfl
    | cons first rest =>
      have unsupplied : first ∈ signature.params.filter fun param =>
          (param.supplied keywords).isNone := missing ▸ List.mem_cons_self
      rw [List.mem_filter, Option.isNone_iff_eq_none] at unsupplied
      constructor
      · intro impossible
        cases impossible
      · rintro ⟨accepts, -⟩
        exact absurd unsupplied.2 (accepts.supplied first unsupplied.1)

/-- Keywords that bind give what is bound, and no others are accepted. -/
theorem bind_cases {signature : Signature} {keywords : Fields Value}
    (params : signature.DistinctParams) (distinct : Fields.Distinct keywords) :
    signature.Accepts keywords ∧
        signature.bind { keyword := keywords } = .ok (signature.boundTo keywords) ∨
      ¬signature.Accepts keywords ∧
        ∃ error, signature.bind { keyword := keywords } = .error error := by
  cases outcome : signature.bind { keyword := keywords } with
  | ok bound =>
    obtain ⟨accepts, rfl⟩ := (bind_ok_iff params distinct).mp outcome
    exact .inl ⟨accepts, rfl⟩
  | error error =>
    refine .inr ⟨fun accepts => ?_, error, rfl⟩
    cases outcome.symm.trans ((bind_ok_iff params distinct).mpr ⟨accepts, rfl⟩)

/-! ## What is bound -/

theorem names_boundTo (signature : Signature) (keywords : Fields Value) :
    Fields.names (signature.boundTo keywords).declared = signature.params.map Property.name := by
  simp [Fields.names, boundTo, Function.comp_def]

theorem distinct_boundTo {signature : Signature} (params : signature.DistinctParams)
    (keywords : Fields Value) : Fields.Distinct (signature.boundTo keywords).declared := by
  rw [Fields.Distinct, names_boundTo]
  exact params

theorem get?_boundTo {signature : Signature} (params : signature.DistinctParams)
    (keywords : Fields Value) {param : Property} (member : param ∈ signature.params) :
    Fields.get? (signature.boundTo keywords).declared param.name =
      some ((param.supplied keywords).getD .null) :=
  Fields.get?_of_mem (distinct_boundTo params keywords)
    (List.mem_map.mpr ⟨param, member, rfl⟩)

theorem mem_extras {signature : Signature} {keywords : Fields Value} {entry : String × Value} :
    entry ∈ signature.extras keywords ↔
      entry ∈ keywords ∧ signature.declares entry.1 = false := by
  simp [extras]

theorem mem_names_extras {signature : Signature} {keywords : Fields Value} {name : String} :
    name ∈ Fields.names (signature.extras keywords) ↔
      name ∈ Fields.names keywords ∧ signature.declares name = false := by
  simp only [Fields.names, List.mem_map, mem_extras]
  constructor
  · rintro ⟨entry, ⟨member, undeclared⟩, rfl⟩
    exact ⟨⟨entry, member, rfl⟩, undeclared⟩
  · rintro ⟨⟨entry, member, rfl⟩, undeclared⟩
    exact ⟨entry, ⟨member, undeclared⟩, rfl⟩

end Signature

end TypedSchema
