import TypedSchema.Decode.Construct
import TypedSchema.Proofs.Outcomes
import TypedSchema.Proofs.Types.Bound

/-!
Binding by position and by keyword. An argument that is passed by position counts as one that is
passed under the name of the parameter in its place. So binding depends on what is passed under each
name and on the order of further keywords, but not on how it is passed.
-/

namespace TypedSchema

/-! ## Values by place -/

namespace Fields

variable {α : Type}

theorem names_zip (labels : List String) (values : List α) :
    names (labels.zip values) = labels.take values.length := by
  induction labels generalizing values with
  | nil => simp [names]
  | cons label labels ih =>
    cases values with
    | nil => rfl
    | cons value values => simpa [names] using ih values

theorem get?_zip {labels : List String} (distinct : labels.Nodup) (values : List α) {place : Nat}
    {label : String} (placed : labels[place]? = some label) :
    get? (labels.zip values) label = values[place]? := by
  induction labels generalizing values place with
  | nil => simp at placed
  | cons first labels ih =>
    rw [List.nodup_cons] at distinct
    cases values with
    | nil => simp
    | cons value values =>
      rw [List.zip_cons_cons, get?_cons]
      cases place with
      | zero =>
        obtain rfl : first = label := by simpa using placed
        simp
      | succ place =>
        rw [List.getElem?_cons_succ] at placed ⊢
        have different : label ≠ first :=
          fun same => distinct.1 (same ▸ List.mem_of_getElem? placed)
        rw [if_neg different, ih distinct.2 values placed]

theorem zip_append (labels : List String) {first : List α} (second : List α)
    (room : first.length ≤ labels.length) :
    labels.zip (first ++ second) =
      labels.zip first ++ (labels.drop first.length).zip second := by
  induction first generalizing labels with
  | nil => simp
  | cons value first ih =>
    cases labels with
    | nil => simp at room
    | cons label labels =>
      simpa using ih labels (by simpa using room)

end Fields

namespace Signature

variable {signature : Signature} {arguments other : Arguments}

/-- All arguments as keywords: those by position under the names of the first parameters. -/
def passed (signature : Signature) (arguments : Arguments) : Fields Value :=
  (signature.params.map Property.name).zip arguments.positional ++ arguments.keyword

/-- The names of the parameters that are passed by position. -/
def placed (signature : Signature) (arguments : Arguments) : List String :=
  (signature.params.map Property.name).take arguments.positional.length

theorem names_passed : Fields.names (signature.passed arguments) =
    signature.placed arguments ++ Fields.names arguments.keyword := by
  simp only [placed, ← Fields.names_zip]
  simp [passed, Fields.names]

theorem declares_name {name : String} (member : name ∈ signature.params.map Property.name) :
    signature.declares name = true :=
  declares_iff.mpr (List.mem_map.mp member)

theorem extras_passed :
    signature.extras (signature.passed arguments) = signature.extras arguments.keyword := by
  have none : signature.extras
      ((signature.params.map Property.name).zip arguments.positional) = [] := by
    rw [extras, List.filter_eq_nil_iff]
    intro entry member
    simp [declares_name (List.of_mem_zip member).1]
  rw [extras] at none
  rw [passed, extras, List.filter_append, none, List.nil_append, extras]

theorem distinct_passed (params : signature.DistinctParams) :
    Fields.Distinct (signature.passed arguments) ↔ Fields.Distinct arguments.keyword ∧
      ∀ name ∈ Fields.names arguments.keyword, name ∉ signature.placed arguments := by
  have placed : (signature.placed arguments).Nodup := params.sublist (List.take_sublist _ _)
  rw [Fields.Distinct, names_passed, List.nodup_append]
  constructor
  · rintro ⟨-, distinct, apart⟩
    exact ⟨distinct, fun name member held => apart name held name member rfl⟩
  · rintro ⟨distinct, apart⟩
    exact ⟨placed, distinct, fun name held _ member same => apart name (same ▸ member) held⟩

/-! ## Binding what is passed -/

theorem sortKeywords_append {first rest given extra : Fields Value}
    (distinct : Fields.Distinct first)
    (declared : ∀ name ∈ Fields.names first, signature.declares name = true)
    (fresh : ∀ name ∈ Fields.names first, name ∉ Fields.names given) :
    signature.sortKeywords (first ++ rest) given extra =
      signature.sortKeywords rest (Fields.insertAll given first) extra := by
  induction first generalizing given with
  | nil => rfl
  | cons entry first ih =>
    obtain ⟨name, value⟩ := entry
    have named : name ∈ Fields.names ((name, value) :: first) := List.mem_cons_self
    have found : (signature.param? name).isSome = true := declared name named
    have unused : Fields.has given name = false :=
      Fields.has_eq_false_iff.mpr (Fields.get?_eq_none_iff.mpr (fresh name named))
    rw [List.cons_append, sortKeywords, if_pos found, unused, if_neg Bool.false_ne_true,
      Fields.insertAll_cons]
    exact ih (Fields.distinct_cons.mp distinct).2
      (fun other member => declared other (List.mem_cons_of_mem _ member))
      (Fields.fresh_insert distinct fresh)

/-- Keywords for parameters sort only if nothing is given to these before. -/
theorem sortKeywords_fresh {keywords given extra : Fields Value}
    {sorted : Fields Value × Fields Value}
    (sorts : signature.sortKeywords keywords given extra = .ok sorted) :
    ∀ name ∈ Fields.names keywords, signature.declares name = true →
      name ∉ Fields.names given := by
  induction keywords generalizing given extra with
  | nil => nofun
  | cons entry rest ih =>
    obtain ⟨first, value⟩ := entry
    intro name member declared
    rw [sortKeywords] at sorts
    by_cases found : (signature.param? first).isSome = true
    · rw [if_pos found] at sorts
      split at sorts
      · cases sorts
      · rename_i unused
        rcases List.mem_cons.mp member with rfl | later
        · exact fun held => unused (Fields.has_iff.mpr held)
        · exact fun held => ih sorts name later declared (Fields.mem_names_insert.mpr (.inr held))
    · rw [if_neg found] at sorts
      split at sorts
      · rcases List.mem_cons.mp member with rfl | later
        · exact absurd declared found
        · exact ih sorts name later declared
      · cases sorts

theorem bind_passed (params : signature.DistinctParams)
    (few : arguments.positional.length ≤ signature.params.length) :
    signature.bind arguments = signature.bind { keyword := signature.passed arguments } := by
  have placed : Fields.names ((signature.params.map Property.name).zip arguments.positional) =
    (signature.params.map Property.name).take arguments.positional.length := Fields.names_zip _ _
  have distinctPlaced :
      Fields.Distinct ((signature.params.map Property.name).zip arguments.positional) := by
    rw [Fields.Distinct, placed]
    exact params.sublist (List.take_sublist _ _)
  rw [bind_keywords, bind_eq, if_neg (Nat.not_lt.mpr few), passed,
    sortKeywords_append distinctPlaced _ (fun _ _ => List.not_mem_nil)]
  · rfl
  · intro name member
    rw [placed] at member
    exact declares_name (List.mem_of_mem_take member)

/-- Binding succeeds if there are not too many arguments by position, nothing is passed twice, and
what is passed is accepted. -/
theorem bind_ok_iff_passed (params : signature.DistinctParams)
    (distinct : Fields.Distinct arguments.keyword) {bound : Bound} :
    signature.bind arguments = .ok bound ↔
      (arguments.positional.length ≤ signature.params.length ∧
        Fields.Distinct (signature.passed arguments) ∧
        signature.Accepts (signature.passed arguments)) ∧
      bound = signature.boundTo (signature.passed arguments) := by
  constructor
  · intro binds
    have few : arguments.positional.length ≤ signature.params.length := by
      by_contra many
      rw [bind_eq, if_pos (Nat.lt_of_not_le many)] at binds
      cases binds
    have once : Fields.Distinct (signature.passed arguments) := by
      refine (distinct_passed params).mpr ⟨distinct, fun name member held => ?_⟩
      have named := List.mem_of_mem_take held
      -- What is given by position is known when the keywords are sorted.
      rw [bind_eq, if_neg (Nat.not_lt.mpr few)] at binds
      obtain ⟨sorted, sorts, -⟩ := Outcomes.bind_ok.mp binds
      refine sortKeywords_fresh sorts name member (declares_name named) ?_
      rw [Fields.mem_names_ofList, Fields.names_zip]
      exact held
    rw [bind_passed params few, bind_ok_iff params once] at binds
    exact ⟨⟨few, once, binds.1⟩, binds.2⟩
  · rintro ⟨⟨few, once, accepts⟩, rfl⟩
    rw [bind_passed params few]
    exact (bind_ok_iff params once).mpr ⟨accepts, rfl⟩

/-! ## What binding asks for -/

/-- Arguments that can be bound. -/
structure Admits (signature : Signature) (arguments : Arguments) : Prop where
  few : arguments.positional.length ≤ signature.params.length
  once : ∀ name ∈ Fields.names arguments.keyword, name ∉ signature.placed arguments
  covered : ∀ name ∈ Fields.names arguments.keyword, signature.declares name = false →
    signature.acceptsExtra = true
  supplied : ∀ param ∈ signature.params, param.default = .required →
    param.name ∈ signature.placed arguments ∨ param.name ∈ Fields.names arguments.keyword

/-- The value of the parameter in some place: the one in that place, else its keyword, else its
default. -/
def value? (arguments : Arguments) (place : Nat) (param : Property) : Option Value :=
  arguments.positional[place]?.or (param.supplied arguments.keyword)

theorem supplied_ne_none {param : Property} {keywords : Fields Value} :
    param.supplied keywords ≠ none ↔
      (param.default = .required → param.name ∈ Fields.names keywords) := by
  cases found : Fields.get? keywords param.name with
  | some value =>
    have named := Fields.mem_names_iff.mpr ⟨value, found⟩
    simp [Property.supplied_of_get? found, named]
  | none =>
    have absent := Fields.get?_eq_none_iff.mp found
    cases default : param.default with
    | required => simp [Property.supplied, found, default, absent]
    | value value => simp [Property.supplied, found, default]

theorem accepts_passed :
    signature.Accepts (signature.passed arguments) ↔
      (∀ name ∈ Fields.names arguments.keyword, signature.declares name = false →
        signature.acceptsExtra = true) ∧
      ∀ param ∈ signature.params, param.default = .required →
        param.name ∈ signature.placed arguments ∨
          param.name ∈ Fields.names arguments.keyword := by
  have covered : (signature.extras (signature.passed arguments) ≠ [] →
      signature.acceptsExtra = true) ↔
      ∀ name ∈ Fields.names arguments.keyword, signature.declares name = false →
        signature.acceptsExtra = true := by
    rw [extras_passed]
    constructor
    · intro accepts name member undeclared
      obtain ⟨entry, listed, -⟩ := List.mem_map.mp (mem_names_extras.mpr ⟨member, undeclared⟩)
      exact accepts (List.ne_nil_of_mem listed)
    · intro accepts some
      obtain ⟨entry, listed⟩ := List.exists_mem_of_ne_nil _ some
      obtain ⟨member, undeclared⟩ := mem_extras.mp listed
      exact accepts entry.1 (Fields.name_mem member) undeclared
  have supplied : (∀ param ∈ signature.params,
      param.supplied (signature.passed arguments) ≠ none) ↔
      ∀ param ∈ signature.params, param.default = .required →
        param.name ∈ signature.placed arguments ∨
          param.name ∈ Fields.names arguments.keyword := by
    simp only [supplied_ne_none, names_passed, List.mem_append]
  rw [← covered, ← supplied]
  exact ⟨fun accepts => ⟨accepts.extra, accepts.supplied⟩, fun both => ⟨both.2, both.1⟩⟩

theorem bind_succeeds_iff (params : signature.DistinctParams)
    (distinct : Fields.Distinct arguments.keyword) :
    (∃ bound, signature.bind arguments = .ok bound) ↔ signature.Admits arguments := by
  simp only [bind_ok_iff_passed params distinct, distinct_passed params, accepts_passed]
  constructor
  · rintro ⟨_, ⟨few, ⟨-, once⟩, covered, supplied⟩, -⟩
    exact ⟨few, once, covered, supplied⟩
  · rintro ⟨few, once, covered, supplied⟩
    exact ⟨_, ⟨few, ⟨distinct, once⟩, covered, supplied⟩, rfl⟩

/-! ## What binding gives -/

theorem supplied_passed (params : signature.DistinctParams) {place : Nat} {param : Property}
    (listed : signature.params[place]? = some param) :
    param.supplied (signature.passed arguments) = value? arguments place param := by
  have named : (signature.params.map Property.name)[place]? = some param.name := by
    rw [List.getElem?_map, listed, Option.map_some]
  have found : Fields.get? (signature.passed arguments) param.name =
      arguments.positional[place]?.or (Fields.get? arguments.keyword param.name) := by
    rw [passed, Fields.get?_append, Fields.get?_zip params _ named]
  cases held : arguments.positional[place]? with
  | some value =>
    rw [held, Option.some_or] at found
    rw [Property.supplied_of_get? found, value?, held, Option.some_or]
  | none =>
    rw [held, Option.none_or] at found
    rw [Property.supplied_congr found, value?, held, Option.none_or]

theorem boundTo_passed (params : signature.DistinctParams)
    (accepts : signature.Accepts (signature.passed arguments)) :
    (signature.boundTo (signature.passed arguments)).declared.map some =
        signature.params.mapIdx (fun place param =>
          (value? arguments place param).map (param.name, ·)) ∧
      (signature.boundTo (signature.passed arguments)).extra =
        arguments.keyword.filter fun entry => !signature.declares entry.1 := by
  refine ⟨List.ext_getElem? fun place => ?_, extras_passed⟩
  rw [boundTo, List.map_map, List.getElem?_map, List.getElem?_mapIdx]
  cases listed : signature.params[place]? with
  | none => rfl
  | some param =>
    obtain ⟨value, supplied⟩ := Option.ne_none_iff_exists'.mp
      (accepts.supplied param (List.mem_of_getElem? listed))
    have same : param.supplied (signature.passed arguments) = value? arguments place param :=
      supplied_passed params listed
    simp [← same, supplied]

/-! ## Passing the same in another way -/

theorem Accepts.of_same {keywords others : Fields Value}
    (same : ∀ param : Property, param.supplied keywords = param.supplied others)
    (extras : signature.extras keywords = signature.extras others)
    (accepts : signature.Accepts keywords) : signature.Accepts others where
  supplied := fun param member => same param ▸ accepts.supplied param member
  extra := extras ▸ accepts.extra

/-- The same arguments: the keywords for parameters in any order among all keywords, and those for
the next parameters by position, with the values `moved`. -/
structure Rearranged (signature : Signature) (moved : List Value) (arguments other : Arguments) :
    Prop where
  positional : other.positional = arguments.positional ++ moved
  room : moved.length ≤ signature.params.length - arguments.positional.length
  keyword : arguments.keyword.Perm
    (((signature.params.map Property.name).drop arguments.positional.length).zip moved ++
      other.keyword)
  extras : signature.extras arguments.keyword = signature.extras other.keyword

namespace Rearranged

variable {moved : List Value}

theorem few (rearranged : signature.Rearranged moved arguments other) :
    other.positional.length ≤ signature.params.length ↔
      arguments.positional.length ≤ signature.params.length := by
  have room := rearranged.room
  rw [rearranged.positional, List.length_append]
  omega

theorem passed_perm (rearranged : signature.Rearranged moved arguments other)
    (few : arguments.positional.length ≤ signature.params.length) :
    (signature.passed arguments).Perm (signature.passed other) := by
  rw [passed, passed, rearranged.positional,
    Fields.zip_append _ moved (by simpa using few), List.append_assoc]
  exact rearranged.keyword.append_left _

theorem distinct (rearranged : signature.Rearranged moved arguments other)
    (distinct : Fields.Distinct arguments.keyword) : Fields.Distinct other.keyword := by
  have names := (rearranged.keyword.map Prod.fst).nodup_iff.mp distinct
  rw [List.map_append, List.nodup_append] at names
  exact names.2.1

/-- Binding looks at what is passed under each name, and at the order of further keywords. -/
theorem bind_ok_iff (rearranged : signature.Rearranged moved arguments other)
    (params : signature.DistinctParams) (distinct : Fields.Distinct arguments.keyword)
    (bound : Bound) :
    signature.bind other = .ok bound ↔ signature.bind arguments = .ok bound := by
  rw [bind_ok_iff_passed params distinct, bind_ok_iff_passed params (rearranged.distinct distinct),
    rearranged.few]
  by_cases few : arguments.positional.length ≤ signature.params.length
  · have perm := rearranged.passed_perm few
    have once : Fields.Distinct (signature.passed other) ↔
        Fields.Distinct (signature.passed arguments) := (perm.map Prod.fst).nodup_iff.symm
    rw [once]
    -- Where a name is passed twice, neither can be bound, and what is found under it may differ.
    by_cases held : Fields.Distinct (signature.passed arguments)
    · have same : ∀ param : Property,
          param.supplied (signature.passed other) = param.supplied (signature.passed arguments) :=
        fun param => Property.supplied_congr (Fields.get?_of_perm held perm.symm param.name)
      have extras : signature.extras (signature.passed other) =
          signature.extras (signature.passed arguments) := by
        rw [extras_passed, extras_passed, rearranged.extras]
      have bounds : signature.boundTo (signature.passed other) =
          signature.boundTo (signature.passed arguments) := by
        simp only [boundTo, same, extras]
      have accepts : signature.Accepts (signature.passed other) ↔
          signature.Accepts (signature.passed arguments) :=
        ⟨Accepts.of_same same extras, Accepts.of_same (fun param => (same param).symm) extras.symm⟩
      rw [bounds, accepts]
    · simp [held]
  · simp [few]

end Rearranged

/-- Both ways to fill attributes do the same, or both fail before the first attribute. -/
def FillAlike (first second : Fields Value → Filling (Fields Value)) : Prop :=
  first = second ∨ ∀ assigned, ∃ error refused,
    first assigned = throw ⟨error, assigned⟩ ∧ second assigned = throw ⟨refused, assigned⟩

theorem invoke_alike (same : ∀ bound,
      signature.bind other = .ok bound ↔ signature.bind arguments = .ok bound)
    (registry : Registry) (cast : Cast) (type : String) :
    FillAlike (Decode.invoke registry cast type signature other)
      (Decode.invoke registry cast type signature arguments) := by
  cases binds : signature.bind arguments with
  | ok bound =>
    refine .inl (funext fun assigned => ?_)
    rw [Decode.invoke, Decode.invoke, binds, (same bound).mpr binds]
  | error refused =>
    cases others : signature.bind other with
    | ok bound =>
      have := (same bound).mp others
      rw [binds] at this
      cases this
    | error error =>
      refine .inr fun assigned => ⟨error, refused, ?_, ?_⟩
      · rw [Decode.invoke, others]
      · rw [Decode.invoke, binds]

/-- Binding succeeds exactly if there are at most as many arguments by position as parameters, no
keyword names a parameter that is filled by position, keywords that name no parameter are accepted,
and every required parameter is supplied. Then the parameters are listed in order, each with its
argument by position, else its keyword, else its default, and the further keywords are listed as
they were passed. The same arguments passed in another way bind alike and fill the same
attributes. -/
theorem bind_spec {signature : Signature} {arguments : Arguments}
    (params : signature.DistinctParams) (distinct : Fields.Distinct arguments.keyword) :
    ((∃ bound, signature.bind arguments = .ok bound) ↔ signature.Admits arguments) ∧
    (∀ bound, signature.bind arguments = .ok bound →
      bound.declared.map some = signature.params.mapIdx (fun place param =>
        (value? arguments place param).map (param.name, ·)) ∧
      bound.extra = arguments.keyword.filter fun entry => !signature.declares entry.1) ∧
    ∀ moved other, signature.Rearranged moved arguments other →
      (∀ bound, signature.bind other = .ok bound ↔ signature.bind arguments = .ok bound) ∧
      ∀ registry cast type, FillAlike (Decode.invoke registry cast type signature other)
        (Decode.invoke registry cast type signature arguments) := by
  refine ⟨bind_succeeds_iff params distinct, fun bound binds => ?_,
    fun moved other rearranged => ?_⟩
  · obtain ⟨⟨-, -, accepts⟩, rfl⟩ := (bind_ok_iff_passed params distinct).mp binds
    exact boundTo_passed params accepts
  · have same := rearranged.bind_ok_iff params distinct
    exact ⟨same, invoke_alike same⟩

/-- The signature `Sample(name, mass = None, **kwargs)`. -/
def sampleSignature : Signature where
  owner := "Sample"
  params :=
    [⟨"name", "Name", .identity, .any, .required⟩, ⟨"mass", "Mass", .identity, .any, .value .null⟩]
  catchAll := some ⟨.identity, .any⟩

def sampleByKeyword : Arguments where
  keyword := [("note", .null), ("mass", .bool true), ("name", .bool false)]

def sampleByPosition : Arguments where
  positional := [.bool false]
  keyword := [("mass", .bool true), ("note", .null)]

theorem bind_spec_sample :
    sampleSignature.Admits sampleByKeyword ∧
      sampleSignature.Rearranged [.bool false] sampleByKeyword sampleByPosition ∧
      sampleSignature.bind sampleByPosition =
        .ok ⟨[("name", .bool false), ("mass", .bool true)], [("note", .null)]⟩ := by
  have binds : sampleSignature.bind sampleByKeyword =
      .ok ⟨[("name", .bool false), ("mass", .bool true)], [("note", .null)]⟩ := rfl
  have rearranged : sampleSignature.Rearranged [.bool false] sampleByKeyword sampleByPosition :=
    ⟨rfl, by decide, (List.reverse_perm sampleByKeyword.keyword).symm, rfl⟩
  have spec := @bind_spec sampleSignature sampleByKeyword (by decide) (by decide)
  exact ⟨spec.1.mp ⟨_, binds⟩, rearranged, ((spec.2.2 _ _ rearranged).1 _).mpr binds⟩

end Signature

end TypedSchema
