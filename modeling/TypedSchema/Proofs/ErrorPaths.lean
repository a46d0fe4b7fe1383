import TypedSchema.Proofs.Decode.Stopping
import TypedSchema.Proofs.FaultSurface
import TypedSchema.Proofs.KeyPreservation

/-!
The paths of errors about data. Casting comes from a document to each of its parts by a route: into
items, into the values of keys, and to the fields that dispatch. The error of a document that is not
decoded is about the part that casting came to, and it names the route as the keys on it are written
by the types that fill them in. Where these give back the keys of the document, the path of the error
leads to the part.
-/

namespace TypedSchema

/-! ## Parts of data -/

/-- The part of a value at the end of a path. -/
def Value.at? : DataPath → Value → Option Value
  | [], value => some value
  | .field name :: rest, .map entries => (Fields.get? entries name).bind (at? rest)
  | .index place :: rest, .list items => items[place]?.bind (at? rest)
  | _, _ => none

/-- What an error is about, and at which place of the data it says that this is. Everything is at the
place of the error but what is missing: the place of the object that lacks it comes before its
key. -/
inductive Error.About : DataPath → Value → Error → Prop where
  | argument {place : DataPath} {within : List String} {name : String} {type : TypeExpr}
    {refused : Mismatch} :
    About place refused.value (.type place within (.argument name type refused))
  | item {place : DataPath} {within : List String} {caster : Caster} {refused : Mismatch} :
    About place refused.value (.type place within (.item caster refused))
  | branch {place : DataPath} {within : List String} {target : String} {value : Value} :
    About place value (.type place within (.branch target value))
  | notConvertible {place : DataPath} {within : List String} {type : String} {value : Value} :
    About place value (.type place within (.notConvertible type value))
  | unexpected {place : DataPath} {within : List String} {owner key : String}
    {entries : Fields Value} (held : key ∈ Fields.names entries) :
    About place (.map entries)
      (.type place within (.unexpectedArgument owner (Naming.snake key)))
  | missing {place : DataPath} {within names : List String} {owner key : String}
    {entries : Fields Value} (absent : key ∉ Fields.names entries) :
    About place (.map entries)
      (.type (place ++ [.field key]) within (.missingArguments owner names))
  | noDiscriminator {place : DataPath} {property : String} {entries : Fields Value}
    (absent : property ∉ Fields.names entries) :
    About place (.map entries) (.key place (.noDiscriminator property))
  | notScalar {place : DataPath} {property : String} {value : Value} :
    About place value (.key place (.notScalar property value))
  | unmapped {place : DataPath} {property key : String} {value : Value}
    (stands : Decode.keyOf? value = some key) :
    About place value (.key place (.unmapped property key))
  | noCondition {place : DataPath} {entries : Fields Value} :
    About place (.map entries) (.value place .noCondition)

namespace Error.About

variable {place : DataPath} {part : Value} {error : Error}

theorem under (about : error.About place part) (step : PathStep) :
    (error.under step).About (step :: place) part := by
  cases about with
  | argument => exact .argument
  | item => exact .item
  | branch => exact .branch
  | notConvertible => exact .notConvertible
  | unexpected held => exact .unexpected held
  | missing absent => exact .missing absent
  | noDiscriminator absent => exact .noDiscriminator absent
  | notScalar => exact .notScalar
  | unmapped stands => exact .unmapped stands
  | noCondition => exact .noCondition

theorem rewithin {path : DataPath} {within : List String} {fault : TypeFault}
    (about : (Error.type path within fault).About place part) (others : List String) :
    (Error.type path others fault).About place part := by
  cases about with
  | argument => exact .argument
  | item => exact .item
  | branch => exact .branch
  | notConvertible => exact .notConvertible
  | unexpected held => exact .unexpected held
  | missing absent => exact .missing absent

theorem withinType (about : error.About place part) (type : String) :
    (error.withinType type).About place part := by
  cases error with
  | type path within fault =>
    simp only [Error.withinType]
    split
    · exact about
    · exact about.rewithin _
  | _ => exact about

end Error.About

/-! ## Routes -/

/-- A step on the way of casting into data: into an item, to the field of a discriminator, or into
the value of a key that a type reads and one of its leaves fills in. -/
inductive Crossing where
  | item (index : Nat)
  | tag (property : String)
  | entry (key type leaf : String)

namespace Crossing

/-- The step in the data. -/
def step : Crossing → PathStep
  | .item index => .index index
  | .tag property => .field property
  | .entry key _ _ => .field key

/-- The step as errors name it: a key is what the leaf that fills it in writes for its attribute. -/
def shown (registry : Registry) (names : NameTable) : Crossing → PathStep
  | .item index => .index index
  | .tag property => .field property
  | .entry key _ leaf => .field (registry.keyOf names leaf (Naming.snake key))

end Crossing

namespace Registry

/-- The routes by which casting comes from data to its parts. -/
inductive Visits (registry : Registry) : Caster → Value → List Crossing → Value → Prop where
  | here {caster : Caster} {value : Value} : Visits registry caster value [] value
  | item {caster : Caster} {items : List Value} {index : Nat} {item : Value}
    {route : List Crossing} {part : Value} (held : items[index]? = some item)
    (inner : Visits registry caster item route part) :
    Visits registry (.list caster) (.list items) (.item index :: route) part
  | tag {property : String} {branches : List (String × Branch Caster)} {data : Fields Value}
    {value : Value} (held : Fields.get? data property = some value) :
    Visits registry (.polymorph (.keyed property branches)) (.map data) [.tag property] value
  | branch {dispatcher : Dispatcher Caster} {data : Fields Value} {branch : Branch Caster}
    {route : List Crossing} {part : Value} (selected : dispatcher.select data = .ok branch)
    (inner : Visits registry branch.caster (.map data) route part) :
    Visits registry (.polymorph dispatcher) (.map data) route part
  | entry {name leaf key : String} {own : Composite} {step : Assignment} {entries : Fields Value}
    {route : List Crossing} {part : Value} (leafOf : registry.LeafOf name leaf)
    (present : Fields.get? registry.composites leaf = some own) (assigns : own.Assigns step)
    (named : step.name = Naming.snake key) (held : Fields.get? entries key = some step.value)
    (casted : (step.value.isNull || registry.conforms step.value step.type) = false)
    (inner : Visits registry step.caster step.value route part) :
    Visits registry (.composite name) (.map entries) (.entry key name leaf :: route) part

variable {registry : Registry}

/-- A route leads to its part. -/
theorem Visits.leads {caster : Caster} {value part : Value} {route : List Crossing}
    (visits : registry.Visits caster value route part) :
    value.at? (route.map Crossing.step) = some part := by
  induction visits with
  | here => rfl
  | item held _ ih =>
    rw [List.map_cons, Crossing.step, Value.at?, held]
    exact ih
  | tag held =>
    rw [List.map_cons, Crossing.step, Value.at?, held]
    rfl
  | branch _ _ ih => exact ih
  | entry _ _ _ _ held _ _ ih =>
    rw [List.map_cons, Crossing.step, Value.at?, held]
    exact ih

/-- If conversion leaves a key alone, it is special for the type that has read it. -/
def Read (registry : Registry) (names : NameTable) : Crossing → Prop
  | .entry key type _ => ∀ composite, Fields.get? registry.composites type = some composite →
    composite.Escapes key → key ∈ names.of type
  | _ => True

/-- Casting a value comes to the part that an error is about, having read all keys on the route, and
the error names the route. -/
def Traces (registry : Registry) (names : NameTable) (caster : Caster) (value : Value)
    (error : Error) : Prop :=
  ∃ route part, registry.Visits caster value route part ∧
    (∀ crossing ∈ route, registry.Read names crossing) ∧
    error.About (route.map (Crossing.shown registry names)) part

end Registry

/-- The value itself is refused, or a fault inside it is traced. -/
def Refusal.Traced (registry : Registry) (names : NameTable) (caster : Caster) (value : Value) :
    Refusal → Prop
  | .mismatch refused => refused.value = value
  | .nested error => error.IsFault → registry.Traces names caster value error

namespace Registry

variable {registry : Registry} {names : NameTable} {error : Error}

/-- A fault without a path is about the value itself. -/
theorem Traces.here {caster : Caster} {value : Value} (about : error.About [] value) :
    registry.Traces names caster value error :=
  ⟨[], value, .here, nofun, about⟩

theorem Traces.of_refusal {refusal : Refusal} {caster : Caster} {value : Value}
    (traced : refusal.Traced registry names caster value) {describe : Mismatch → TypeFault}
    (describes : ∀ refused : Mismatch,
      (Error.type [] [] (describe refused)).About [] refused.value)
    (fault : (refusal.toError describe).IsFault) :
    registry.Traces names caster value (refusal.toError describe) := by
  cases refusal with
  | mismatch refused =>
    have same : refused.value = value := traced
    exact .here (same ▸ describes refused)
  | nested error => exact traced fault

theorem Traces.item {caster : Caster} {items : List Value} {index : Nat} {item : Value}
    (traces : registry.Traces names caster item error) (held : items[index]? = some item) :
    registry.Traces names (.list caster) (.list items) (error.atIndex index) := by
  obtain ⟨route, part, visits, read, about⟩ := traces
  exact ⟨.item index :: route, part, .item held visits, List.forall_mem_cons.mpr ⟨trivial, read⟩,
    about.under _⟩

theorem Traces.branch {dispatcher : Dispatcher Caster} {data : Fields Value}
    {branch : Branch Caster} (traces : registry.Traces names branch.caster (.map data) error)
    (selected : dispatcher.select data = .ok branch) :
    registry.Traces names (.polymorph dispatcher) (.map data) error := by
  obtain ⟨route, part, visits, read, about⟩ := traces
  exact ⟨route, part, .branch selected visits, read, about⟩

theorem Traces.entry {name leaf key : String} {own : Composite} {step : Assignment}
    {entries : Fields Value} (traces : registry.Traces names step.caster step.value error)
    (leafOf : registry.LeafOf name leaf)
    (present : Fields.get? registry.composites leaf = some own) (assigns : own.Assigns step)
    (named : step.name = Naming.snake key) (held : Fields.get? entries key = some step.value)
    (casted : (step.value.isNull || registry.conforms step.value step.type) = false)
    (first : registry.Read names (.entry key name leaf)) :
    registry.Traces names (.composite name) (.map entries)
      (error.atField (registry.keyOf names leaf step.name)) := by
  obtain ⟨route, part, visits, read, about⟩ := traces
  rw [named]
  exact ⟨.entry key name leaf :: route, part,
    .entry leafOf present assigns named held casted visits,
    List.forall_mem_cons.mpr ⟨first, read⟩, about.under _⟩

theorem Traces.withinType {caster : Caster} {value : Value}
    (traces : registry.Traces names caster value error) (type : String) :
    registry.Traces names caster value (error.withinType type) := by
  obtain ⟨route, part, visits, read, about⟩ := traces
  exact ⟨route, part, visits, read, about.withinType type⟩

end Registry

namespace Decode

variable {registry : Registry} {cast : Cast} {names after : NameTable} {error : Error}

/-! ## Casts -/

/-- Whatever goes wrong in a cast of data is traced. -/
def TracingCast (registry : Registry) (cast : Cast) : Prop :=
  ∀ caster value names refusal after, value.Lifted → names.Sound →
    (cast caster value).run names = (.error refusal, after) →
      refusal.Traced registry after caster value

theorem select_traces {dispatcher : Dispatcher Caster} {data : Fields Value}
    (failed : dispatcher.select data = .error error) :
    registry.Traces names (.polymorph dispatcher) (.map data) error := by
  cases dispatcher with
  | keyed property branches =>
    simp only [Dispatcher.select] at failed
    split at failed
    · rename_i absent
      cases failed
      exact .here (.noDiscriminator (Fields.get?_eq_none_iff.mp absent))
    · rename_i value held
      split at failed
      · cases failed
        exact ⟨[.tag property], value, .tag held, List.forall_mem_singleton.mpr trivial, .notScalar⟩
      · rename_i key stands
        split at failed
        · cases failed
        · cases failed
          exact ⟨[.tag property], value, .tag held, List.forall_mem_singleton.mpr trivial,
            .unmapped stands⟩
  | conditional conditions =>
    simp only [Dispatcher.select] at failed
    split at failed
    · cases failed
    · cases failed
      exact .here .noCondition

section

variable (tracing : TracingCast registry cast)

include tracing

theorem castItems_traces (growing : GrowingCast cast) (sound : names.Sound) {caster : Caster}
    {items : List Value} (lifted : ∀ item ∈ items, item.Lifted)
    (ran : (castItems cast caster 0 items).run names = (.error error, after))
    (fault : error.IsFault) : registry.Traces after (.list caster) (.list items) error := by
  obtain ⟨place, item, start, refusal, held, grows, refused, rfl⟩ := castItems_error growing ran
  rw [Nat.zero_add] at fault ⊢
  have traced := tracing caster item start refusal after (lifted item (List.mem_of_getElem? held))
    (sound.grow grows) refused
  exact (Registry.Traces.of_refusal traced (fun _ => .item) fault.of_under).item held

theorem discriminate_traces (sound : names.Sound) {dispatcher : Dispatcher Caster}
    {data : Fields Value} (lifted : (Value.map data).Lifted)
    (ran : (discriminate cast dispatcher data).run names = (.error error, after))
    (fault : error.IsFault) :
    registry.Traces after (.polymorph dispatcher) (.map data) error := by
  cases discriminate_error.mp ran with
  | inl failed => exact select_traces failed.1
  | inr later =>
    obtain ⟨branch, refusal, selected, refused, rfl⟩ := later
    have traced := tracing branch.caster (.map data) names refusal after lifted sound refused
    exact (Registry.Traces.of_refusal traced (fun _ => .branch) fault).branch selected

end

section

variable (wellFormed : registry.WellFormed) {name : String} {composite : Composite}
  (present : Fields.get? registry.composites name = some composite) {entries : Fields Value}

include wellFormed present

/-- Attributes that do not bind are those of an object with a key too many or one too few. -/
theorem bind_about
    (failed : composite.signature.bind
      { keyword := Fields.ofList (composite.internalEntries entries) } = .error error) :
    error.About [] (.map entries) := by
  have own := (wellFormed.composites name composite present).2
  cases Signature.bind_error own.distinctParams (Fields.distinct_ofList _) failed with
  | inl unexpected =>
    obtain ⟨internal, listed, rfl⟩ := unexpected
    rw [Fields.mem_names_ofList] at listed
    obtain ⟨entry, member, rfl⟩ := List.mem_map.mp listed
    obtain ⟨key, held, attributed⟩ := Composite.mem_internalEntries member
    rw [← attributed, own.attributeOf_eq]
    exact .unexpected (Fields.name_mem held)
  | inr missing =>
    obtain ⟨param, member, absent, names, rfl⟩ := missing
    rw [own.params] at member
    obtain ⟨-, attributed⟩ := own.attributeOf_external (own.property_of_mem member)
    rw [Fields.mem_names_ofList] at absent
    have unheld : param.external ∉ Fields.names entries := by
      intro held
      obtain ⟨entry, listed, external⟩ := List.mem_map.mp held
      refine absent (List.mem_map.mpr
        ⟨(composite.attributeOf entry.1, entry.2), List.mem_map_of_mem listed, ?_⟩)
      rw [external, attributed]
    exact .missing unheld

theorem fromEntries_traces (tracing : TracingCast registry cast) (growing : GrowingCast cast)
    (sound : names.Sound) (lifted : (Value.map entries).Lifted)
    (ran : (fromEntries registry cast composite entries).run names = (.error error, after))
    (fault : error.IsFault) : registry.Traces after (.composite name) (.map entries) error := by
  obtain ⟨named, own⟩ := wellFormed.composites name composite present
  have settled := fromEntries_settled growing ran
  rw [named] at settled
  obtain ⟨cause, rfl, failed⟩ := fromEntries_error wellFormed growing sound present ran fault
  apply Registry.Traces.withinType
  cases failed with
  | inl unbound => exact .here (bind_about wellFormed present unbound)
  | inr later =>
    obtain ⟨leaf, leafOf, top, step, inner, topPresent, assigns, keyword, uncoerced, rfl⟩ := later
    -- The keyword is the value of a key of the object, which has this attribute.
    have listed := (Fields.mem_insertAll (Fields.mem_of_get? keyword)).resolve_right
      List.not_mem_nil
    obtain ⟨key, member, attributed⟩ := Composite.mem_internalEntries listed
    rw [own.attributeOf_eq] at attributed
    obtain ⟨start, refusal, grows, refused, rfl⟩ := uncoerced.refused
    cases lifted with
    | map distinct each =>
      have traced := tracing step.caster step.value start refusal after (each _ member)
        (sound.grow grows) refused
      have traces := Registry.Traces.of_refusal traced (fun _ => .argument)
        fault.of_withinType.of_under
      have read : registry.Read after (.entry key name leaf) := by
        intro other found escapes
        rw [present] at found
        cases found
        exact settled key (Fields.name_mem member) escapes
      exact traces.entry leafOf topPresent assigns attributed.symm
        (Fields.get?_of_mem distinct member) uncoerced.casted read

end

/-- One layer more is traced as the layers below it. -/
theorem castLayer_traces (wellFormed : registry.WellFormed) (tracing : TracingCast registry cast)
    (growing : GrowingCast cast) : TracingCast registry (castLayer registry cast) := by
  intro caster value names refusal after lifted sound ran
  cases caster with
  | identity => cases ran
  | scalar type =>
    simp only [castLayer] at ran
    split at ran
    · cases ran
    · cases ran
      rfl
  | list item =>
    cases lifted with
    | @list items each =>
      cases run_bind_error.mp ran with
      | inl failed =>
        obtain ⟨error, stopped, rfl⟩ := run_adapt_error.mp failed
        exact castItems_traces tracing growing sound each stopped
      | inr later =>
        obtain ⟨_, _, -, impossible⟩ := later
        cases impossible
    | _ =>
      cases ran
      rfl
  | enumeration name =>
    simp only [castLayer] at ran
    split at ran
    · rename_i error missing
      cases ran
      exact fun fault => absurd fault (Registry.found_no_fault missing)
    · split at ran
      · cases ran
      · cases ran
        rfl
  | composite name =>
    cases lifted with
    | @map entries distinct each =>
      obtain ⟨error, failed, rfl⟩ := run_adapt_error.mp ran
      rw [wellFormed.compositeNamed] at failed
      cases found : registry.composite name with
      | error missing =>
        rw [found] at failed
        cases failed
        exact fun fault => absurd fault (Registry.found_no_fault found)
      | ok composite =>
        rw [found, except_bind] at failed
        exact fromEntries_traces wellFormed (Registry.found_ok.mp found) tracing growing sound
          (.map distinct each) failed
    | _ =>
      cases ran
      rfl
  | polymorph dispatcher =>
    cases lifted with
    | map distinct each =>
      obtain ⟨error, failed, rfl⟩ := run_adapt_error.mp ran
      exact discriminate_traces tracing sound (.map distinct each) failed
    | _ =>
      cases ran
      rfl

theorem castWith_traces (wellFormed : registry.WellFormed) (layers : Nat) :
    TracingCast registry (castWith registry layers) := by
  induction layers with
  | zero =>
    intro caster value names refusal after _ _ ran
    cases ran
    exact fun fault => fault.elim
  | succ layers ih => exact castLayer_traces wellFormed ih (castWith_growing registry layers)

end Decode

/-! ## Decoding -/

namespace Registry

variable {registry : Registry} {names : NameTable}

/-- A key that a type declares is what the type writes for its attribute, whatever the special names
are. -/
theorem keyOf_declared (wellFormed : registry.WellFormed) {leaf key : String} {own : Composite}
    (present : Fields.get? registry.composites leaf = some own)
    (declared : own.declaring? key ≠ none) (names : NameTable) :
    registry.keyOf names leaf (Naming.snake key) = key := by
  have table := (wellFormed.composites leaf own present).2
  obtain ⟨property, found⟩ := Option.ne_none_iff_exists'.mp declared
  have held := table.property_of_mem (Composite.declaring?_mem found)
  rw [← table.attributeOf_eq, Composite.attributeOf_of_declared found]
  simp only [keyOf, present, Composite.externalName, Composite.property?, held]
  exact Composite.declaring?_external found

/-- The leaf that fills in a key gives it back: it declares the key, or writes it for its
attribute. -/
def Returns (registry : Registry) (names : NameTable) : Crossing → Prop
  | .entry key _ leaf =>
    (∃ own, registry.composite leaf = .ok own ∧ own.declaring? key ≠ none) ∨
      registry.keyOf names leaf (Naming.snake key) = key
  | _ => True

theorem Returns.shown (wellFormed : registry.WellFormed) {crossing : Crossing}
    (returns : registry.Returns names crossing) :
    crossing.shown registry names = crossing.step := by
  cases crossing with
  | item => rfl
  | tag => rfl
  | entry key type leaf =>
    refine congrArg PathStep.field ?_
    cases returns with
    | inl declared =>
      obtain ⟨own, found, declares⟩ := declared
      exact keyOf_declared wellFormed (found_ok.mp found) declares names
    | inr written => exact written

/-- A type that has read a key and fills it in itself gives it back if it carries it. -/
theorem Read.returns_iff (wellFormed : registry.WellFormed) (sound : names.Sound)
    {key type : String} (read : registry.Read names (.entry key type type)) {own : Composite}
    (present : Fields.get? registry.composites type = some own) :
    registry.Returns names (.entry key type type) ↔ own.Carries (names.of type) key := by
  have table := (wellFormed.composites type own present).2
  have written : own.returned (names.of type) key =
      registry.keyOf names type (Naming.snake key) := by
    rw [Composite.returned, Composite.internalName_fst (sound type), table.attributeOf_eq, keyOf,
      present]
  rw [← Composite.returned_iff table (sound type) (read own present), written]
  constructor
  · intro returns
    exact PathStep.field.inj (returns.shown wellFormed)
  · exact .inr

theorem decode_traces (wellFormed : registry.WellFormed) (sound : names.Sound) {name : String}
    {composite : Composite} (present : Fields.get? registry.composites name = some composite)
    {value : Value} (lifted : value.Lifted) {error : Error} {after : NameTable}
    (ran : (registry.decode name value).run names = (.error error, after))
    (fault : error.IsFault) : registry.Traces after (.composite name) value error := by
  have named := (wellFormed.composites name composite present).1
  rw [wellFormed.decode_eq present] at ran
  cases lifted with
  | map distinct each =>
    exact Decode.fromEntries_traces wellFormed present (Decode.castWith_traces wellFormed _)
      (Decode.castWith_growing registry _) sound (.map distinct each) ran fault
  | _ =>
    cases ran
    exact .here (.withinType .notConvertible _)

/-- An error about a part of data that casting comes to by a route. It names the route as the leaves
that fill in the keys write them. A type that fills in its own keys gives back those that it carries,
and where all keys are given back the place that the error names is the place of the part. -/
structure Located (registry : Registry) (names : NameTable) (name : String) (data : Value)
    (error : Error) (route : List Crossing) (part : Value) : Prop where
  visits : registry.Visits (.composite name) data route part
  leads : data.at? (route.map Crossing.step) = some part
  about : error.About (route.map (Crossing.shown registry names)) part
  carried : ∀ key type own, Crossing.entry key type type ∈ route →
    registry.composite type = .ok own →
      (registry.Returns names (.entry key type type) ↔ own.Carries (names.of type) key)
  placed : (∀ crossing ∈ route, registry.Returns names crossing) →
    error.About (route.map Crossing.step) part

theorem Traces.located (wellFormed : registry.WellFormed) (sound : names.Sound) {name : String}
    {data : Value} {error : Error} (traces : registry.Traces names (.composite name) data error) :
    ∃ route part, registry.Located names name data error route part := by
  obtain ⟨route, part, visits, read, about⟩ := traces
  refine ⟨route, part, visits, visits.leads, about, fun key type own member found => ?_,
    fun returns => ?_⟩
  · exact (read _ member).returns_iff wellFormed sound (found_ok.mp found)
  · have same : route.map (Crossing.shown registry names) = route.map Crossing.step :=
      List.map_congr_left fun crossing member => (returns crossing member).shown wellFormed
    exact same ▸ about

end Registry

namespace Document

/-- Whatever goes wrong when a document is decoded is located: the error is about a part of the
document and names the route to it. -/
theorem errors_located {document : Document} {registry : Registry}
    (compiled : document.compile = .ok registry)
    {before after : NameTable} (reached : registry.Reachable before) {name : String}
    {composite : Composite} (named : registry.compositeNamed name = .ok composite)
    (json : Json.Keyed) {error : Error}
    (ran : (registry.decode name (.ofJson json.val)).run before = (.error error, after)) :
    ∃ route part, registry.Located after name (.ofJson json.val) error route part := by
  obtain ⟨json, keyed⟩ := json
  have wellFormed := compile_wellFormed compiled
  have closed := compile_closed compiled
  have within := compile_reached compiled
  have sound := wellFormed.reachable_sound reached
  have grows := (registry.decode_growing name (.ofJson json)).of_run ran
  have fault : error.IsFault :=
    Registry.decode_fails wellFormed closed within named _ before error after ran
  have present := named
  rw [wellFormed.compositeNamed, Registry.composite, Registry.found_ok] at present
  have traces := Registry.decode_traces wellFormed sound present (Value.ofJson_lifted json keyed)
    ran fault
  exact traces.located wellFormed (sound.grow grows)

/-- Parts have further keys with numbers, tools are parts, and benches have tools. -/
def benches : Document where
  definitions := [
    ("Part", ⟨[
      ("type", .string "object"),
      ("additionalProperties", .object [("type", .string "integer")])]⟩),
    ("Tool", ⟨[("allOf", .array [.object [("$ref", .string "#/$defs/Part")]])]⟩),
    ("Bench", ⟨[
      ("type", .string "object"),
      ("properties", .object [
        ("Tools", .object [
          ("type", .string "array"), ("items", .object [("$ref", .string "#/$defs/Tool")])])])]⟩)]

/-- The place at which an argument is refused when a document is decoded first. -/
def refusedAt (registry : Registry) (name : String) (json : Json) : Option DataPath :=
  match ((registry.decode name (.ofJson json)).run registry.names).1 with
  | .error (.type path _ (.argument _ _ _)) => some path
  | _ => none

theorem refusedAt_ok {registry : Registry} {name : String} {json : Json} {path : DataPath}
    (refused : refusedAt registry name json = some path) :
    ∃ within argument type mismatch after,
      (registry.decode name (.ofJson json)).run registry.names =
        (.error (.type path within (.argument argument type mismatch)), after) := by
  unfold refusedAt at refused
  split at refused
  · rename_i within argument type mismatch outcome
    cases refused
    exact ⟨within, argument, type, mismatch, _, Prod.ext outcome rfl⟩
  · cases refused

/-- A bench with a tool whose key is given back. -/
def heavyBench : Json :=
  .object [("Tools", .array [.object [("SampleMass", .string "heavy")]])]

theorem errors_located_heavyBench :
    ∃ registry composite within argument type mismatch after, benches.compile = .ok registry ∧
      registry.Reachable registry.names ∧ registry.compositeNamed "Bench" = .ok composite ∧
      (registry.decode "Bench" (.ofJson heavyBench)).run registry.names =
        (.error (.type [.field "Tools", .index 0, .field "SampleMass"] within
          (.argument argument type mismatch)), after) ∧
      (Value.ofJson heavyBench).at? [.field "Tools", .index 0, .field "SampleMass"] =
        some (.string "heavy") ∧
      ∃ route part, registry.Located after "Bench" (.ofJson heavyBench)
        (.type [.field "Tools", .index 0, .field "SampleMass"] within
          (.argument argument type mismatch)) route part := by
  have refuses : ∃ registry ∈ benches.compile.toOption,
      ∃ _ ∈ (registry.compositeNamed "Bench").toOption,
        refusedAt registry "Bench" heavyBench =
          some [.field "Tools", .index 0, .field "SampleMass"] := by
    decide +kernel
  obtain ⟨registry, made, composite, found, refused⟩ := refuses
  have compiled := Outcomes.toOption_iff.mp made
  have named := Outcomes.toOption_iff.mp found
  obtain ⟨within, argument, type, mismatch, after, ran⟩ := refusedAt_ok refused
  exact ⟨registry, composite, within, argument, type, mismatch, after, compiled, .start, named,
    ran, rfl, errors_located compiled .start named ⟨heavyBench, by decide⟩ ran⟩

/-- A tool with a key that the parent, which fills it in, does not give back. -/
def heavyTool : Json :=
  .object [("sample_mass", .string "heavy")]

/-- The error of a tool names a place where there is nothing. -/
theorem tool_error_misplaced :
    ∃ registry within argument type mismatch after, benches.compile = .ok registry ∧
      (registry.decode "Tool" (.ofJson heavyTool)).run registry.names =
        (.error (.type [.field "SampleMass"] within (.argument argument type mismatch)), after) ∧
      (Value.ofJson heavyTool).at? [.field "SampleMass"] = none ∧
      (Value.ofJson heavyTool).at? [.field "sample_mass"] = some (.string "heavy") := by
  have refuses : ∃ registry ∈ benches.compile.toOption,
      refusedAt registry "Tool" heavyTool = some [.field "SampleMass"] := by
    decide +kernel
  obtain ⟨registry, made, refused⟩ := refuses
  obtain ⟨within, argument, type, mismatch, after, ran⟩ := refusedAt_ok refused
  exact ⟨registry, within, argument, type, mismatch, after, Outcomes.toOption_iff.mp made, ran, rfl,
    rfl⟩

end Document

end TypedSchema
