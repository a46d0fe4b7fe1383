import TypedSchema.Proofs.Decode.Casting
import TypedSchema.Proofs.Registry.Reach
import TypedSchema.Proofs.Values.Rereading

/-!
Dispatch on data that was written. A branch is chosen by tests of single fields, so data for which
the tests that were made come out as before takes the same branch.
-/

namespace TypedSchema

/-! ## Tests -/

namespace Decode

/-- Whether a field of the data holds a constant. -/
def hasConstant (data : Fields Value) (field : String) (constant : Value) : Bool :=
  match Fields.get? data field with
  | some value => sameConstant value constant
  | none => false

/-- The key that a field of the data stands for. -/
def keyOfField? (data : Fields Value) (field : String) : Option String :=
  (Fields.get? data field).bind keyOf?

end Decode

open Decode (hasConstant keyOfField?)

variable {κ : Type} {data other : Fields Value}

/-- Two data have the same of the constants of a condition. -/
def Condition.Alike (condition : Condition κ) (data other : Fields Value) : Prop :=
  ∀ entry ∈ condition.constants,
    hasConstant data entry.1 entry.2 = hasConstant other entry.1 entry.2

theorem Condition.Alike.holds {condition : Condition κ} (alike : condition.Alike data other) :
    condition.holds data = condition.holds other := by
  show (condition.constants.all fun entry => hasConstant data entry.1 entry.2) =
    condition.constants.all fun entry => hasConstant other entry.1 entry.2
  rw [Bool.eq_iff_iff, List.all_eq_true, List.all_eq_true]
  exact forall₂_congr fun entry member => by rw [alike entry member]

namespace Dispatcher

/-- Two data have the same of the constants of all conditions up to the first that holds. -/
def AlikeInOrder (data other : Fields Value) : List (Condition κ) → Prop
  | [] => True
  | condition :: rest =>
    condition.Alike data other ∧ (condition.holds data = false → AlikeInOrder data other rest)

/-- The tests that choose a branch for some data come out the same for other data. -/
def Alike (dispatcher : Dispatcher κ) (data other : Fields Value) : Prop :=
  match dispatcher with
  | .keyed property _ => keyOfField? data property = keyOfField? other property
  | .conditional conditions => AlikeInOrder data other conditions

theorem AlikeInOrder.find? {conditions : List (Condition κ)}
    (alike : AlikeInOrder data other conditions) :
    conditions.find? (·.holds other) = conditions.find? (·.holds data) := by
  induction conditions with
  | nil => rfl
  | cons condition rest ih =>
    rw [List.find?_cons, List.find?_cons, ← alike.1.holds]
    cases holds : condition.holds data with
    | true => rfl
    | false => exact ih (alike.2 holds)

theorem Alike.select {dispatcher : Dispatcher κ} (alike : dispatcher.Alike data other)
    {branch : Branch κ} (selected : dispatcher.select data = .ok branch) :
    dispatcher.select other = .ok branch := by
  cases dispatcher with
  | conditional conditions =>
    have same : conditions.find? (·.holds other) = conditions.find? (·.holds data) :=
      AlikeInOrder.find? alike
    rw [Dispatcher.select, same]
    exact selected
  | keyed property branches =>
    have same : keyOfField? data property = keyOfField? other property := alike
    unfold Dispatcher.select at selected
    simp only at selected
    split at selected
    · cases selected
    · rename_i value found
      split at selected
      · cases selected
      · rename_i key scalar
        rw [keyOfField?, keyOfField?, found, Option.bind_some, scalar, eq_comm,
          Option.bind_eq_some_iff] at same
        obtain ⟨again, read, sameKey⟩ := same
        rw [Dispatcher.select, read]
        simp only [sameKey]
        exact selected

/-- Data in which no tested field has changed is tested with the same outcome. -/
theorem Alike.of_fields {dispatcher : Dispatcher κ}
    (keyed : ∀ property branches, dispatcher = .keyed property branches →
      Fields.get? other property = Fields.get? data property)
    (conditional : ∀ conditions, dispatcher = .conditional conditions →
      ∀ condition ∈ conditions, ∀ entry ∈ condition.constants,
        Fields.get? other entry.1 = Fields.get? data entry.1) : dispatcher.Alike data other := by
  cases dispatcher with
  | keyed property branches =>
    show keyOfField? data property = keyOfField? other property
    rw [keyOfField?, keyOfField?, keyed property branches rfl]
  | conditional conditions =>
    have each := conditional conditions rfl
    show AlikeInOrder data other conditions
    clear keyed conditional
    induction conditions with
    | nil => trivial
    | cons condition rest ih =>
      refine ⟨fun entry member => ?_, fun _ => ih fun later listed =>
        each later (List.mem_cons_of_mem _ listed)⟩
      rw [hasConstant, hasConstant, each condition List.mem_cons_self entry member]

end Dispatcher

namespace Registry

/-! ## Dispatch inside data -/

/-- The maps that a branch is chosen for when plain data is cast, each with the dispatcher that
chooses and with what the map is cast to. -/
inductive Dispatches (registry : Registry) :
    Caster → Value → Value → Dispatcher Caster → Fields Value → Value → Prop where
  | self {dispatcher : Dispatcher Caster} {data : Fields Value} {result : Value} :
    Dispatches registry (.polymorph dispatcher) (.map data) result dispatcher data result
  | branch {outer dispatcher : Dispatcher Caster} {branch : Branch Caster}
    {data inside : Fields Value} {result outcome : Value}
    (selected : outer.select data = .ok branch)
    (inner : Dispatches registry branch.caster (.map data) result dispatcher inside outcome) :
    Dispatches registry (.polymorph outer) (.map data) result dispatcher inside outcome
  | item {caster : Caster} {items results : List Value} {item given : Value}
    {dispatcher : Dispatcher Caster} {inside : Fields Value} {outcome : Value}
    (member : (item, given) ∈ items.zip results)
    (inner : Dispatches registry caster item given dispatcher inside outcome) :
    Dispatches registry (.list caster) (.list items) (.list results) dispatcher inside outcome
  | declared {owner key : String} {composite : Composite} {property : Property}
    {members attributes inside : Fields Value} {value given outcome : Value}
    {dispatcher : Dispatcher Caster}
    (present : Fields.get? registry.composites owner = some composite)
    (member : (key, value) ∈ members)
    (declares : Fields.get? composite.properties (composite.attributeOf key) = some property)
    (casted : (value.isNull || registry.conforms value property.type) = false)
    (stored : Fields.get? attributes (composite.attributeOf key) = some given)
    (inner : Dispatches registry property.caster value given dispatcher inside outcome) :
    Dispatches registry (.composite owner) (.map members) (.object owner attributes) dispatcher
      inside outcome
  | undeclared {owner key : String} {composite : Composite} {catchAll : CatchAll}
    {members attributes inside : Fields Value} {value given outcome : Value}
    {dispatcher : Dispatcher Caster}
    (present : Fields.get? registry.composites owner = some composite)
    (member : (key, value) ∈ members)
    (undeclared : Fields.get? composite.properties (composite.attributeOf key) = none)
    (takes : composite.catchAll = some catchAll)
    (casted : (value.isNull || registry.conforms value catchAll.type) = false)
    (stored : Fields.get? attributes (composite.attributeOf key) = some given)
    (inner : Dispatches registry catchAll.caster value given dispatcher inside outcome) :
    Dispatches registry (.composite owner) (.map members) (.object owner attributes) dispatcher
      inside outcome

/-- Whatever a map was cast to by a dispatcher is written as an object again, and the tests that
chose the branch come out the same for it. -/
def DispatchesReturn (registry : Registry) (names : NameTable) (caster : Caster)
    (value result : Value) : Prop :=
  ∀ dispatcher inside outcome, registry.Dispatches caster value result dispatcher inside outcome →
    ∀ read, Value.Rereads (registry.keyOf names) outcome read →
      ∃ again, read = .map again ∧ dispatcher.Alike inside again

variable {registry : Registry}

/-- What a cast dispatches on is within its reach. -/
theorem Dispatches.reaches {caster : Caster} {value result outcome : Value}
    {dispatcher : Dispatcher Caster} {inside : Fields Value}
    (dispatches : registry.Dispatches caster value result dispatcher inside outcome) :
    registry.Reaches caster (.polymorph dispatcher) := by
  induction dispatches with
  | self => exact .self
  | branch selected _ ih => exact (Reaches.branch .self (Decode.select_mem selected)).trans ih
  | item _ _ ih => exact (Reaches.item .self).trans ih
  | declared present _ declares _ _ _ ih =>
    have listed := Fields.value_mem (Fields.mem_of_get? declares)
    exact (Reaches.property .self present listed).trans ih
  | undeclared present _ _ takes _ _ _ ih =>
    exact (Reaches.catchAll .self present takes).trans ih

end Registry

end TypedSchema
