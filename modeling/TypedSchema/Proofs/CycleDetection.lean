import TypedSchema.Proofs.Compile.Completing
import TypedSchema.Proofs.Compile.Rounds
import TypedSchema.Proofs.Compile.Searching

/-!
Detection of cycles. A document is refused for a circular reference only if the registration of some
name waits for itself in the end, and no such document compiles. What an object type refers to is
never waited for.
-/

namespace TypedSchema

namespace Compile

open Relation (TransGen)

variable {document : Document}

/-! ## References through object types -/

/-- The schemas inside an outer one at any depth, those of object types included. -/
inductive Below (owner : String) (outer : Definition) : Definition → String → Prop where
  | self : Below owner outer outer owner
  | part {middle inner : Definition} {name hint : String} {category : Category}
    (below : Below owner outer middle name) (shape : middle.shape = .ok category)
    (part : Part name middle category inner hint) : Below owner outer inner hint

/-- A schema that takes a name refers to a target, somewhere inside. -/
def Mentions (document : Document) (name target : String) : Prop :=
  ∃ outer category inner hint, Named document name outer category ∧
    Below name outer inner hint ∧ RefersTo inner target

/-- A name that an object type takes. -/
def IsObject (document : Document) (name : String) : Prop :=
  ∃ definition, Named document name definition .custom

theorem Within.toBelow {owner hint : String} {outer inner : Definition}
    (within : Within owner outer inner hint) : Below owner outer inner hint := by
  induction within with
  | self => exact .self
  | part _ shape _ part ih => exact ih.part shape part

/-- Only names of other types wait for what their schemas refer to. -/
theorem Awaits.mentions (apart : NamesApart document) {name target : String}
    (awaits : Awaits document name target) :
    Mentions document name target ∧ ¬IsObject document name := by
  obtain ⟨outer, category, inner, hint, named, within, refers⟩ := awaits
  refine ⟨⟨outer, category, inner, hint, named, within.toBelow, refers⟩, ?_⟩
  rintro ⟨definition, object⟩
  have same := apart _ _ _ _ _ object named
  subst same
  obtain ⟨rfl, -⟩ := within.eq_of_custom object.shape
  obtain ⟨own, shape, other, -⟩ := refers.category
  rw [object.shape] at shape
  cases shape
  exact other rfl

/-- Where all references are to listed definitions, a cycle is one of these. -/
theorem Cyclic.listed (references : ∀ name target, Awaits document name target →
    target ∈ Fields.names document.definitions) (cyclic : Cyclic document) :
    ∃ name ∈ Fields.names document.definitions, TransGen (Awaits document) name name := by
  obtain ⟨name, cycle⟩ := cyclic
  obtain ⟨last, -, closes⟩ := TransGen.tail'_iff.mp cycle
  exact ⟨name, references last name closes, cycle⟩

/-! ## Refusals -/

section

variable (apart : NamesApart document) {before : Workspace} {error : Error}
  (circular : Circular error)

include apart circular

theorem Fails.cyclic {layers : Nat} {asks : Workspace → Goal → Prop} {possible : Registry → Prop}
    (placed : ∀ workspace goal, asks workspace goal → GoalPlaced document goal)
    (fails : Fails document (solve (patternsOf document) layers []) asks possible before error) :
    Cyclic document := by
  cases fails with
  | hopeless _ _ own => exact absurd circular own
  | goal sound _ asked failed =>
    exact solve_circular apart layers [] _ _ sound (placed _ _ asked) nofun failed circular

theorem discoverAll_cyclic (start : Registered document before)
    (ran : (visitCustom (discover (solve (patternsOf document) (goalNesting document) []))
      (nesting document) 0).run before = .error error) : Cyclic document := by
  obtain ⟨name, between, ⟨⟨sound, -⟩, -⟩, member, failed⟩ := discoverAll_breaks start ran
  obtain ⟨held, known, category⟩ := group_known sound.distinct member
  have spec := solve_sound document (goalNesting document) []
  exact (discover_fails spec sound known category failed).cyclic apart circular
    fun _ _ asked => by cases asked; trivial

theorem bindAll_cyclic (binding : Binding document [] before)
    (ran : (visitCustom (bind (solve (patternsOf document) (goalNesting document) []))
      (nesting document) 0).run before = .error error) : Cyclic document := by
  obtain ⟨done, name, between, ⟨binding, -⟩, member, failed⟩ := bindAll_breaks binding ran
  obtain ⟨held, known, category⟩ := group_known binding.sound.distinct member
  have named := binding.sound.known name held known
  have spec := solve_sound document (goalNesting document) []
  rcases bind_fails spec binding.sound known category failed with fails | ⟨rfl, -⟩
  · refine fails.cyclic apart circular fun _ _ asked => ?_
    cases asked with
    | part part => exact named.placed.part named.shape (category ▸ part)
  · cases circular.choose_spec

/-- A registry cannot be filled for a circular reference only if there is one. -/
theorem fill_cyclic (sound : Sound document before) (empty : before.registry.entries = [])
    (ran : (fill document).run before = .error error) : Cyclic document := by
  have spec := solve_sound document (goalNesting document) []
  simp only [fill, run_bind_error] at ran
  rcases ran with failed | ⟨_, first, registered, failed | ⟨_, second, discovered, failed⟩⟩
  · refine (registerAll_fails spec sound failed).cyclic apart circular fun _ _ asked => ?_
    obtain ⟨_, -, rfl⟩ := asked
    trivial
  · exact discoverAll_cyclic apart circular (registerAll_registered sound registered).1 failed
  · obtain ⟨registering, listed⟩ := registerAll_ok spec sound registered
    have discovering := discoverAll_ok spec registering.sound discovered
    exact bindAll_cyclic apart circular (.start empty (registering.trans discovering)
      fun name member => discovering.entries.names (listed name member)) failed

end

end Compile

namespace Document

open Compile
open Relation (TransGen)

/-- Cycles are detected exactly. Where no two schemas take the same name, a document is refused for
a circular reference only if some name waits for itself in the end, and then it never compiles. If
every cycle of references passes through an object type, it is not refused for one. -/
theorem compile_detects_cycles {document : Document} (apart : NamesApart document) :
    (∀ name, document.compile = .error (.circularReference name) → Cyclic document) ∧
    (Cyclic document → ∀ registry, document.compile ≠ .ok registry) ∧
    ((∀ name, ¬TransGen (fun first second =>
        Mentions document first second ∧ ¬IsObject document first) name name) →
      ∀ name, document.compile ≠ .error (.circularReference name)) := by
  have sound : ∀ name, document.compile = .error (.circularReference name) → Cyclic document := by
    intro name refused
    have circular : Circular (.circularReference name) := ⟨name, rfl⟩
    rcases Outcomes.bind_error.mp refused with unclassified | ⟨known, classified, refused⟩
    · exact absurd circular (classify_error unclassified).not_circular
    obtain ⟨start, -⟩ := classify_ok classified
    rcases Outcomes.bind_error.mp refused with failed | ⟨⟨_, workspace⟩, filled, refused⟩
    · exact fill_cyclic apart circular start rfl failed
    -- What is filled is completed without fail.
    have filling := fill_ok start rfl filled
    obtain ⟨registry, completed⟩ := filling.sound.completes apart
      (workspace.group .passthrough ++ workspace.group .multiInheritance)
    simp only [completed] at refused
    cases refused
  refine ⟨sound, ?_, ?_⟩
  · intro cyclic registry compiled
    obtain ⟨workspace, made⟩ := compile_ok compiled
    exact made.not_cyclic apart cyclic
  · intro throughObjects name refused
    obtain ⟨start, cycle⟩ := sound name refused
    exact throughObjects start (cycle.lift id fun _ _ awaits => awaits.mentions apart)

/-- Feeds list entries, which are feeds again or texts; threads of posts go through an object type. -/
def feeds : Document where
  definitions := [
    ("Post", ⟨[("type", .string "object"),
      ("properties", .object [("Reply", .object [("$ref", .string "#/$defs/Post")])])]⟩),
    ("Feed", ⟨[("type", .string "array"),
      ("items", .object [("$ref", .string "#/$defs/Entry")])]⟩),
    ("Entry", ⟨[("oneOf", .array [.object [("$ref", .string "#/$defs/Feed")],
      .object [("type", .string "string")]])]⟩)]

/-- The name in a circle of references that an outcome tells of. -/
def circleOf? : Except Error Registry → Option String
  | .error (.circularReference name) => some name
  | _ => none

theorem eq_of_circleOf? {outcome : Except Error Registry} {name : String}
    (told : circleOf? outcome = some name) : outcome = .error (.circularReference name) := by
  cases outcome with
  | ok registry => cases told
  | error error => cases error <;> cases told; rfl

theorem compile_detects_cycles_feeds :
    NamesApart feeds ∧ (∃ name, feeds.compile = .error (.circularReference name)) ∧ Cyclic feeds ∧
      ∀ registry, feeds.compile ≠ .ok registry := by
  have apart : NamesApart feeds := namesApart_of_distinct (by decide +kernel)
  have refused : (circleOf? feeds.compile).isSome = true := by decide +kernel
  obtain ⟨name, told⟩ := Option.isSome_iff_exists.mp refused
  have failed := eq_of_circleOf? told
  obtain ⟨found, refuses, -⟩ := compile_detects_cycles apart
  have cyclic := found name failed
  exact ⟨apart, ⟨name, failed⟩, cyclic, refuses cyclic⟩

end Document

end TypedSchema
