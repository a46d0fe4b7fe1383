import TypedSchema.Proofs.Compile.Agreeing
import TypedSchema.Proofs.Compile.Ending
import TypedSchema.Proofs.Compile.Searching

/-!
Goals that are solved. Once a document has compiled it is known that everything in it can be made,
so whoever resolves its schemas, in whatever order, can only be stopped by a cycle, by a name that is
not known, or by too few layers. Where references are to listed definitions the names are known, and
there are layers enough.
-/

namespace TypedSchema.Compile

variable {document : Document}

/-! ## Layers -/

/-- The listed names whose registration is not under way. -/
def waitingNames (document : Document) (resolving : List String) : List String :=
  (Fields.names document.definitions).filter fun name => !resolving.contains name

/-- The layers that go into listed definitions which are still to be entered. -/
def reserve (document : Document) (resolving : List String) : Nat :=
  (waitingNames document resolving).length * (2 * nesting document + 2)

/-- Goals for which there are layers enough: besides the reserve, each level of nesting takes a layer
for the schema and one for the type made of it. -/
inductive Affordable (document : Document) (resolving : List String) (layers : Nat) :
    Goal → Prop where
  | listed {name : String} (member : name ∈ Fields.names document.definitions)
    (enough : reserve document resolving < layers) :
    Affordable document resolving layers (.named name)
  | nested {name : String} {definition : Definition} {category : Category}
    (named : Named document name definition category)
    (enough : reserve document resolving + 2 * definition.toJson.depth < layers) :
    Affordable document resolving layers (.named name)
  | inline {definition : Definition} {hint : String} (placed : Placed document definition hint)
    (enough : reserve document resolving + 2 * definition.toJson.depth + 1 < layers) :
    Affordable document resolving layers (.inline definition hint)

theorem Affordable.pos {resolving : List String} {layers : Nat} {goal : Goal}
    (affordable : Affordable document resolving layers goal) : 0 < layers := by
  cases affordable with
  | listed _ enough => omega
  | nested _ enough => omega
  | inline _ enough => omega

theorem reserve_cons_le (name : String) (resolving : List String) :
    reserve document (name :: resolving) ≤ reserve document resolving :=
  allowance_cons_le name resolving

theorem reserve_enter {name : String} {resolving : List String}
    (member : name ∈ Fields.names document.definitions) (free : name ∉ resolving) :
    reserve document (name :: resolving) + (2 * nesting document + 2) ≤
      reserve document resolving :=
  allowance_enter member free

/-! ## Goals that are asked for -/

/-- Goals that a workspace knows all about: a name is known, and a schema denotes something by what
is registered in the end. -/
def Ready (document : Document) (registry : Registry) (workspace : Workspace) : Goal → Prop
  | .named name => name ∈ Fields.names workspace.known
  | .inline definition hint =>
    ∃ resolved, Denotes False (patternsOf document) registry definition hint resolved

theorem Made.mono {before after : Registry} (extended : Extends before after) {name : String}
    {definition : Definition} {category : Category} {resolved : Resolved}
    {lineage : Option Lineage}
    (made : Made document before name definition category resolved lineage) :
    Made document after name definition category resolved lineage := by
  cases made with
  | custom => exact .custom
  | enumeration read => exact .enumeration read
  | heir referred present typed => exact .heir referred (extended _ _ present) typed
  | synonym referred present other => exact .synonym referred (extended _ _ present) other
  | combined each => exact .combined (each.imp fun _ _ => ParentMade.mono extended)
  | shaped inPlace other inner => exact .shaped inPlace other (inner.mono extended)

section

variable {one : Workspace} {first : Registry} (compiled : Compiled document one first)
  (apart : NamesApart document)

include compiled apart

/-- Everything that takes a name was made. -/
theorem Compiled.made {name : String} {definition : Definition} {category : Category}
    (named : Named document name definition category) :
    ∃ resolved lineage, Made document one.registry name definition category resolved lineage := by
  obtain ⟨past, resolved, lineage, order, made⟩ :=
    compiled.sound.history apart named (compiled.registered apart named)
  exact ⟨resolved, lineage, made.mono order.entries⟩

theorem Compiled.refers {definition : Definition} {name target : String}
    (placed : Placed document definition name) (refers : RefersTo definition target) :
    target ∈ Fields.names one.registry.entries := by
  obtain ⟨category, shape, -⟩ := refers.category
  have own : Named document name definition category →
      target ∈ Fields.names one.registry.entries := by
    intro named
    obtain ⟨resolved, lineage, made⟩ := compiled.made apart named
    exact made.refers shape refers
  rcases compiled.stands apart placed with listed | ⟨resolved, denotes⟩
  · exact own ⟨placed, shape, .inl listed⟩
  · by_cases anonymous : isAnonymous category = true
    · exact own ⟨placed, shape, .inr anonymous⟩
    · exact (denotes.of_shape shape).refers (by simpa using anonymous) shape refers

variable (references : ReferencesListed document)

include references

theorem Compiled.target_listed {definition : Definition} {name target : String}
    (placed : Placed document definition name) (refers : RefersTo definition target) :
    target ∈ Fields.names document.definitions := by
  obtain ⟨entry, present⟩ := Fields.mem_names_iff.mp (compiled.refers apart placed refers)
  exact references _ _ _ _ _ placed refers (compiled.sound.named_of_registered present)

section

variable {owner : String} {definition : Definition} (placed : Placed document definition owner)
  {workspace : Workspace} {goal : Goal} (asked : Asked owner definition workspace goal)

include placed asked

/-- What a schema asks for is ready where all that is listed is known. -/
theorem Asked.ready
    (known : ∀ name ∈ Fields.names document.definitions, name ∈ Fields.names workspace.known) :
    Ready document one.registry workspace goal := by
  cases asked with
  | reference refers => exact known _ (compiled.target_listed apart references placed refers)
  | part shape _ part => exact compiled.part_stands apart placed shape part
  | parent _ _ held => exact held

/-- What a schema asks for takes fewer layers than the schema. -/
theorem Asked.affordable {resolving : List String} {layers : Nat}
    (enough : reserve document resolving + 2 * definition.toJson.depth ≤ layers) :
    Affordable document resolving layers goal := by
  cases asked with
  | reference refers =>
    have deep := depth_pos definition
    exact .listed (compiled.target_listed apart references placed refers) (by omega)
  | part shape _ part =>
    have smaller := part.inside.depth_lt
    exact .inline (placed.part shape part) (by omega)
  | parent shape part =>
    have smaller := part.inside.depth_lt
    have inside := placed.part shape part
    cases part with
    | parent _ _ own anonymous => exact .nested ⟨inside, own, .inr anonymous⟩ (by omega)

end

/-- Only a cycle can stop a goal that is ready and for which there are layers enough. -/
theorem solve_stopped (layers : Nat) (resolving : List String) (goal : Goal) (before : Workspace)
    {error : Error} (sound : Sound document before)
    (known : ∀ name ∈ Fields.names document.definitions, name ∈ Fields.names before.known)
    (ready : Ready document one.registry before goal)
    (affordable : Affordable document resolving layers goal)
    (ran : (solve (patternsOf document) layers resolving goal).run before = .error error) :
    Circular error := by
  induction layers generalizing resolving goal before with
  | zero => exact absurd affordable.pos (Nat.lt_irrefl _)
  | succ layers ih =>
    have spec := solve_sound document layers
    cases goal with
    | named name =>
      cases resolveNamed_fails sound spec ran with
      | circular _ _ same => exact ⟨name, same⟩
      | unknown _ absent _ => exact absurd ready absent
      | @inside held _ free found fails =>
        have named := sound.known name held found
        -- Entering the definition leaves layers for what stands in it.
        have enough : reserve document (name :: resolving) + 2 * held.definition.toJson.depth ≤
            layers := by
          cases affordable with
          | listed member enough =>
            have entered := reserve_enter member free
            have deep := named.placed.depth_le
            omega
          | nested own enough =>
            have same := apart _ _ _ _ _ own named
            subst same
            have entered := @reserve_cons_le document name resolving
            omega
        cases fails with
        | hopeless later never =>
          obtain ⟨resolved, lineage, made⟩ := compiled.made apart named
          exact absurd ⟨resolved, lineage, made⟩
            (never one.registry (compiled.extends_sound apart later))
        | goal later grown asked failed =>
          have still := fun name member =>
            (List.IsPrefix.map Prod.fst grown).subset (known name member)
          exact ih (name :: resolving) _ _ later still
            (asked.ready compiled apart references named.placed still)
            (asked.affordable compiled apart references named.placed enough) failed
    | inline definition hint =>
      cases affordable with
      | inline placed enough =>
        cases resolveShape_fails sound (spec resolving) placed ran with
        | hopeless later never =>
          exact absurd ready (never one.registry (compiled.extends_sound apart later))
        | goal later grown asked failed =>
          have still := fun name member =>
            (List.IsPrefix.map Prod.fst grown).subset (known name member)
          cases asked with
          | own shape anonymous held =>
            exact ih resolving (.named hint) _ later still held
              (.nested ⟨placed, shape, .inr anonymous⟩ (by omega)) failed
          | inner asked =>
            exact ih resolving _ _ later still
              (asked.ready compiled apart references placed still)
              (asked.affordable compiled apart references placed (by omega)) failed

end

end TypedSchema.Compile
