import TypedSchema.Proofs.Compile.Filling

/-!
The order of definitions. Where references are to listed definitions, a document compiles in every
order of its definitions or in none, and in any case the registries of two orders hold the same. A
type made for a schema in its place can be referred to as well, but only once it has been made, and
that does depend on the order.
-/

namespace TypedSchema

namespace Compile

variable {document other : Document}

/-! ## Two orders -/

section

variable (reordered : other.definitions.Perm document.definitions)

include reordered

theorem Placed.reorder {definition : Definition} {name : String}
    (placed : Placed other definition name) : Placed document definition name := by
  induction placed with
  | listed listed => exact .listed (reordered.mem_iff.mp listed)
  | part _ shape part ih => exact ih.part shape part

theorem Named.reorder {name : String} {definition : Definition} {category : Category}
    (named : Named other name definition category) : Named document name definition category where
  placed := named.placed.reorder reordered
  shape := named.shape
  needed := named.needed.imp_left reordered.mem_iff.mp

theorem names_reorder {name : String} : name ∈ Fields.names other.definitions ↔
    name ∈ Fields.names document.definitions :=
  (reordered.map Prod.fst).mem_iff

theorem NamesApart.reorder (apart : NamesApart document) : NamesApart other :=
  fun name first second firstCategory secondCategory named also =>
    apart name first second firstCategory secondCategory (named.reorder reordered)
      (also.reorder reordered)

theorem ReferencesListed.reorder (references : ReferencesListed document) :
    ReferencesListed other :=
  fun definition name target inner category placed refers named =>
    (names_reorder reordered).mpr (references definition name target inner category
      (placed.reorder reordered) refers (named.reorder reordered))

theorem nesting_reorder : nesting other = nesting document := by
  refine Nat.le_antisymm (nesting_le_iff.mpr fun entry member => ?_)
    (nesting_le_iff.mpr fun entry member => ?_)
  · exact nesting_le_iff.mp (Nat.le_refl _) entry (reordered.mem_iff.mp member)
  · exact nesting_le_iff.mp (Nat.le_refl _) entry (reordered.mem_iff.mpr member)

theorem patternsOf_reorder : patternsOf other = patternsOf document := by
  simp only [patternsOf, Fields.get?_of_perm document.distinct reordered]

theorem fill_reorder : fill other = fill document := by
  have goals : goalNesting other = goalNesting document := by
    rw [goalNesting, goalNesting, nesting_reorder reordered, reordered.length_eq]
  rw [fill, fill, goals, nesting_reorder reordered, patternsOf_reorder reordered]

/-- Filling starts from what is known, in whatever order it is. -/
theorem Sound.reorder {known : Fields Classified} (start : Sound other { known }) :
    Sound document { known } where
  distinct := start.distinct
  known := fun name held found => (start.known name held found).reorder reordered
  entries := nofun
  composites := nofun
  enumerations := nofun
  typesKnown := ⟨nofun, nofun⟩
  tables := ⟨.nil, .nil, .nil⟩

end

/-! ## Compiling again -/

theorem classify_total (shaped : ∀ entry ∈ document.definitions,
    ∃ category, entry.2.shape = .ok category) : ∃ known, classify document = .ok known := by
  cases classified : classify document with
  | ok known => exact ⟨known, rfl⟩
  | error error =>
    exfalso
    obtain ⟨entry, member, failed⟩ := Outcomes.mapM_error classified
    obtain ⟨category, shape⟩ := shaped entry member
    simp only [shape] at failed
    cases failed

theorem classify_shaped {known : Fields Classified} (classified : classify document = .ok known) :
    ∀ entry ∈ document.definitions, ∃ category, entry.2.shape = .ok category := by
  intro entry member
  obtain ⟨held, -, made⟩ := Lists.result_of_source (Outcomes.mapM_ok classified) member
  cases shape : entry.2.shape with
  | ok category => exact ⟨category, rfl⟩
  | error error =>
    simp only [shape] at made
    cases made

section

variable (apart : NamesApart document) (reordered : other.definitions.Perm document.definitions)

include reordered

/-- What another order compiles to comes from a workspace of the document itself. -/
theorem compile_reorder_ok {registry : Registry} (root : other.root = document.root)
    (compiled : other.compile = .ok registry) :
    ∃ workspace, Compiled document workspace registry := by
  obtain ⟨known, workspace, complete, classified, filled, completed, rfl⟩ :=
    compile_eq_ok.mp compiled
  obtain ⟨start, names⟩ := classify_ok classified
  rw [fill_reorder reordered] at filled
  rw [root]
  exact ⟨workspace, .of_filled (start.reorder reordered)
    (fun name member => names ▸ (names_reorder reordered).mpr member) filled completed⟩

include apart

/-- A document that compiles does so in any other order, if references are to what it lists. -/
theorem compile_reorder_total (references : ReferencesListed document) {registry : Registry}
    (compiled : document.compile = .ok registry) : ∃ registry, other.compile = .ok registry := by
  obtain ⟨workspace, made⟩ := compile_ok compiled
  obtain ⟨_, _, _, classified, -⟩ := compile_eq_ok.mp compiled
  obtain ⟨known, again⟩ := @classify_total other fun entry member =>
    classify_shaped classified entry (reordered.mem_iff.mp member)
  obtain ⟨start, names⟩ := classify_ok again
  have known_listed : ∀ name ∈ Fields.names document.definitions, name ∈ Fields.names known :=
    fun name member => names ▸ (names_reorder reordered).mpr member
  obtain ⟨last, filled⟩ :=
    fill_total made apart references (start.reorder reordered) rfl known_listed
  have sound := (fill_ok (start.reorder reordered) rfl filled).sound
  obtain ⟨complete, completed⟩ := sound.completes apart
    (last.group .passthrough ++ last.group .multiInheritance)
  rw [← fill_reorder reordered] at filled
  exact ⟨_, compile_eq_ok.mpr ⟨known, last, complete, again, filled, completed, rfl⟩⟩

end

end Compile

namespace Document

open Compile

/-- Compilation does not depend on the order of definitions, as long as types that are made for
schemas in their place are not referred to: a document compiles in all orders or in none. Whatever
it refers to, the registries of two orders that compile differ in the order of their tables only. -/
theorem compile_reordered {document other : Document} (apart : NamesApart document)
    (reordered : other.definitions.Perm document.definitions)
    (root : other.root = document.root) :
    (ReferencesListed document →
      ((∃ registry, document.compile = .ok registry) ↔
        ∃ registry, other.compile = .ok registry)) ∧
    ∀ first second, document.compile = .ok first → other.compile = .ok second →
      first.SameContent second := by
  constructor
  · intro references
    constructor
    · rintro ⟨registry, compiled⟩
      exact compile_reorder_total apart reordered references compiled
    · rintro ⟨registry, compiled⟩
      exact compile_reorder_total (apart.reorder reordered) reordered.symm
        (references.reorder reordered) compiled
  · intro first second compiled compiledThere
    obtain ⟨one, made⟩ := compile_ok compiled
    obtain ⟨two, madeThere⟩ := compile_reorder_ok reordered root compiledThere
    exact made.sameContent apart madeThere

/-- The same definitions, the last of them first. -/
def reversed (document : Document) : Document where
  title := document.title
  definitions := document.definitions.reverse
  root := document.root
  distinct := by
    rw [Fields.Distinct, Fields.names, List.map_reverse, List.nodup_reverse]
    exact document.distinct

/-- Shelves of books with their authors; novels are books with a genre, and copies are books again. -/
def library : Document where
  definitions := [
    ("Shelf", ⟨[("type", .string "array"),
      ("items", .object [("$ref", .string "#/$defs/Novel")])]⟩),
    ("Novel", ⟨[("allOf", .array [.object [("$ref", .string "#/$defs/Copy")],
      .object [("type", .string "object"),
        ("properties", .object [("Genre", .object [("type", .string "string")])])]])]⟩),
    ("Copy", ⟨[("$ref", .string "#/$defs/Book")]⟩),
    ("Book", ⟨[("type", .string "object"),
      ("properties", .object [("Author", .object [("type", .string "object"),
        ("properties", .object [("Name", .object [("type", .string "string")])])])])]⟩)]

theorem compile_reordered_library :
    NamesApart library ∧ ReferencesListed library ∧
      ∃ first second, library.compile = .ok first ∧ library.reversed.compile = .ok second ∧
        first.SameContent second := by
  have apart : NamesApart library := namesApart_of_distinct (by decide +kernel)
  have references : ReferencesListed library := referencesListed_of_targets (by decide +kernel)
  obtain ⟨first, compiled⟩ := Outcomes.toBool_iff.mp
    (by decide +kernel : library.compile.toBool = true)
  have root : library.reversed.root = library.root := rfl
  obtain ⟨both, same⟩ := compile_reordered apart (List.reverse_perm _) root
  obtain ⟨second, again⟩ := (both references).mp ⟨first, compiled⟩
  exact ⟨apart, references, first, second, compiled, again,
    same first second compiled again⟩

/-- The items of one list have the type that is made for those of another. -/
def orders : Document where
  definitions := [
    ("Orders", ⟨[("type", .string "array"),
      ("items", .object [("type", .string "object")])]⟩),
    ("Archive", ⟨[("type", .string "array"),
      ("items", .object [("$ref", .string "#/$defs/Orders_Item")])]⟩)]

/-- The name without a type that an outcome tells of. -/
def unknownOf? : Except Error Registry → Option String
  | .error (.classNotFound name) => some name
  | _ => none

theorem eq_of_unknownOf? {outcome : Except Error Registry} {name : String}
    (told : unknownOf? outcome = some name) : outcome = .error (.classNotFound name) := by
  cases outcome with
  | ok registry => cases told
  | error error => cases error <;> cases told; rfl

/-- What refers to a type that is made for a schema in its place compiles after that schema, and not
before it. -/
theorem reversed_orders_refused :
    NamesApart orders ∧ orders.reversed.definitions.Perm orders.definitions ∧
      orders.reversed.root = orders.root ∧ (∃ registry, orders.compile = .ok registry) ∧
      orders.reversed.compile = .error (.classNotFound "Orders_Item") := by
  have apart : NamesApart orders := namesApart_of_distinct (by decide +kernel)
  have compiles := Outcomes.toBool_iff.mp (by decide +kernel : orders.compile.toBool = true)
  have refused : unknownOf? orders.reversed.compile = some "Orders_Item" := by decide +kernel
  exact ⟨apart, List.reverse_perm _, rfl, compiles, eq_of_unknownOf? refused⟩

end Document

end TypedSchema
