import TypedSchema.Proofs.Command.Running
import TypedSchema.Proofs.DocumentLoading
import TypedSchema.Proofs.Respelling

/-!
What is in a directory after a batch of inputs was written there. Each output has the name of its
input, so that the last input of a name is found under it, written with the special names that all
inputs of the batch share.
-/

namespace TypedSchema

namespace Command

open Files

/-! ## Single inputs -/

/-- An input on its own: the document that was read, the object that it is decoded as, the special
names behind that, and the document that it is written as. -/
structure Reencoding where
  path : String
  document : Json
  value : Value
  alone : NameTable
  written : Json

/-- The input as it is written back. -/
def Reencoding.loaded (input : Reencoding) : Loaded :=
  ⟨input.path, .ok input.value⟩

/-- Loads and encodes an input, as if there were no other one. -/
def reencode (tree : Tree) (registry : Registry) (type path : String) :
    Except LoadFault Reencoding := do
  let text ← (tree.read path).mapError .file
  let document ← (Json.ofStream text.toUTF8.toList).mapError fun failure => .data (.json failure)
  let (result, alone) := (registry.decodeOne (type, document)).run registry.names
  let value ← result.mapError .data
  let written ← (value.toJson (registry.keyOf alone)).mapError .data
  return { path, document, value, alone, written }

/-- The special names behind a batch of inputs. -/
def sharedNames (registry : Registry) (type : String) (batch : List Reencoding) : NameTable :=
  (registry.decodeAll (batch.map fun input => (type, input.document)) registry.names).2

/-- No attribute inside the input has become special by another one of the batch. -/
def KeepsKeys (registry : Registry) (type : String) (batch : List Reencoding)
    (input : Reencoding) : Prop :=
  ∀ owner attributes, Value.Occurs (.object owner attributes) input.value →
    ∀ name ∈ Fields.names attributes,
      ¬registry.Respells input.alone (sharedNames registry type batch) owner name

section

variable {tree : Tree} {registry : Registry} {type : String}

/-- The input comes from its file. -/
structure Reencodes (tree : Tree) (registry : Registry) (type : String) (input : Reencoding) :
    Prop where
  reads : ∃ text, tree.read input.path = .ok text ∧
    Json.ofStream text.toUTF8.toList = .ok input.document
  decodes : (registry.decodeOne (type, input.document)).run registry.names =
    (.ok input.value, input.alone)
  encodes : input.value.toJson (registry.keyOf input.alone) = .ok input.written

theorem reencode_ok {path : String} {input : Reencoding}
    (ran : reencode tree registry type path = .ok input) :
    input.path = path ∧ Reencodes tree registry type input := by
  obtain ⟨text, reads, ran⟩ := Outcomes.bind_ok.mp ran
  obtain ⟨document, parses, ran⟩ := Outcomes.bind_ok.mp ran
  obtain ⟨value, decodes, ran⟩ := Outcomes.bind_ok.mp ran
  obtain ⟨written, encodes, ran⟩ := Outcomes.bind_ok.mp ran
  cases ran
  exact ⟨rfl, ⟨text, Outcomes.mapError_ok.mp reads, Outcomes.mapError_ok.mp parses⟩,
    Prod.ext (Outcomes.mapError_ok.mp decodes) rfl, Outcomes.mapError_ok.mp encodes⟩

theorem reencode_all {inputs : List String} {batch : List Reencoding}
    (loads : inputs.mapM (reencode tree registry type) = .ok batch) :
    inputs = batch.map Reencoding.path ∧
      ∀ input ∈ batch, Reencodes tree registry type input := by
  have each := Outcomes.mapM_ok loads
  clear loads
  induction each with
  | nil => exact ⟨rfl, nofun⟩
  | cons first _ ih =>
    obtain ⟨path, own⟩ := reencode_ok first
    refine ⟨by rw [List.map_cons, path, ← ih.1], fun input member => ?_⟩
    cases List.mem_cons.mp member with
    | inl same => exact same ▸ own
    | inr later => exact ih.2 input later

/-! ## Batches -/

variable (wellFormed : registry.WellFormed) {batch : List Reencoding}
  (each : ∀ input ∈ batch, Reencodes tree registry type input)

include wellFormed each

/-- All inputs are decoded as they are on their own. -/
theorem decodeAll_values :
    (registry.decodeAll (batch.map fun input => (type, input.document)) registry.names).1 =
      (batch.map Reencoding.value).map .ok := by
  refine Outcomes.map_mapError_ok (f := Error.unplaced) ?_
  rw [Registry.decodeAll_results wellFormed wellFormed.names_sound, List.map_map, List.map_map]
  refine List.map_congr_left fun input member => ?_
  rw [Function.comp_apply, Registry.outcome, (each input member).decodes]
  rfl

/-- An attribute is written alike on its own and in the batch, unless it has become special by
another input. -/
theorem keyOf_shared_iff {input : Reencoding} (member : input ∈ batch) {owner name : String} :
    registry.keyOf (sharedNames registry type batch) owner name ≠
        registry.keyOf input.alone owner name ↔
      registry.Respells input.alone (sharedNames registry type batch) owner name := by
  have sound := wellFormed.names_sound
  have own := (each input member).decodes
  refine Registry.keyOf_ne_iff_of_kept (fun held => ?_) fun held => ?_
  · refine (Registry.mem_decodeAll wellFormed sound).mpr (.inr ⟨(type, input.document), ?_, ?_⟩)
    · exact List.mem_map_of_mem member
    · rw [own]
      exact held
  · have grows := Registry.decodeAll_grows wellFormed sound
      (batch.map fun input => (type, input.document))
    have alone := (Registry.decode_growing registry type _).of_run own
    exact (grows.fresh owner name held).imp_left (alone.kept owner name)

/-- An input is written as on its own if no attribute inside is written differently. -/
theorem toJson_shared {input : Reencoding} (member : input ∈ batch) :
    ∃ json, input.value.toJson (registry.keyOf (sharedNames registry type batch)) = .ok json ∧
      (KeepsKeys registry type batch input → json = input.written) := by
  have encodes := (each input member).encodes
  obtain ⟨json, shared⟩ := Value.toJson_keyless
    (registry.keyOf (sharedNames registry type batch)) input.value encodes
  refine ⟨json, shared, fun keeps => ?_⟩
  have same : input.value.toJson (registry.keyOf (sharedNames registry type batch)) =
      input.value.toJson (registry.keyOf input.alone) := by
    refine Value.toJson_congr input.value fun owner attributes occurs name listed => ?_
    by_contra changed
    exact keeps owner attributes occurs name listed
      ((keyOf_shared_iff wellFormed each member).mp changed)
  exact Except.ok.inj (shared.symm.trans (same.trans encodes))

/-- What is loaded when all inputs of the batch are. -/
theorem loadAll_batch (nonempty : batch ≠ [])
    (literal : ∀ input ∈ batch, hasWildcards input.path = false) :
    Gives (loadAll Tree.system registry type (batch.map Reencoding.path)) tree
      (batch.map Reencoding.loaded, sharedNames registry type batch) tree := by
  obtain ⟨input, member⟩ := List.exists_mem_of_ne_nil batch nonempty
  obtain ⟨composite, between, known, -⟩ := Decode.run_bind_ok.mp (each input member).decodes
  rw [Decode.run_except] at known
  have plain : ∀ file ∈ batch.map fun input => (input.path, input.document),
      hasWildcards file.1 = false := by
    intro file listed
    obtain ⟨input, member, rfl⟩ := List.mem_map.mp listed
    exact literal input member
  have holds : ∀ file ∈ batch.map fun input => (input.path, input.document),
      ∃ text, tree.read file.1 = .ok text ∧ Json.ofStream text.toUTF8.toList = .ok file.2 := by
    intro file listed
    obtain ⟨input, member, rfl⟩ := List.mem_map.mp listed
    exact (each input member).reads
  have gives := loadAll_gives (congrArg Prod.fst known) plain holds
  rw [List.map_map, List.map_map] at gives
  have loaded : List.zipWith
      (fun file result => (⟨file.1, result.mapError .data⟩ : Loaded))
      (batch.map fun input => (input.path, input.document))
      (registry.decodeAll (batch.map fun input => (type, input.document)) registry.names).1 =
        batch.map Reencoding.loaded := by
    rw [decodeAll_values wellFormed each, List.map_map, List.zipWith_map, List.zipWith_self]
    rfl
  rw [← loaded]
  exact gives

end

/-! ## Runs -/

/-- Every input has a name, and under it the directory holds what the last input of the name is
written as. That is what the input is written as on its own, unless an attribute inside it has
become special by another input. -/
def HoldsOutputs (registry : Registry) (type : String) (batch : List Reencoding)
    (directory : String) (tree : Tree) : Prop :=
  ∀ before input later, batch = before ++ input :: later →
    ∃ name json, fileName? input.path = some name ∧
      input.value.toJson (registry.keyOf (sharedNames registry type batch)) = .ok json ∧
      ((∀ other ∈ later, fileName? other.path ≠ some name) →
        tree.read (join directory name) = .ok json.pretty) ∧
      (KeepsKeys registry type batch input → json = input.written)

/-- If all inputs have names of their own, each one is kept as it is written on its own, unless an
attribute inside it has become special by another input. -/
theorem HoldsOutputs.keeps {tree : Tree} {registry : Registry} {type directory : String}
    {batch : List Reencoding} (holds : HoldsOutputs registry type batch directory tree)
    (apart : (batch.map fun input => fileName? input.path).Nodup) {input : Reencoding}
    (member : input ∈ batch) (keeps : KeepsKeys registry type batch input) :
    ∃ name, fileName? input.path = some name ∧
      tree.read (join directory name) = .ok input.written.pretty := by
  obtain ⟨before, later, split⟩ := List.append_of_mem member
  obtain ⟨name, json, named, -, last, own⟩ := holds before input later split
  refine ⟨name, named, ?_⟩
  rw [last fun other listed same => ?_, own keeps]
  rw [split, List.map_append, List.map_cons] at apart
  have fresh := (List.nodup_cons.mp (List.nodup_append.mp apart).2.1).1
  exact fresh (List.mem_map.mpr ⟨other, listed, same.trans named.symm⟩)

/-- When all inputs of a batch load and encode, and the file system takes what is written, the run
succeeds and the directory holds the outputs. -/
theorem roundtrip_outputs {tree made : Tree} {source : SchemaArguments} {text directory : String}
    {document : Document} {registry : Registry} {type : String} {inputs : List String}
    {batch : List Reencoding} (reads : tree.read source.schema = .ok text)
    (parses : Document.ofBytes text.toUTF8.toList = .ok document)
    (compiles : document.compile = .ok registry)
    (target : source.typeName.or registry.root = some type) (given : inputs ≠ [])
    (literal : ∀ path ∈ inputs, hasWildcards path = false)
    (loads : inputs.mapM (reencode tree registry type) = .ok batch)
    (creates : tree.createDirectories directory = .ok made)
    (takes : ∀ path ∈ inputs, ∀ name, fileName? path = some name →
      (made.write (join directory name) "").toBool = true) (coloured : Bool) :
    ∃ outcome after, (run Tree.system coloured (.roundtrip source inputs (some directory)
        false)).run tree = (outcome, after) ∧ outcome.exit = 0 ∧
      HoldsOutputs registry type batch directory after := by
  have wellFormed := Document.compile_wellFormed compiles
  obtain ⟨rfl, each⟩ := reencode_all loads
  have nonempty : batch ≠ [] := fun none => given (by rw [none]; rfl)
  have loaded := loadAll_batch wellFormed each nonempty fun input member =>
    literal input.path (List.mem_map_of_mem member)
  have named : ∀ path ∈ batch.map Reencoding.path, ∃ name, fileName? path = some name := by
    intro path listed
    obtain ⟨input, member, rfl⟩ := List.mem_map.mp listed
    obtain ⟨own, reads, -⟩ := (each input member).reads
    exact Tree.fileName?_of_read reads
  obtain ⟨parent, able⟩ := Tree.exists_writable named takes
  have writes : ∀ input ∈ batch.map Reencoding.loaded, ∃ name json,
      Writes (registry.keyOf (sharedNames registry type batch)) input name json ∧
        made.Writable directory parent name := by
    intro loaded listed
    obtain ⟨input, member, rfl⟩ := List.mem_map.mp listed
    obtain ⟨name, named, writable⟩ := able input.path (List.mem_map_of_mem member)
    obtain ⟨json, encodes, -⟩ := toJson_shared wellFormed each member
    exact ⟨name, json, ⟨named, input.value, rfl, encodes⟩, writable⟩
  obtain ⟨after, gives, -, ends⟩ := writeBack_gives writes
  have complete : (batch.map Reencoding.loaded).all (·.result.toBool) = true := by
    rw [List.all_map, List.all_eq_true]
    exact fun input _ => rfl
  obtain ⟨outcome, ran, exit⟩ := run_of_gives
    (roundtrip_gives (loadSchema_gives reads parses compiles) target loaded creates gives)
  rw [complete] at exit
  refine ⟨outcome, after, ran, exit, fun before input later split => ?_⟩
  have member : input ∈ batch := by
    rw [split]
    exact List.mem_append_right _ List.mem_cons_self
  obtain ⟨name, named, -⟩ := able input.path (List.mem_map_of_mem member)
  obtain ⟨json, encodes, own⟩ := toJson_shared wellFormed each member
  -- What is loaded is split as the batch is, so that the last input of a name is so there too.
  have parts : batch.map Reencoding.loaded =
      before.map Reencoding.loaded ++ input.loaded :: later.map Reencoding.loaded := by
    rw [split, List.map_append, List.map_cons]
  refine ⟨name, json, named, encodes, fun last => ?_, own⟩
  refine ends _ _ _ name json parts ⟨named, input.value, rfl, encodes⟩ fun other listed => ?_
  obtain ⟨other, behind, rfl⟩ := List.mem_map.mp listed
  exact last other behind

/-- A schema of bags of anything. -/
def bagSchema : String :=
  "\x7b\"$defs\":\x7b\"Bag\":\x7b\"type\":\"object\",\"additionalProperties\":true\x7d\x7d\x7d"

/-- The schema, and bags in two directories. -/
def bags : Tree :=
  .directory [("s.json", .file bagSchema),
    ("a", .directory [("d.json", .file "\x7b\"Size\":1\x7d")]),
    ("b", .directory [("d.json", .file "\x7b\"Size\":2\x7d"),
      ("e.json", .file "\x7b\"Size\":3\x7d")])]

/-- Bags on their own, with the registry of their schema. -/
def bagsAt (paths : List String) : Option (Registry × List Reencoding) := do
  let document ← (Document.ofBytes bagSchema.toUTF8.toList).toOption
  let registry ← document.compile.toOption
  let batch ← (paths.mapM (reencode bags registry "Bag")).toOption
  return (registry, batch)

theorem bagsAt_some {paths : List String} {registry : Registry} {batch : List Reencoding}
    (found : bagsAt paths = some (registry, batch)) :
    ∃ document, Document.ofBytes bagSchema.toUTF8.toList = .ok document ∧
      document.compile = .ok registry ∧
      paths.mapM (reencode bags registry "Bag") = .ok batch := by
  obtain ⟨document, parses, found⟩ := Option.bind_eq_some_iff.mp found
  obtain ⟨registry, compiles, found⟩ := Option.bind_eq_some_iff.mp found
  obtain ⟨batch, loads, same⟩ := Option.bind_eq_some_iff.mp found
  cases same
  exact ⟨document, Outcomes.toOption_iff.mp parses, Outcomes.toOption_iff.mp compiles,
    Outcomes.toOption_iff.mp loads⟩

/-- Writes bags back to another directory. -/
def roundtripBags (paths : List String) : Command :=
  .roundtrip ⟨"s.json", some "Bag"⟩ paths (some "o") false

theorem roundtrip_outputs_bags :
    ∃ document registry batch made outcome after,
      bags.read "s.json" = .ok bagSchema ∧
      Document.ofBytes bagSchema.toUTF8.toList = .ok document ∧ document.compile = .ok registry ∧
      (∀ path ∈ ["a/d.json", "b/e.json"], hasWildcards path = false) ∧
      ["a/d.json", "b/e.json"].mapM (reencode bags registry "Bag") = .ok batch ∧
      bags.createDirectories "o" = .ok made ∧
      (∀ path ∈ ["a/d.json", "b/e.json"], ∀ name, fileName? path = some name →
        (made.write (join "o" name) "").toBool = true) ∧
      (run Tree.system false (roundtripBags ["a/d.json", "b/e.json"])).run bags =
        (outcome, after) ∧ outcome.exit = 0 ∧ HoldsOutputs registry "Bag" batch "o" after := by
  have reads : bags.read "s.json" = .ok bagSchema := by rfl
  have literal : ∀ path ∈ ["a/d.json", "b/e.json"], hasWildcards path = false := by decide +kernel
  have found : (bagsAt ["a/d.json", "b/e.json"]).isSome = true := by decide +kernel
  have makes : (bags.createDirectories "o").toOption.any (fun made =>
      ["a/d.json", "b/e.json"].all fun path => (fileName? path).all fun name =>
        (made.write (join "o" name) "").toBool) = true := by decide +kernel
  obtain ⟨⟨registry, batch⟩, found⟩ := Option.isSome_iff_exists.mp found
  obtain ⟨document, parses, compiles, loads⟩ := bagsAt_some found
  obtain ⟨made, creates, takes⟩ := (Option.any_eq_true _ _).mp makes
  rw [Outcomes.toOption_iff] at creates
  have takes : ∀ path ∈ ["a/d.json", "b/e.json"], ∀ name, fileName? path = some name →
      (made.write (join "o" name) "").toBool = true := by
    intro path member name named
    have every := List.all_eq_true.mp takes path member
    rwa [named] at every
  have target : (SchemaArguments.mk "s.json" (some "Bag")).typeName.or registry.root =
      some "Bag" := rfl
  obtain ⟨outcome, after, ran, exit, holds⟩ := roundtrip_outputs reads parses compiles target
    (List.cons_ne_nil _ _) literal loads creates takes false
  exact ⟨document, registry, batch, made, outcome, after, reads, parses, compiles, literal, loads,
    creates, takes, ran, exit, holds⟩

/-- Of two inputs of one name the first is nowhere to be found afterwards. -/
theorem roundtrip_loses_output :
    ∃ document registry batch outcome after,
      Document.ofBytes bagSchema.toUTF8.toList = .ok document ∧ document.compile = .ok registry ∧
      ["a/d.json", "b/d.json"].mapM (reencode bags registry "Bag") = .ok batch ∧
      (run Tree.system false (roundtripBags ["a/d.json", "b/d.json"])).run bags =
        (outcome, after) ∧ outcome.exit = 0 ∧
      ∃ input ∈ batch, ∀ file ∈ after.files, file.2 ≠ input.written.pretty := by
  have found : (bagsAt ["a/d.json", "b/d.json"]).any (fun (_, batch) =>
      batch.any fun input => input.written.pretty = "\x7b\n  \"Size\": 1\n\x7d") = true := by
    decide +kernel
  have exit : ((run Tree.system false (roundtripBags ["a/d.json", "b/d.json"])).run bags).1.exit =
      0 := by decide +kernel
  have left : ∀ file ∈ ((run Tree.system false
      (roundtripBags ["a/d.json", "b/d.json"])).run bags).2.files,
        file.2 ≠ "\x7b\n  \"Size\": 1\n\x7d" := by decide +kernel
  obtain ⟨⟨registry, batch⟩, found, lost⟩ := (Option.any_eq_true _ _).mp found
  obtain ⟨document, parses, compiles, loads⟩ := bagsAt_some found
  obtain ⟨input, member, written⟩ := List.any_eq_true.mp lost
  rw [decide_eq_true_iff] at written
  refine ⟨document, registry, batch, _, _, parses, compiles, loads, rfl, exit, input, member, ?_⟩
  rw [written]
  exact left

end Command

end TypedSchema
