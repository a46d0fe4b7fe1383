import TypedSchema.Command.Run
import TypedSchema.Proofs.Files.Writing
import TypedSchema.Proofs.OrderIndependence

/-!
Commands on a tree of files, as long as they are not given up. Whatever is printed, an action gives
a value and leaves a tree.
-/

namespace TypedSchema.Command

open Files

variable {α β : Type} {tree between after : Tree}

theorem run_bind {action : StateM Tree α} {next : α → StateM Tree β} {value : α}
    (ran : action.run tree = (value, between)) :
    (action >>= next).run tree = (next value).run between := by
  rw [StateT.run_bind, ran]
  rfl

theorem run_read {path text : String} (reads : tree.read path = .ok text) :
    (Tree.system.read path).run tree = (.ok text.toUTF8.toList, tree) := by
  show ((tree.read path).map _, tree) = _
  rw [reads]
  rfl

theorem run_change {changed : Tree → Except OsError Tree} (works : changed tree = .ok after) :
    (Tree.change changed).run tree = (.ok (), after) := by
  have current : (get : StateM Tree Tree).run tree = (tree, tree) := rfl
  rw [Tree.change, run_bind current, works]
  rfl

/-- Whatever was printed before, the action gives the value and leaves the tree `after`. -/
def Gives (action : Run (StateM Tree) α) (tree : Tree) (value : α) (after : Tree) : Prop :=
  ∀ printed, ∃ later, (action.run.run printed).run tree = ((.ok value, later), after)

namespace Gives

theorem pure (value : α) : Gives (Pure.pure value) tree value tree :=
  fun printed => ⟨printed, rfl⟩

theorem bind {action : Run (StateM Tree) α} {next : α → Run (StateM Tree) β} {value : α}
    {result : β} (earlier : Gives action tree value between)
    (later : Gives (next value) between result after) :
    Gives (action >>= next) tree result after := by
  intro printed
  obtain ⟨half, ran⟩ := earlier printed
  obtain ⟨all, finished⟩ := later half
  refine ⟨all, ?_⟩
  rw [ExceptT.run_bind, StateT.run_bind, StateT.run_bind, ran]
  exact finished

theorem system {action : StateM Tree α} {value : α} (ran : action.run tree = (value, after)) :
    Gives (liftM action) tree value after := by
  intro printed
  refine ⟨printed, ?_⟩
  show (((Except.ok (action.run tree).1 : Except Fault α), printed), (action.run tree).2) = _
  rw [ran]

theorem lift (fault : Error → Fault) (value : α) :
    Gives (Command.lift fault (.ok value)) tree value tree :=
  pure value

theorem printError (line : String) : Gives (Command.printError line) tree () tree :=
  fun printed => ⟨{ printed with err := printed.err ++ line ++ "\n" }, rfl⟩

/-- Actions on a list, none of which changes the tree. -/
theorem forM {step : α → Run (StateM Tree) Unit} {items : List α}
    (each : ∀ item ∈ items, Gives (step item) tree () tree) :
    Gives (items.forM step) tree () tree := by
  induction items with
  | nil => exact pure ()
  | cons item rest ih =>
    exact (each item List.mem_cons_self).bind
      (ih fun other member => each other (List.mem_cons_of_mem _ member))

theorem mapM {step : α → Run (StateM Tree) β} {result : α → β} {items : List α}
    (each : ∀ item ∈ items, Gives (step item) tree (result item) tree) :
    Gives (items.mapM step) tree (items.map result) tree := by
  induction items with
  | nil => exact pure []
  | cons item rest ih =>
    rw [List.mapM_cons]
    exact (each item List.mem_cons_self).bind
      ((ih fun other member => each other (List.mem_cons_of_mem _ member)).bind (pure _))

end Gives

/-! ## Loading -/

theorem loadSchema_gives {path text : String} {document : Document} {registry : Registry}
    (reads : tree.read path = .ok text)
    (parses : Document.ofBytes text.toUTF8.toList = .ok document)
    (compiles : document.compile = .ok registry) :
    Gives (loadSchema Tree.system path) tree registry tree := by
  refine (Gives.system (run_read reads)).bind ?_
  simp only [parses]
  refine (Gives.lift _ document).bind ?_
  rw [compiles]
  exact .lift _ registry

theorem targetOf_gives {registry : Registry} {source : SchemaArguments} {type : String}
    (target : source.typeName.or registry.root = some type) :
    Gives (targetOf registry source) tree type tree := by
  rw [targetOf, target]
  exact .pure type

theorem inputPaths_gives {input : String} (literal : hasWildcards input = false) :
    Gives (inputPaths Tree.system input) tree [input] tree := by
  rw [inputPaths, literal]
  exact .pure [input]

theorem loadFile_ok {registry : Registry} {type : String} {bytes : List UInt8} {json : Json}
    (parses : Json.ofStream bytes = .ok json) (names : NameTable) :
    loadFile registry type (.ok bytes) names =
      (((registry.decodeOne (type, json)).run names).1.mapError .data,
        ((registry.decodeOne (type, json)).run names).2) := by
  rw [loadFile, parses]
  rfl

/-- Files that hold documents are decoded as a batch. -/
theorem loadFiles_run {registry : Registry} {type : String} {files : List (String × Json)}
    (holds : ∀ file ∈ files, ∃ text, tree.read file.1 = .ok text ∧
      Json.ofStream text.toUTF8.toList = .ok file.2) (names : NameTable) :
    (loadFiles Tree.system registry type (files.map Prod.fst) names).run tree =
      ((List.zipWith (fun file result => ⟨file.1, result.mapError .data⟩) files
          (registry.decodeAll (files.map fun file => (type, file.2)) names).1,
        (registry.decodeAll (files.map fun file => (type, file.2)) names).2), tree) := by
  induction files generalizing names with
  | nil => rfl
  | cons file rest ih =>
    obtain ⟨text, reads, parses⟩ := holds file List.mem_cons_self
    rw [List.map_cons, loadFiles, run_bind (run_read reads), loadFile_ok parses,
      run_bind (ih (fun other member => holds other (List.mem_cons_of_mem _ member)) _),
      List.map_cons, Registry.decodeAll_cons]
    rfl

/-- Inputs without wildcards are loaded from the files that they name. -/
theorem loadAll_gives {registry : Registry} {type : String} {composite : Composite}
    {files : List (String × Json)} (known : registry.compositeNamed type = .ok composite)
    (literal : ∀ file ∈ files, hasWildcards file.1 = false)
    (holds : ∀ file ∈ files, ∃ text, tree.read file.1 = .ok text ∧
      Json.ofStream text.toUTF8.toList = .ok file.2) :
    Gives (loadAll Tree.system registry type (files.map Prod.fst)) tree
      (List.zipWith (fun file result => ⟨file.1, result.mapError .data⟩) files
          (registry.decodeAll (files.map fun file => (type, file.2)) registry.names).1,
        (registry.decodeAll (files.map fun file => (type, file.2)) registry.names).2) tree := by
  rw [loadAll, known]
  have paths : Gives ((files.map Prod.fst).mapM (inputPaths Tree.system)) tree
      ((files.map Prod.fst).map fun path => [path]) tree := by
    refine .mapM fun path member => ?_
    obtain ⟨file, listed, rfl⟩ := List.mem_map.mp member
    exact inputPaths_gives (literal file listed)
  have flat : ((files.map Prod.fst).map fun path => [path]).flatten = files.map Prod.fst := by
    induction files.map Prod.fst with
    | nil => rfl
    | cons path rest ih => rw [List.map_cons, List.flatten_cons, ih, List.singleton_append]
  refine (Gives.lift _ composite).bind (paths.bind ?_)
  rw [flat]
  exact .system (loadFiles_run holds registry.names)

/-! ## Reporting and writing -/

theorem report_gives (coloured : Bool) (type : String) (loaded : List Loaded) :
    Gives (report coloured type loaded) tree (loaded.all (·.result.toBool)) tree := by
  have complete : decide ((loaded.filter (·.result.toBool)).length = loaded.length) =
      loaded.all (·.result.toBool) := by
    rw [Bool.eq_iff_iff, decide_eq_true_iff, List.length_filter_eq_length_iff, List.all_eq_true]
  rw [← complete]
  exact (Gives.forM fun input _ => .printError _).bind ((Gives.printError _).bind (.pure _))

theorem makeDirectory_gives {path : String} (creates : tree.createDirectories path = .ok after) :
    Gives (makeDirectory Tree.system path) tree () after :=
  (Gives.system (run_change creates)).bind (.pure ())

theorem writeInto_gives {keyOf : KeyOf} {directory path name : String} {value : Value} {json : Json}
    (named : fileName? path = some name) (encodes : value.toJson keyOf = .ok json)
    (writes : tree.write (join directory name) json.pretty = .ok after) :
    Gives (writeInto Tree.system keyOf directory path value) tree () after := by
  rw [writeInto, named, encodes]
  exact (Gives.lift _ json).bind ((Gives.system (run_change writes)).bind (.pure ()))

theorem writeBack_of_ok {keyOf : KeyOf} {directory : String} {input : Loaded} {value : Value}
    (loads : input.result = .ok value) :
    writeBack Tree.system keyOf (some directory) input =
      writeInto Tree.system keyOf directory input.path value := by
  simp only [writeBack, loads]

/-- The input was loaded, and is written as this document under this name. -/
structure Writes (keyOf : KeyOf) (input : Loaded) (name : String) (json : Json) : Prop where
  named : fileName? input.path = some name
  encodes : ∃ value, input.result = .ok value ∧ value.toJson keyOf = .ok json

/-- The document is the only one. -/
theorem Writes.same {keyOf : KeyOf} {input : Loaded} {name other : String} {json text : Json}
    (first : Writes keyOf input name json) (second : Writes keyOf input other text) :
    name = other ∧ json = text := by
  obtain ⟨value, loads, encodes⟩ := first.encodes
  obtain ⟨again, reloads, reencodes⟩ := second.encodes
  cases loads.symm.trans reloads
  exact ⟨Option.some.inj (first.named.symm.trans second.named),
    Except.ok.inj (encodes.symm.trans reencodes)⟩

/-- When inputs are written back, the last one of each name is in the file of that name. -/
theorem writeBack_gives {keyOf : KeyOf} {directory : String} {parent : List String}
    {loaded : List Loaded}
    (writes : ∀ input ∈ loaded, ∃ name json, Writes keyOf input name json ∧
      tree.Writable directory parent name) :
    ∃ after, Gives (loaded.forM (writeBack Tree.system keyOf (some directory))) tree () after ∧
      (∀ other content, IsName other → (∀ input ∈ loaded, fileName? input.path ≠ some other) →
        tree.read (join directory other) = .ok content →
          after.read (join directory other) = .ok content) ∧
      ∀ before input later name json, loaded = before ++ input :: later →
        Writes keyOf input name json → (∀ other ∈ later, fileName? other.path ≠ some name) →
          after.read (join directory name) = .ok json.pretty := by
  induction loaded generalizing tree with
  | nil => exact ⟨tree, .pure (), fun _ _ _ _ => id, fun before _ _ _ _ split => by simp at split⟩
  | cons first rest ih =>
    obtain ⟨name, json, own, writable⟩ := writes first List.mem_cons_self
    have isName := isName_of_fileName? own.named
    obtain ⟨next, wrote, reads, still, kept⟩ := writable.written isName json.pretty
    obtain ⟨after, gives, keeps, ends⟩ := ih fun input member => by
      obtain ⟨name, json, writing, able⟩ := writes input (List.mem_cons_of_mem _ member)
      exact ⟨name, json, writing, still name able⟩
    refine ⟨after, ?_, fun other content called apart held => ?_, ?_⟩
    · obtain ⟨value, loads, encodes⟩ := own.encodes
      have step : Gives (writeBack Tree.system keyOf (some directory) first) tree () next := by
        rw [writeBack_of_ok loads]
        exact writeInto_gives own.named encodes wrote
      exact step.bind gives
    · refine keeps other content called
        (fun input member => apart input (List.mem_cons_of_mem _ member)) ?_
      refine kept other content called (fun same => ?_) held
      exact apart first List.mem_cons_self (same ▸ own.named)
    · intro before input later called text split writing last
      cases before with
      | nil =>
        -- The input is the first one, and nothing later is written over it.
        cases split
        obtain ⟨rfl, rfl⟩ := own.same writing
        exact keeps name _ isName last reads
      | cons other before =>
        cases split
        exact ends before input later called text rfl writing last

/-! ## Commands -/

/-- What was loaded is reported and written back, once the directory is there. -/
theorem roundtrip_gives {coloured : Bool} {source : SchemaArguments} {inputs : List String}
    {directory type : String} {registry : Registry} {loaded : List Loaded} {names : NameTable}
    (schema : Gives (loadSchema Tree.system source.schema) tree registry tree)
    (target : source.typeName.or registry.root = some type)
    (loads : Gives (loadAll Tree.system registry type inputs) tree (loaded, names) tree)
    (creates : tree.createDirectories directory = .ok between)
    (writes : Gives (loaded.forM (writeBack Tree.system (registry.keyOf names) (some directory)))
      between () after) :
    Gives (perform Tree.system coloured (.roundtrip source inputs (some directory) false)) tree
      (loaded.all (·.result.toBool)) after := by
  refine schema.bind ((targetOf_gives target).bind (loads.bind ?_))
  refine (report_gives coloured type loaded).bind ((makeDirectory_gives creates).bind ?_)
  exact writes.bind (.pure _)

/-- A command that is not given up ends as its action says. -/
theorem run_of_gives {coloured complete : Bool} {command : Command}
    (gives : Gives (perform Tree.system coloured command) tree complete after) :
    ∃ outcome, (run Tree.system coloured command).run tree = (outcome, after) ∧
      outcome.exit = if complete then 0 else 1 := by
  obtain ⟨printed, ran⟩ := gives {}
  refine ⟨⟨if complete then 0 else 1, printed⟩, ?_, rfl⟩
  rw [run, run_bind ran]
  rfl

end TypedSchema.Command
