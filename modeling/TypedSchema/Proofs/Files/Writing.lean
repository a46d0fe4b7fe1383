import TypedSchema.Files.Tree
import TypedSchema.Proofs.Fields
import TypedSchema.Proofs.Outcomes

/-!
Writing files into a directory. A file that was written is read as it was written, and every other
file is read as before.
-/

namespace TypedSchema.Files

/-! ## Steps of paths -/

theorem splitSlashes_ne_nil (chars : List Char) : splitSlashes chars ≠ [] := by
  cases chars with
  | nil => exact List.cons_ne_nil _ _
  | cons c rest =>
    rw [splitSlashes]
    split
    · exact List.cons_ne_nil _ _
    · split <;> exact List.cons_ne_nil _ _

theorem splitSlashes_append (first second : List Char) :
    splitSlashes (first ++ '/' :: second) = splitSlashes first ++ splitSlashes second := by
  induction first with
  | nil => simp [splitSlashes]
  | cons c rest ih =>
    rw [List.cons_append, splitSlashes, splitSlashes, ih]
    by_cases slash : c = '/'
    · simp [slash]
    · cases parts : splitSlashes rest with
      | nil => exact absurd parts (splitSlashes_ne_nil rest)
      | cons part others => simp [slash]

theorem splitSlashes_of_plain {chars : List Char} (plain : '/' ∉ chars) :
    splitSlashes chars = [chars] := by
  induction chars with
  | nil => rfl
  | cons c rest ih =>
    rw [List.mem_cons, not_or] at plain
    rw [splitSlashes, if_neg (Ne.symm plain.1), ih plain.2]

theorem slash_notMem_splitSlashes {chars part : List Char} (member : part ∈ splitSlashes chars) :
    '/' ∉ part := by
  induction chars generalizing part with
  | nil =>
    rw [splitSlashes, List.mem_singleton] at member
    rw [member]
    exact List.not_mem_nil
  | cons c rest ih =>
    rw [splitSlashes] at member
    by_cases slash : c = '/'
    · rw [if_pos slash] at member
      cases List.mem_cons.mp member with
      | inl same => rw [same]; exact List.not_mem_nil
      | inr later => exact ih later
    · rw [if_neg slash] at member
      cases parts : splitSlashes rest with
      | nil => exact absurd parts (splitSlashes_ne_nil rest)
      | cons first others =>
        rw [parts] at member ih
        cases List.mem_cons.mp member with
        | inl same =>
          rw [same, List.mem_cons, not_or]
          exact ⟨Ne.symm slash, ih List.mem_cons_self⟩
        | inr later => exact ih (List.mem_cons_of_mem _ later)

/-- A step that leads to something in a directory. -/
structure IsName (step : String) : Prop where
  plain : '/' ∉ step.toList
  moves : stays step = false
  down : step ≠ ".."

theorem isName_of_fileName? {path name : String} (found : fileName? path = some name) :
    IsName name := by
  unfold fileName? at found
  split at found
  · cases found
  · rename_i upwards
    have member := List.mem_of_getLast? found
    rw [List.mem_filter, steps] at member
    obtain ⟨part, listed, rfl⟩ := List.mem_map.mp member.1
    refine ⟨?_, by simpa using member.2, fun same => ?_⟩
    · rw [String.toList_ofList]
      exact slash_notMem_splitSlashes listed
    · exact upwards (same ▸ found)

theorem IsName.isStep {name : String} (named : IsName name) :
    (stays name || decide (name = "..")) = false := by
  rw [named.moves, decide_eq_false named.down, Bool.or_false]

/-- The steps to a directory, from which a step further leads to what is in it. -/
def stepsTo (directory : String) : List String :=
  if directory.isEmpty then []
  else if directory.toList.getLast? = some '/' then (steps directory).dropLast
  else steps directory

theorem steps_join (directory : String) {name : String} (plain : '/' ∉ name.toList) :
    steps (join directory name) = stepsTo directory ++ [name] := by
  have own : (splitSlashes name.toList).map String.ofList = [name] := by
    rw [splitSlashes_of_plain plain, List.map_singleton, String.ofList_toList]
  unfold join stepsTo
  by_cases empty : directory.isEmpty = true
  · rw [if_pos empty, if_pos empty, steps, own, List.nil_append]
  · rw [if_neg empty, if_neg empty]
    by_cases ended : directory.toList.getLast? = some '/'
    · obtain ⟨front, shape⟩ := List.getLast?_eq_some_iff.mp ended
      rw [if_pos ended, if_pos ended, steps, steps, String.toList_append, shape,
        List.append_assoc, List.singleton_append, splitSlashes_append, splitSlashes_append,
        List.map_append, own]
      simp [splitSlashes]
    · have characters : (directory ++ "/" ++ name).toList =
          directory.toList ++ '/' :: name.toList := by
        simp [String.toList_append]
      rw [if_neg ended, if_neg ended, steps, characters, splitSlashes_append, List.map_append, own]
      rfl

theorem join_nonempty (directory : String) {name : String} (named : IsName name) :
    (join directory name).isEmpty = false := by
  by_contra empty
  rw [Bool.not_eq_false, String.isEmpty_iff] at empty
  have same := steps_join directory named.plain
  have only : steps (join directory name) = [""] := by
    rw [empty]
    rfl
  have last := congrArg List.getLast? same
  rw [only, List.getLast?_concat] at last
  have moves := named.moves
  rw [← Option.some.inj last] at moves
  cases moves

namespace Tree

/-! ## Places -/

/-- Only in directories is there anything further down. -/
theorem find?_cons {tree found : Tree} {name : String} {rest : List String} :
    tree.find? (name :: rest) = some found ↔ ∃ entries inner, tree = .directory entries ∧
      Fields.get? entries name = some inner ∧ inner.find? rest = some found := by
  cases tree with
  | file text =>
    rw [find?]
    exact ⟨nofun, by rintro ⟨_, _, ⟨⟩, _⟩⟩
  | directory entries =>
    rw [find?]
    cases held : Fields.get? entries name with
    | none => exact ⟨nofun, by rintro ⟨_, _, ⟨⟩, inside, _⟩; cases held.symm.trans inside⟩
    | some inner =>
      constructor
      · intro there
        exact ⟨entries, inner, rfl, held, there⟩
      · rintro ⟨_, _, ⟨⟩, inside, there⟩
        cases held.symm.trans inside
        exact there

theorem find?_append (tree : Tree) (first second : List String) :
    tree.find? (first ++ second) = (tree.find? first).bind (·.find? second) := by
  induction first generalizing tree with
  | nil => cases tree <;> rfl
  | cons name rest ih =>
    cases tree with
    | file text => rfl
    | directory entries =>
      rw [List.cons_append, find?, find?]
      cases Fields.get? entries name with
      | none => rfl
      | some inner => exact ih inner

/-- What is still there after a file was put somewhere: files as they were, and directories with all
names that they had. -/
inductive Kept : Tree → Tree → Prop where
  | file (text : String) : Kept (.file text) (.file text)
  | directory {entries others : List (String × Tree)}
    (names : ∀ name, Fields.has entries name = true → Fields.has others name = true) :
    Kept (.directory entries) (.directory others)

theorem Kept.refl (tree : Tree) : Kept tree tree := by
  cases tree with
  | file text => exact .file text
  | directory entries => exact .directory fun _ held => held

section

variable {tree : Tree} {parent : List String} {entries : List (String × Tree)} {name : String}

theorem find?_child (held : tree.find? parent = some (.directory entries)) :
    tree.find? (parent ++ [name]) = Fields.get? entries name := by
  rw [find?_append, held, Option.bind_some, find?]
  cases Fields.get? entries name with
  | none => rfl
  | some inner => cases inner <;> rfl

theorem find?_put_parent (held : tree.find? parent = some (.directory entries)) (added : Tree) :
    (tree.put (parent ++ [name]) added).find? parent =
      some (.directory (Fields.insert entries name added)) := by
  induction parent generalizing tree with
  | nil =>
    cases tree with
    | file text => cases held
    | directory own =>
      cases held
      rfl
  | cons first rest ih =>
    obtain ⟨own, inner, rfl, inside, held⟩ := find?_cons.mp held
    rw [List.cons_append, put, find?, Fields.get?_insert, if_pos rfl, inside]
    exact ih held

theorem find?_put_self (held : tree.find? parent = some (.directory entries)) (added : Tree) :
    (tree.put (parent ++ [name]) added).find? (parent ++ [name]) = some added := by
  rw [find?_child (find?_put_parent held added), Fields.get?_insert, if_pos rfl]

/-- Whatever is in another place is kept, unless a directory is replaced. -/
theorem find?_put_kept (held : tree.find? parent = some (.directory entries))
    (free : ∀ inner, Fields.get? entries name ≠ some (.directory inner)) (added : Tree)
    {place : List String} {found : Tree} (there : tree.find? place = some found)
    (other : place ≠ parent ++ [name]) :
    ∃ still, (tree.put (parent ++ [name]) added).find? place = some still ∧ Kept found still := by
  induction parent generalizing tree place with
  | nil =>
    cases tree with
    | file text => cases held
    | directory own =>
      cases held
      cases place with
      | nil =>
        cases there
        exact ⟨_, rfl, .directory fun _ => Fields.has_insert⟩
      | cons first rest =>
        refine ⟨found, ?_, .refl found⟩
        rw [List.nil_append, put, find?, Fields.get?_insert]
        by_cases same : first = name
        · -- Where the file is put there was nothing, or a file, below which there is no place.
          subst same
          obtain ⟨_, inner, ⟨⟩, inside, there⟩ := find?_cons.mp there
          cases inner with
          | directory names => exact absurd inside (free names)
          | file text =>
            cases rest with
            | nil => exact absurd rfl other
            | cons _ _ => cases there
        · rw [if_neg same]
          exact there
  | cons outer rest ih =>
    obtain ⟨own, inner, rfl, inside, further⟩ := find?_cons.mp held
    rw [List.cons_append, put, inside, Option.getD_some]
    cases place with
    | nil =>
      cases there
      exact ⟨_, rfl, .directory fun _ => Fields.has_insert⟩
    | cons first others =>
      rw [find?, Fields.get?_insert]
      by_cases same : first = outer
      · -- Only in this directory does anything change.
        subst same
        obtain ⟨_, _, ⟨⟩, again, there⟩ := find?_cons.mp there
        cases inside.symm.trans again
        rw [if_pos rfl]
        exact ih further there fun equal => other (by rw [equal, List.cons_append])
      · rw [if_neg same]
        exact ⟨found, there, .refl found⟩

end

/-! ## Walks -/

theorem walk_append (tree : Tree) (here first second : List String) :
    tree.walk here (first ++ second) =
      tree.walk here first >>= fun place => tree.walk place.reverse second := by
  induction first generalizing here with
  | nil =>
    show _ = tree.walk here.reverse.reverse second
    rw [List.reverse_reverse, List.nil_append]
  | cons step rest ih =>
    rw [List.cons_append, walk, walk]
    split
    · rfl
    · rfl
    · split
      · exact ih here
      · split
        · exact ih here.tail
        · split
          · rfl
          · split
            · exact ih (step :: here)
            · rfl

/-- Where a step leads to from a place in a directory, both given upwards. -/
inductive Moves (entries : List (String × Tree)) (here : List String) :
    String → List String → Prop where
  | still {step : String} (stay : stays step = true) : Moves entries here step here
  | up : Moves entries here ".." here.tail
  | down {step : String} (moves : stays step = false) (other : step ≠ "..")
    (short : ¬longestName < step.utf8ByteSize) (held : Fields.has entries step = true) :
    Moves entries here step (step :: here)

/-- A walk goes on from where its first step leads to. -/
theorem walk_cons {tree : Tree} {here rest place : List String} {step : String} :
    tree.walk here (step :: rest) = .ok place ↔
      ∃ entries next, tree.find? here.reverse = some (.directory entries) ∧
        Moves entries here step next ∧ tree.walk next rest = .ok place := by
  rw [walk]
  cases tree.find? here.reverse with
  | none => exact ⟨nofun, by rintro ⟨_, _, ⟨⟩, -⟩⟩
  | some found =>
    cases found with
    | file text => exact ⟨nofun, by rintro ⟨_, _, ⟨⟩, -⟩⟩
    | directory entries =>
      constructor
      · intro led
        simp only at led
        split at led
        · exact ⟨entries, here, rfl, .still ‹_›, led⟩
        · rename_i moves
          split at led
          · rename_i up
            exact ⟨entries, here.tail, rfl, up ▸ .up, led⟩
          · split at led
            · cases led
            · split at led
              · exact ⟨entries, step :: here, rfl, .down (by simpa using moves) ‹_› ‹_› ‹_›, led⟩
              · cases led
      · rintro ⟨_, next, ⟨⟩, moves, led⟩
        cases moves with
        | still stay =>
          simp only [if_pos stay]
          exact led
        | up => exact led
        | down moves other short held =>
          simp only [moves, if_neg other, if_neg short, if_pos held]
          exact led

/-- A walk leads to the same place where all directories are kept. -/
theorem walk_kept {tree next : Tree}
    (kept : ∀ place entries, tree.find? place = some (.directory entries) →
      ∃ still, next.find? place = some still ∧ Kept (.directory entries) still)
    {here along place : List String} (led : tree.walk here along = .ok place) :
    next.walk here along = .ok place := by
  induction along generalizing here with
  | nil => exact led
  | cons step rest ih =>
    obtain ⟨entries, further, there, moves, led⟩ := walk_cons.mp led
    obtain ⟨still, held, same⟩ := kept _ _ there
    cases same with
    | @directory _ others names =>
      refine walk_cons.mpr ⟨others, further, held, ?_, ih led⟩
      cases moves with
      | still stay => exact .still stay
      | up => exact .up
      | down moves other short inside => exact .down moves other short (names step inside)

/-! ## Reading and writing -/

theorem read_ok {tree : Tree} {path text : String} :
    tree.read path = .ok text ↔ accepted path = .ok () ∧ path.isEmpty = false ∧
      ∃ place, tree.walk [] (steps path) = .ok place ∧ tree.find? place = some (.file text) := by
  constructor
  · intro reads
    obtain ⟨found, there, given⟩ := Outcomes.bind_ok.mp reads
    obtain ⟨place, led, there⟩ := Outcomes.bind_ok.mp there
    obtain ⟨⟨⟩, accepts, led⟩ := Outcomes.bind_ok.mp led
    cases empty : path.isEmpty with
    | true =>
      rw [empty] at led
      cases led
    | false =>
      rw [empty] at led
      cases held : tree.find? place with
      | none =>
        rw [held] at there
        cases there
      | some inner =>
        rw [held] at there
        cases there
        cases found with
        | directory entries => cases given
        | file own =>
          cases given
          exact ⟨accepts, rfl, place, led, held⟩
  · rintro ⟨accepts, nonempty, place, led, held⟩
    have reached : tree.place path = .ok place := by
      rw [Tree.place, accepts, nonempty]
      exact led
    have found : tree.atPath path = .ok (.file text) := by
      refine Outcomes.bind_ok.mpr ⟨place, reached, ?_⟩
      rw [held]
      rfl
    exact Outcomes.bind_ok.mpr ⟨_, found, rfl⟩

/-- Above a directory are directories. -/
theorem find?_above {tree : Tree} {here : List String} {entries : List (String × Tree)}
    (there : tree.find? here.reverse = some (.directory entries)) :
    ∃ above, tree.find? here.tail.reverse = some (.directory above) := by
  cases here with
  | nil => exact ⟨entries, there⟩
  | cons name rest =>
    rw [List.reverse_cons, find?_append] at there
    obtain ⟨upper, found, inside⟩ := Option.bind_eq_some_iff.mp there
    cases upper with
    | file own => cases inside
    | directory above => exact ⟨above, found⟩

/-- A file is not reached by a step upwards, nor without any step that moves. -/
theorem walk_to_file {tree : Tree} {here along place : List String} {text : String}
    (led : tree.walk here along = .ok place) (held : tree.find? place = some (.file text)) :
    along = [] ∨
      ∃ name, (along.filter fun step => !stays step).getLast? = some name ∧ name ≠ ".." := by
  induction along generalizing here with
  | nil => exact .inl rfl
  | cons step rest ih =>
    right
    obtain ⟨entries, further, there, moves, led⟩ := walk_cons.mp led
    cases moves with
    | still stay =>
      obtain rfl | ⟨name, last, down⟩ := ih led
      · cases led
        cases there.symm.trans held
      · exact ⟨name, by simpa [stay] using last, down⟩
    | up =>
      obtain rfl | ⟨name, last, down⟩ := ih led
      · cases led
        obtain ⟨above, upper⟩ := find?_above there
        cases upper.symm.trans held
      · refine ⟨name, ?_, down⟩
        rw [List.filter_cons_of_pos rfl, List.getLast?_cons, last]
        rfl
    | down moves other =>
      have kept : (step :: rest).filter (fun step => !stays step) =
          step :: rest.filter fun step => !stays step := by
        simp [moves]
      rw [kept, List.getLast?_cons]
      obtain rfl | ⟨name, last, down⟩ := ih led
      · exact ⟨step, rfl, other⟩
      · exact ⟨name, by rw [last]; rfl, down⟩

/-- What can be read has a name. -/
theorem fileName?_of_read {tree : Tree} {path text : String} (reads : tree.read path = .ok text) :
    ∃ name, fileName? path = some name := by
  obtain ⟨-, -, place, led, held⟩ := read_ok.mp reads
  obtain none | ⟨name, last, down⟩ := walk_to_file led held
  · exact absurd (List.map_eq_nil_iff.mp none) (splitSlashes_ne_nil _)
  · refine ⟨name, ?_⟩
    rw [fileName?, last]
    split
    · exact absurd (Option.some.inj ‹_›) down
    · rfl

/-- A file of some name can be made or replaced in a directory, which is in this place. -/
structure Writable (tree : Tree) (directory : String) (parent : List String) (name : String) :
    Prop where
  accepted : accepted (join directory name) = .ok ()
  short : ¬longestName < name.utf8ByteSize
  led : tree.walk [] (stepsTo directory) = .ok parent
  room : ∃ entries, tree.find? parent = some (.directory entries) ∧
    ∀ inner, Fields.get? entries name ≠ some (.directory inner)

section

variable {tree next : Tree} {directory name text : String} {parent : List String}

/-- A name leads to what is under it in a directory. -/
theorem walk_name (named : IsName name) {here place : List String} :
    tree.walk here [name] = .ok place ↔ ¬longestName < name.utf8ByteSize ∧
      (∃ found, tree.find? (here.reverse ++ [name]) = some found) ∧
        place = here.reverse ++ [name] := by
  rw [walk]
  cases there : tree.find? here.reverse with
  | none => simp [find?_append, there]
  | some inner =>
    cases inner with
    | file own => simp [find?_append, there, find?]
    | directory entries =>
      have moves : ¬stays name = true := by simp [named.moves]
      simp only [if_neg moves, if_neg named.down, find?_child there]
      by_cases long : longestName < name.utf8ByteSize
      · simp [long]
      · cases held : Fields.get? entries name with
        | none => simp [long, Fields.has, held]
        | some found => simp [long, Fields.has, held, walk, eq_comm]

theorem write_ok (named : IsName name) :
    tree.write (join directory name) text = .ok next ↔
      ∃ parent, Writable tree directory parent name ∧
        next = tree.put (parent ++ [name]) (.file text) := by
  rw [write, steps_join directory named.plain, List.dropLast_concat, List.getLast?_concat]
  constructor
  · intro wrote
    obtain ⟨⟨⟩, accepts, wrote⟩ := Outcomes.bind_ok.mp wrote
    obtain ⟨parent, led, wrote⟩ := Outcomes.bind_ok.mp wrote
    cases held : tree.find? parent with
    | none =>
      rw [held] at wrote
      cases wrote
    | some found =>
      rw [held] at wrote
      cases found with
      | file own => cases wrote
      | directory entries =>
        simp only [named.isStep] at wrote
        by_cases long : longestName < name.utf8ByteSize
        · rw [if_pos long] at wrote
          cases wrote
        · rw [if_neg long] at wrote
          have free : ∀ inner, Fields.get? entries name ≠ some (.directory inner) := by
            intro inner inside
            rw [inside] at wrote
            cases wrote
          refine ⟨parent, ⟨accepts, long, led, entries, held, free⟩, ?_⟩
          cases inside : Fields.get? entries name with
          | none =>
            rw [inside] at wrote
            exact (Except.ok.inj wrote).symm
          | some inner =>
            cases inner with
            | directory names => exact absurd inside (free names)
            | file own =>
              rw [inside] at wrote
              exact (Except.ok.inj wrote).symm
  · rintro ⟨parent, writable, rfl⟩
    obtain ⟨entries, held, free⟩ := writable.room
    rw [writable.accepted, writable.led]
    refine Outcomes.bind_ok.mpr ⟨(), rfl, Outcomes.bind_ok.mpr ⟨parent, rfl, ?_⟩⟩
    rw [held]
    simp only [named.isStep, if_neg writable.short]
    cases inside : Fields.get? entries name with
    | none => rfl
    | some inner =>
      cases inner with
      | directory names => exact absurd inside (free names)
      | file own => rfl

/-- A file in a directory is read as it is. -/
theorem read_join (named : IsName name) (led : tree.walk [] (stepsTo directory) = .ok parent) :
    tree.read (join directory name) = .ok text ↔
      accepted (join directory name) = .ok () ∧ ¬longestName < name.utf8ByteSize ∧
        tree.find? (parent ++ [name]) = some (.file text) := by
  rw [read_ok, steps_join directory named.plain, walk_append, led]
  constructor
  · rintro ⟨accepts, -, place, onward, held⟩
    obtain ⟨short, -, rfl⟩ := (walk_name named).mp onward
    rw [List.reverse_reverse] at held
    exact ⟨accepts, short, held⟩
  · rintro ⟨accepts, short, held⟩
    refine ⟨accepts, join_nonempty directory named, parent ++ [name],
      (walk_name named).mpr ⟨short, ?_, ?_⟩, held⟩
    · rw [List.reverse_reverse]
      exact ⟨_, held⟩
    · rw [List.reverse_reverse]

/-- Files that can be written to one directory are in one place. -/
theorem exists_writable {paths : List String}
    (named : ∀ path ∈ paths, ∃ name, fileName? path = some name)
    (takes : ∀ path ∈ paths, ∀ name, fileName? path = some name →
      (tree.write (join directory name) "").toBool = true) :
    ∃ parent, ∀ path ∈ paths, ∃ name, fileName? path = some name ∧
      Writable tree directory parent name := by
  have each : ∀ path ∈ paths, ∃ name parent, fileName? path = some name ∧
      Writable tree directory parent name := by
    intro path member
    obtain ⟨name, called⟩ := named path member
    obtain ⟨next, wrote⟩ := Outcomes.toBool_iff.mp (takes path member name called)
    obtain ⟨parent, writable, -⟩ := (write_ok (isName_of_fileName? called)).mp wrote
    exact ⟨name, parent, called, writable⟩
  cases paths with
  | nil => exact ⟨[], nofun⟩
  | cons first rest =>
    obtain ⟨_, parent, -, leading⟩ := each first List.mem_cons_self
    refine ⟨parent, fun path member => ?_⟩
    obtain ⟨name, other, called, writable⟩ := each path member
    cases Except.ok.inj (leading.led.symm.trans writable.led)
    exact ⟨name, called, writable⟩

/-- Writing a file keeps what could be written and read in the directory, but for that file. -/
theorem Writable.written (writable : Writable tree directory parent name) (named : IsName name)
    (text : String) :
    ∃ next, tree.write (join directory name) text = .ok next ∧
      next.read (join directory name) = .ok text ∧
      (∀ other, Writable tree directory parent other → Writable next directory parent other) ∧
      ∀ other content, IsName other → other ≠ name →
        tree.read (join directory other) = .ok content →
          next.read (join directory other) = .ok content := by
  obtain ⟨entries, held, free⟩ := writable.room
  refine ⟨_, (write_ok named).mpr ⟨parent, writable, rfl⟩, ?_⟩
  have still : ∀ {place found}, tree.find? place = some found → place ≠ parent ++ [name] →
      ∃ after, (tree.put (parent ++ [name]) (.file text)).find? place = some after ∧
        Kept found after :=
    fun there other => find?_put_kept held free (.file text) there other
  -- No directory is replaced, so the steps to this one lead where they did.
  have led : (tree.put (parent ++ [name]) (.file text)).walk [] (stepsTo directory) =
      .ok parent := by
    refine walk_kept (fun place inner there => still there fun same => ?_) writable.led
    rw [same, find?_child held] at there
    exact free inner there
  refine ⟨?_, fun other able => ?_, fun other content called apart reads => ?_⟩
  · exact (read_join named led).mpr ⟨writable.accepted, writable.short, find?_put_self held _⟩
  · refine ⟨able.accepted, able.short, led, _, find?_put_parent held _, fun inner inside => ?_⟩
    obtain ⟨own, there, clear⟩ := able.room
    cases held.symm.trans there
    rw [Fields.get?_insert] at inside
    by_cases same : other = name
    · rw [if_pos same] at inside
      cases inside
    · rw [if_neg same] at inside
      exact clear inner inside
  · obtain ⟨accepts, short, there⟩ := (read_join called writable.led).mp reads
    obtain ⟨after, found, same⟩ := still there (by simp [apart])
    cases same
    exact (read_join called led).mpr ⟨accepts, short, found⟩

end

end Tree

end TypedSchema.Files
