import TypedSchema.Compile
import TypedSchema.Proofs.Fields
import TypedSchema.Proofs.Outcomes

/-!
Loading documents. The definitions of a document are the entries of its containers, in their order,
and the document itself if it is one more definition. All of them share one space of names: the last
one of a name is the one that references to the name find.
-/

namespace TypedSchema

/-! ## Pointers -/

/-- A name as a segment of a pointer. -/
def segmentChar (c : Char) : List Char :=
  if c = '~' then ['~', '0'] else if c = '/' then ['~', '1'] else [c]

def segment (name : String) : List Char :=
  name.toList.flatMap segmentChar

theorem unescape_cons {mark replacement c : Char} (other : c ≠ '~') (rest : List Char) :
    unescape mark replacement (c :: rest) = c :: unescape mark replacement rest := by
  conv => lhs; unfold unescape
  split <;> simp_all

/-- The slashes come back first, so that what is left are the tildes. -/
theorem unescape_slashes (chars : List Char) :
    unescape '1' '/' (chars.flatMap segmentChar) =
      chars.flatMap fun c => if c = '~' then ['~', '0'] else [c] := by
  induction chars with
  | nil => rfl
  | cons c rest ih =>
    rw [List.flatMap_cons, List.flatMap_cons, ← ih]
    by_cases tilde : c = '~'
    · have zero : ('0' : Char) ≠ '~' := by decide
      simp [tilde, segmentChar, unescape, unescape_cons zero]
    · by_cases slash : c = '/'
      · simp [slash, segmentChar, unescape]
      · simp [tilde, slash, segmentChar, unescape_cons tilde]

theorem unescape_tildes (chars : List Char) :
    unescape '0' '~' (chars.flatMap fun c => if c = '~' then ['~', '0'] else [c]) = chars := by
  induction chars with
  | nil => rfl
  | cons c rest ih =>
    rw [List.flatMap_cons]
    by_cases tilde : c = '~'
    · simp [tilde, unescape, ih]
    · simp [tilde, unescape_cons tilde, ih]

theorem slash_notMem_segment (name : String) : '/' ∉ segment name := by
  intro member
  obtain ⟨c, -, held⟩ := List.mem_flatMap.mp member
  by_cases tilde : c = '~'
  · simp [segmentChar, tilde] at held
  · by_cases slash : c = '/'
    · simp [segmentChar, slash] at held
    · simp [segmentChar, tilde, slash] at held
      exact slash held.symm

/-- A pointer to a name in some place refers to the name. -/
theorem referenceName_pointer (place : List Char) (name : String) :
    referenceName (String.ofList (place ++ '/' :: segment name)) = name := by
  have last : ((place ++ '/' :: segment name).reverse.takeWhile (· ≠ '/')).reverse =
      segment name := by
    have segment : ∀ c ∈ (segment name).reverse, decide (c ≠ '/') = true := by
      intro c member
      rw [List.mem_reverse] at member
      exact decide_eq_true fun same => slash_notMem_segment name (same ▸ member)
    rw [List.reverse_append, List.reverse_cons, List.append_assoc,
      List.takeWhile_append_of_pos segment]
    simp
  rw [referenceName, String.toList_ofList, last, segment, unescape_slashes, unescape_tildes,
    String.ofList_toList]

/-! ## Documents of the right shape -/

namespace Json.Shape

/-- Shapes that leave the values that they accept as they are. -/
def keeps : Shape → Bool
  | .anything => true
  | .text => true
  | .optional shape => shape.keeps
  | .map values => values.keeps
  | .record _ _ _ => false

theorem checkValues_kept {check : Check}
    (kept : ∀ route value checked, check route value = .ok checked → checked = value)
    {route : Route} {members checked : Fields Json}
    (ran : checkValues check route members = .ok checked) : checked = members := by
  induction members generalizing checked with
  | nil =>
    cases ran
    rfl
  | cons entry rest ih =>
    rw [checkValues] at ran
    obtain ⟨value, first, ran⟩ := Outcomes.bind_ok.mp ran
    obtain ⟨others, later, ran⟩ := Outcomes.bind_ok.mp ran
    cases ran
    rw [kept _ _ _ (Outcomes.mapError_ok.mp first), ih later]

theorem check_kept {shape : Shape} (kept : shape.keeps = true) {route : Route}
    {value checked : Json} (ran : shape.check route value = .ok checked) : checked = value := by
  induction shape using keeps.induct generalizing route value checked with
  | case1 =>
    rw [check] at ran
    cases ran
    rfl
  | case2 =>
    cases value <;> cases ran
    rfl
  | case3 shape ih =>
    cases value with
    | null =>
      cases ran
      rfl
    | _ => exact ih kept ran
  | case4 values ih =>
    cases value with
    | object members =>
      rw [check] at ran
      obtain ⟨held, same, ran⟩ := Outcomes.bind_ok.mp ran
      cases ran
      rw [checkValues_kept (fun _ _ _ => ih kept) same]
    | _ => cases ran
  | case5 => cases kept

section

variable {isOpen : Bool} {fields : List (Field Check)} {route : Route} {members held : Fields Json}

theorem checkMembers_cons {name : String} {value : Json}
    (ran : checkMembers isOpen fields route ((name, value) :: members) = .ok held) :
    ∃ handled others, checkMembers isOpen fields route members = .ok others ∧
      held = handled ++ others ∧
      match fields.find? (fun field => field.name = name) with
      | some field => ∃ place checked, handled = [(name, checked)] ∧
          field.handle place value = .ok checked
      | none => handled = if isOpen then [(name, value)] else [] := by
  rw [checkMembers] at ran
  cases found : fields.find? fun field => field.name = name with
  | some field =>
    simp only [found] at ran
    obtain ⟨checked, own, ran⟩ := Outcomes.bind_ok.mp ran
    obtain ⟨handled, same, ran⟩ := Outcomes.bind_ok.mp ran
    obtain ⟨others, later, ran⟩ := Outcomes.bind_ok.mp ran
    cases same
    cases ran
    exact ⟨_, others, later, rfl, _, checked, rfl, Outcomes.mapError_ok.mp own⟩
  | none =>
    simp only [found] at ran
    obtain ⟨handled, same, ran⟩ := Outcomes.bind_ok.mp ran
    obtain ⟨others, later, ran⟩ := Outcomes.bind_ok.mp ran
    cases same
    cases ran
    exact ⟨_, others, later, rfl, rfl⟩

/-- A member that a record has a field for is handled by that. -/
theorem checkMembers_field (ran : checkMembers isOpen fields route members = .ok held)
    {name : String} {field : Field Check}
    (known : fields.find? (fun field => field.name = name) = some field) :
    (Fields.get? members name = none ∧ Fields.get? held name = none) ∨
      ∃ value checked place, Fields.get? members name = some value ∧
        Fields.get? held name = some checked ∧ field.handle place value = .ok checked := by
  induction members generalizing held with
  | nil =>
    cases ran
    exact .inl ⟨rfl, rfl⟩
  | cons entry rest ih =>
    obtain ⟨handled, others, later, rfl, own⟩ := checkMembers_cons ran
    by_cases same : name = entry.1
    · rw [← same, known] at own
      obtain ⟨place, checked, rfl, checks⟩ := own
      exact .inr ⟨entry.2, checked, place, by simp [Fields.get?_cons, same],
        by simp [Fields.get?_cons, same], checks⟩
    · have skipped : Fields.get? handled name = none := by
        split at own
        · obtain ⟨place, checked, rfl, -⟩ := own
          simp [Fields.get?_cons, same]
        · rw [own]
          split <;> simp [Fields.get?_cons, same]
      rw [Fields.get?_cons, if_neg same, Fields.get?_append, skipped, Option.none_or]
      exact ih later

/-- An open record keeps the members that it has no fields for. -/
theorem checkMembers_open (ran : checkMembers true fields route members = .ok held)
    (keep : String → Bool) (other : ∀ field ∈ fields, keep field.name = false) :
    held.filter (fun entry => keep entry.1) = members.filter fun entry => keep entry.1 := by
  induction members generalizing held with
  | nil =>
    cases ran
    rfl
  | cons entry rest ih =>
    obtain ⟨handled, others, later, rfl, own⟩ := checkMembers_cons ran
    rw [List.filter_append, ih later, ← List.singleton_append, List.filter_append]
    congr 1
    split at own
    · rename_i field found
      obtain ⟨place, checked, rfl, -⟩ := own
      have same : field.name = entry.1 := by simpa using List.find?_some found
      have dropped := other field (List.mem_of_find?_eq_some found)
      rw [same] at dropped
      simp [dropped]
    · rw [own]
      rfl

/-- A member whose shape keeps values is kept. -/
theorem checkMembers_kept (ran : checkMembers isOpen fields route members = .ok held)
    {name : String} {required : Bool} {shape : Shape}
    (known : fields.find? (fun field => field.name = name) = some ⟨name, required, check shape⟩)
    (kept : shape.keeps = true) : Fields.get? held name = Fields.get? members name := by
  rcases checkMembers_field ran known with
    ⟨absent, also⟩ | ⟨value, checked, place, present, also, checks⟩
  · rw [absent, also]
  · rw [present, also, check_kept kept checks]

end

end Json.Shape

namespace Document

/-! ## Sources -/

/-- The places that hold the definitions of a document. -/
inductive Container where
  | schemas
  | defs
  | definitions

namespace Container

/-- The named schemas in a container. -/
def entries (json : Json) : Container → Fields Json
  | .schemas => container ((json.member? "components").getD .null) "schemas"
  | .defs => container json "$defs"
  | .definitions => container json "definitions"

def pointer : Container → String
  | .schemas => "#/components/schemas"
  | .defs => "#/$defs"
  | .definitions => "#/definitions"

/-- The reference to an entry of a container. -/
def reference (source : Container) (name : String) : String :=
  String.ofList (source.pointer.toList ++ '/' :: segment name)

end Container

/-- The members of a document that are not containers or its title. -/
def ownMembers (json : Json) : Fields Json :=
  (json.object?.getD []).filter fun (keyword, _) => !ownKeywords.contains keyword

/-- The document itself under its title, if it is one more definition. -/
def rootEntry (json : Json) : Fields Json :=
  match (json.member? "title").bind Json.string? with
  | some title =>
    if (ownMembers json).any fun (keyword, _) => rootKeywords.contains keyword then
      [(title, .object (rootMembers (ownMembers json)))]
    else []
  | none => []

/-- All definitions that a document gives, in the order in which they are collected. -/
def sources (json : Json) : Fields Json :=
  Container.schemas.entries json ++ Container.defs.entries json ++
    Container.definitions.entries json ++ rootEntry json

/-- A document is what some data is loaded as, be it a value or what was read from a text. -/
inductive Loads (document : Document) : Json → Prop where
  | value {json : Json} (loaded : ofJson json = .ok document) : Loads document json
  | text {json : Json} {cursor : Json.Cursor} (read : Json.scanText shape cursor = .ok json)
    (loaded : ofCursor cursor = .ok document) : Loads document json

/-- A name has a body among the definitions. -/
def Has (document : Document) (name : String) (body : Json) : Prop :=
  (Fields.get? document.definitions name).map Definition.toJson = some body

/-- What a reference leads to has the body. -/
def Resolves (document : Document) (reference : String) (body : Json) : Prop :=
  document.Has (referenceName reference) body

/-! ## Collecting -/

theorem collect_ok {bodies : List (String × Json)} {definitions : Collected}
    (collected : collect bodies = .ok definitions) :
    ∃ parts, bodies = Fields.mapValues Definition.toJson parts ∧
      definitions.1 = Fields.ofList parts := by
  have general : ∀ sofar : Collected, bodies.foldlM Collected.add sofar = .ok definitions →
      ∃ parts, bodies = Fields.mapValues Definition.toJson parts ∧
        definitions.1 = Fields.insertAll sofar.1 parts := by
    clear collected
    induction bodies with
    | nil =>
      intro sofar ran
      cases ran
      exact ⟨[], rfl, rfl⟩
    | cons entry rest ih =>
      intro sofar ran
      rw [List.foldlM_cons] at ran
      obtain ⟨next, first, ran⟩ := Outcomes.bind_ok.mp ran
      obtain ⟨definition, own, first⟩ := Outcomes.bind_ok.mp first
      cases first
      obtain ⟨parts, rfl, same⟩ := ih _ ran
      refine ⟨(entry.1, definition) :: parts, ?_, same⟩
      have body : entry.2 = definition.toJson := by
        cases shape : entry.2 with
        | object members =>
          rw [shape] at own
          cases own
          rfl
        | _ =>
          rw [shape] at own
          cases own
      show entry :: _ = (entry.1, definition.toJson) :: _
      rw [← body]
      rfl
  exact general _ collected

/-- The definitions of a document are its sources, a later one in the place of an earlier one. -/
theorem ofShaped_ok {document : Document} {json : Json} (loaded : ofShaped json = .ok document) :
    ∃ parts, sources json = Fields.mapValues Definition.toJson parts ∧
      document.definitions = Fields.ofList parts ∧
      document.root = (rootEntry json).head?.map Prod.fst := by
  unfold ofShaped at loaded
  obtain ⟨⟨definitions, distinct⟩, collected, loaded⟩ := Outcomes.bind_ok.mp loaded
  obtain ⟨parts, bodies, same⟩ := collect_ok collected
  cases same
  have whole : sources json = Fields.mapValues Definition.toJson parts ++ rootEntry json :=
    congrArg (· ++ rootEntry json) bodies
  cases named : (json.member? "title").bind Json.string? with
  | none =>
    have nothing : rootEntry json = [] := by rw [rootEntry, named]
    simp only [named] at loaded
    cases loaded
    exact ⟨parts, by rw [whole, nothing, List.append_nil], rfl, by rw [nothing]; rfl⟩
  | some title =>
    simp only [named] at loaded
    split at loaded
    · rename_i shaped
      have own : rootEntry json = [(title, .object (rootMembers (ownMembers json)))] := by
        rw [rootEntry, named]
        exact if_pos shaped
      cases loaded
      refine ⟨parts ++ [(title, ⟨rootMembers (ownMembers json)⟩)], ?_, ?_, by rw [own]; rfl⟩
      · rw [whole, own, Fields.mapValues, Fields.mapValues, List.map_append]
        rfl
      · exact (Fields.insertAll_append [] parts
          [(title, ⟨rootMembers (ownMembers json)⟩)]).symm
    · rename_i shapeless
      have nothing : rootEntry json = [] := by
        rw [rootEntry, named]
        exact if_neg shapeless
      cases loaded
      exact ⟨parts, by rw [whole, nothing, List.append_nil], rfl, by rw [nothing]; rfl⟩

/-! ## Reading -/

section

open Json.Shape (checkFields checkMembers)

/-- The keywords of a document that have a shape of their own. -/
def keywordShapes : List (String × Bool × Json.Shape) :=
  match shape with
  | .record _ _ fields => fields
  | _ => []

/-- A container that is written as a list of its fields has no names; all others keep theirs. -/
theorem components_checked {route : Json.Route} {value checked : Json}
    (ran : (Json.Shape.optional (.record "RawComponents" false
      [("schemas", false, .map .anything)])).check route value = .ok checked) :
    ∃ listed, container checked "schemas" = listed ++ container value "schemas" := by
  cases value with
  | null =>
    cases ran
    exact ⟨[], rfl⟩
  | object members =>
    simp only [Json.Shape.check, Json.Shape.checkRecord] at ran
    obtain ⟨held, first, ran⟩ := Outcomes.bind_ok.mp ran
    have same : Fields.get? held "schemas" = Fields.get? members "schemas" :=
      Json.Shape.checkMembers_kept first rfl rfl
    split at ran
    · cases ran
    · cases ran
      exact ⟨[], by simp [container, Json.member?, Json.object?, same]⟩
  | array items => exact ⟨container checked "schemas", (List.append_nil _).symm⟩
  | _ => cases ran

theorem conform_ok {json shaped : Json} (conformed : Json.conform shape json = .ok shaped) :
    ∃ members held, json = .object members ∧ shaped = .object held ∧
      checkMembers true (checkFields keywordShapes) [] members = .ok held := by
  have ran := Outcomes.mapError_ok.mp conformed
  cases json with
  | object members =>
    obtain ⟨held, first, ran⟩ := Outcomes.bind_ok.mp ran
    split at ran
    · cases ran
    · cases ran
      exact ⟨members, held, rfl, rfl, first⟩
  | _ => cases ran

/-- A document of the right shape gives the definitions of the value that it was made of, after what
it may have found in a list. -/
theorem conform_sources {json shaped : Json} (conformed : Json.conform shape json = .ok shaped) :
    rootEntry shaped = rootEntry json ∧ ∃ listed, sources shaped = listed ++ sources json := by
  obtain ⟨members, held, rfl, rfl, ran⟩ := conform_ok conformed
  have title : Fields.get? held "title" = Fields.get? members "title" :=
    Json.Shape.checkMembers_kept ran rfl rfl
  have defs : Container.defs.entries (.object held) = Container.defs.entries (.object members) := by
    have same : Fields.get? held "$defs" = Fields.get? members "$defs" :=
      Json.Shape.checkMembers_kept ran rfl rfl
    simp [Container.entries, container, Json.member?, Json.object?, same]
  have definitions : Container.definitions.entries (.object held) =
      Container.definitions.entries (.object members) := by
    have same : Fields.get? held "definitions" = Fields.get? members "definitions" :=
      Json.Shape.checkMembers_kept ran rfl rfl
    simp [Container.entries, container, Json.member?, Json.object?, same]
  have root : rootEntry (.object held) = rootEntry (.object members) := by
    have others : ownMembers (.object held) = ownMembers (.object members) :=
      Json.Shape.checkMembers_open ran (fun keyword => !ownKeywords.contains keyword)
        (by simp [checkFields, keywordShapes, shape, ownKeywords])
    simp only [rootEntry, others, Json.member?, Json.object?, Option.bind_some, title]
  have components : ∃ listed, Container.schemas.entries (.object held) =
      listed ++ Container.schemas.entries (.object members) := by
    have known : (checkFields keywordShapes).find? (fun field => field.name = "components") =
        some ⟨"components", false, Json.Shape.check _⟩ := rfl
    rcases Json.Shape.checkMembers_field ran known with
      ⟨absent, also⟩ | ⟨value, checked, place, present, also, checks⟩
    · exact ⟨[], by simp [Container.entries, Json.member?, Json.object?, absent, also]⟩
    · obtain ⟨listed, same⟩ := components_checked checks
      refine ⟨listed, ?_⟩
      simpa [Container.entries, Json.member?, Json.object?, present, also] using same
  obtain ⟨listed, components⟩ := components
  refine ⟨root, listed, ?_⟩
  rw [sources, sources, components, defs, definitions, root]
  simp only [List.append_assoc]

end

/-! ## What is found -/

theorem mem_sources_iff {json : Json} {entry : String × Json} :
    entry ∈ sources json ↔
      (∃ source : Container, entry ∈ source.entries json) ∨ entry ∈ rootEntry json := by
  simp only [sources, List.mem_append]
  constructor
  · rintro (((inSchemas | inDefs) | inDefinitions) | inRoot)
    · exact .inl ⟨.schemas, inSchemas⟩
    · exact .inl ⟨.defs, inDefs⟩
    · exact .inl ⟨.definitions, inDefinitions⟩
    · exact .inr inRoot
  · rintro (⟨source, held⟩ | inRoot)
    · cases source with
      | schemas => exact .inl (.inl (.inl held))
      | defs => exact .inl (.inl (.inr held))
      | definitions => exact .inl (.inr held)
    · exact .inr inRoot

theorem rootEntry_eq {json : Json} {entry : String × Json} (member : entry ∈ rootEntry json) :
    rootEntry json = [entry] := by
  unfold rootEntry at member ⊢
  split at member
  · split at member
    · rw [if_pos ‹_›, List.mem_singleton.mp member]
    · cases member
  · cases member

theorem resolves_reference {document : Document} {source : Container} {name : String}
    {body : Json} : document.Resolves (source.reference name) body ↔ document.Has name body := by
  rw [Resolves, Container.reference, referenceName_pointer]

section

variable {document : Document} {json : Json} (loads : document.Loads json)

include loads

theorem Loads.parts : ∃ listed parts,
    listed ++ sources json = Fields.mapValues Definition.toJson parts ∧
      document.definitions = Fields.ofList parts ∧
      document.root = (rootEntry json).head?.map Prod.fst := by
  cases loads with
  | value loaded =>
    obtain ⟨shaped, conformed, loaded⟩ := Outcomes.bind_ok.mp loaded
    obtain ⟨root, listed, same⟩ := conform_sources (Outcomes.mapError_ok.mp conformed)
    obtain ⟨parts, bodies, definitions, titled⟩ := ofShaped_ok loaded
    exact ⟨listed, parts, same ▸ bodies, definitions, root ▸ titled⟩
  | text read loaded =>
    unfold ofCursor at loaded
    rw [read] at loaded
    obtain ⟨parts, bodies, definitions, titled⟩ := ofShaped_ok loaded
    exact ⟨[], parts, bodies, definitions, titled⟩

/-- Under the name of a source the last body is found. -/
theorem Loads.has_iff {name : String} {body : Json}
    (named : name ∈ Fields.names (sources json)) :
    document.Has name body ↔ Fields.get? (Fields.ofList (sources json)) name = some body := by
  obtain ⟨listed, parts, bodies, same, -⟩ := loads.parts
  obtain ⟨last, found⟩ := Fields.mem_names_iff.mp (Fields.mem_names_ofList.mpr named)
  rw [Has, same, ← Fields.get?_mapValues, ← Fields.ofList_mapValues, ← bodies,
    Fields.get?_ofList_append, found, Option.some_or]

/-- The document itself is the last of its definitions. -/
theorem Loads.root_found {title : String} {body : Json} (member : (title, body) ∈ rootEntry json) :
    document.root = some title ∧ document.Has title body := by
  have single := rootEntry_eq member
  have last : ∃ before, sources json = before ++ (title, body) :: [] := ⟨_, by rw [← single]; rfl⟩
  obtain ⟨-, -, -, -, titled⟩ := loads.parts
  have named := Fields.name_mem (mem_sources_iff.mpr (.inr member))
  obtain ⟨before, last⟩ := last
  refine ⟨by rw [titled, single]; rfl, (loads.has_iff named).mpr ?_⟩
  exact Fields.get?_ofList_iff.mpr ⟨before, [], last, List.not_mem_nil⟩

/-- Loading tells definitions apart by their names alone. The body of an entry is what its reference
leads to exactly if it is the last body of its name among all definitions that the document gives;
the document itself is the last of all. So nothing is lost exactly if definitions of one name have
the same body. -/
theorem loads_keeps :
    (∀ (source : Container) (name : String) (body : Json), (name, body) ∈ source.entries json →
        (document.Resolves (source.reference name) body ↔ ∃ before after,
          sources json = before ++ (name, body) :: after ∧ name ∉ Fields.names after)) ∧
      (∀ title body, (title, body) ∈ rootEntry json →
        document.root = some title ∧ document.Has title body) ∧
      ((∀ (source : Container) (name : String) (body : Json), (name, body) ∈ source.entries json →
          document.Resolves (source.reference name) body) ↔
        ∀ name body other, (name, body) ∈ sources json → (name, other) ∈ sources json →
          body = other) := by
  refine ⟨?_, fun title body member => loads.root_found member, ?_, ?_⟩
  · intro source name body member
    have named := Fields.name_mem (mem_sources_iff.mpr (.inl ⟨source, member⟩))
    rw [resolves_reference, loads.has_iff named, Fields.get?_ofList_iff]
  · intro kept name body other member also
    have held : ∀ body, (name, body) ∈ sources json → document.Has name body := by
      intro body member
      rcases mem_sources_iff.mp member with ⟨source, inContainer⟩ | inRoot
      · exact resolves_reference.mp (kept source name body inContainer)
      · exact (loads.root_found inRoot).2
    exact Option.some.inj ((held body member).symm.trans (held other also))
  · intro agree source name body member
    have listed := mem_sources_iff.mpr (.inl ⟨source, member⟩)
    have named := Fields.name_mem listed
    obtain ⟨last, found⟩ := Fields.mem_names_iff.mp (Fields.mem_names_ofList.mpr named)
    obtain ⟨before, after, split, -⟩ := Fields.get?_ofList_iff.mp found
    have also : (name, last) ∈ sources json := by
      rw [split]
      simp
    rw [resolves_reference, loads.has_iff named, found, agree name body last listed also]

end

/-- An archive in which every kind of container has a definition, and which is one itself. -/
def archive : Json := .object [
  ("title", .string "Archive"), ("type", .string "object"),
  ("components", .object [("schemas", .object [("Book", .object [("type", .string "object")])])]),
  ("$defs", .object [("a/b~c", .object [("type", .string "string")])]),
  ("definitions", .object [("Year", .object [("type", .string "integer")])])]

theorem loads_keeps_archive :
    ∃ document : Document, document.Loads archive ∧
      Container.defs.reference "a/b~c" = "#/$defs/a~1b~0c" ∧
      document.Resolves (Container.defs.reference "a/b~c") (.object [("type", .string "string")]) ∧
      document.root = some "Archive" ∧
      document.Has "Archive" (.object [("type", .string "object")]) := by
  have given : (ofJson archive).toBool = true := by decide +kernel
  obtain ⟨document, loaded⟩ := Outcomes.toBool_iff.mp given
  have loads : document.Loads archive := .value loaded
  obtain ⟨resolves, root, -⟩ := loads_keeps loads
  have entry : rootEntry archive = [("Archive", .object [("type", .string "object")])] := by
    have title : (archive.member? "title").bind Json.string? = some "Archive" := rfl
    have members : ownMembers archive = [("type", .string "object")] := rfl
    have plain : "type".startsWith "$" = false := by decide +kernel
    simp [rootEntry, title, members, rootKeywords, rootMembers, plain]
  have own := root "Archive" (.object [("type", .string "object")])
    (entry ▸ List.mem_singleton_self _)
  refine ⟨document, loads, by decide +kernel, ?_, own⟩
  refine (resolves .defs "a/b~c" _ (List.mem_singleton_self _)).mpr ⟨_ :: [], _ :: _ :: [], rfl, ?_⟩
  decide +kernel

/-- A document that refers to a definition of its own title. -/
def sample : Json := .object [
  ("title", .string "Sample"), ("$ref", .string "#/$defs/Sample"),
  ("$defs", .object [("Sample", .object [("type", .string "object")])])]

/-- Whether an outcome is an error about a circle of references. -/
def isCircle {α : Type} : Except Error α → Bool
  | .error (.circularReference _) => true
  | _ => false

/-- The definition is lost, and the reference to it leads to itself. -/
theorem loads_loses_sample :
    ∃ document : Document, document.Loads sample ∧
      ("Sample", .object [("type", .string "object")]) ∈ Container.defs.entries sample ∧
      ¬document.Resolves "#/$defs/Sample" (.object [("type", .string "object")]) ∧
      isCircle document.compile = true := by
  have lost : ∃ document ∈ (ofJson sample).toOption,
      ((Fields.get? document.definitions "Sample").bind Definition.reference?) =
          some "#/$defs/Sample" ∧
        isCircle document.compile = true := by
    decide +kernel
  obtain ⟨document, loaded, lost, circle⟩ := lost
  refine ⟨document, .value (Outcomes.toOption_iff.mp loaded), List.mem_singleton_self _, ?_,
    circle⟩
  intro resolves
  have name : referenceName "#/$defs/Sample" = "Sample" := by decide +kernel
  rw [Resolves, name] at resolves
  obtain ⟨⟨members⟩, found, same⟩ := Option.map_eq_some_iff.mp resolves
  cases same
  rw [found] at lost
  cases lost

end Document

end TypedSchema
