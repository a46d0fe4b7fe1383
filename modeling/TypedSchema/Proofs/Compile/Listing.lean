import TypedSchema.Proofs.Compile.References

/-!
The schemas of a document in a list, with the names of their places, so that it can be tested whether
the names that they take are apart, and whether what they refer to is listed.
-/

namespace TypedSchema.Compile

/-- The schema read from a node, under a name. -/
def placeAt (hint : String) (schema : Json) : Option (Definition × String) :=
  (Definition.ofJson schema).toOption.map (·, hint)

/-- The schemas in a definition of a category, each under the name that is made for its place. -/
def partsOf (owner : String) (definition : Definition) : Category → List (Definition × String)
  | .custom =>
    ((definition.properties?.getD []).filterMap fun (key, schema) =>
      placeAt (propertyHint owner (Naming.snake key)) schema) ++
    definition.additionalProperties?.toList.filterMap (placeAt (owner ++ "_AdditionalProperties"))
  | .list => definition.items?.toList.filterMap (placeAt (owner ++ "_Item"))
  | .union => (alternatives definition).filterMap fun (schema, index) =>
    placeAt (optionHint owner index) schema
  | .polymorph => (definition.allOf?.getD []).zipIdx.filterMap fun (part, index) =>
    placeAt (optionHint owner index) ((part.member? "then").getD .null)
  | .multiInheritance => (definition.allOf?.getD []).zipIdx.filterMap fun (part, index) =>
    placeAt s!"{owner}_Parent{index}" part
  | _ => []

/-- A schema and those inside it, so many levels deep. -/
def placesBelow : Nat → Definition × String → List (Definition × String)
  | 0, place => [place]
  | levels + 1, place =>
    place ::
      match place.1.shape with
      | .ok category => (partsOf place.2 place.1 category).flatMap (placesBelow levels)
      | .error _ => []

/-- The schemas inside the definitions of a document. -/
def placesInside (document : Document) : List (Definition × String) :=
  document.definitions.flatMap fun (name, definition) =>
    (placesBelow definition.toJson.depth (definition, name)).tail

/-- The names that a schema refers to for its own type. -/
def referencesOf (definition : Definition) : List String :=
  match definition.shape with
  | .ok .passthrough => definition.referenceName?.toList
  | .ok .multiInheritance => (definition.allOf?.getD []).filterMap fun part =>
    (Definition.ofJson part).toOption.bind Definition.referenceName?
  | .ok .polymorph =>
    match definition.discriminator? with
    | .ok (some discriminator) => (targetsOf definition discriminator).map Prod.snd
    | _ => []
  | _ => []

/-- The schemas that take names, under these: those listed, and those inside whose type needs one. -/
def takers (document : Document) : Fields Definition :=
  document.definitions ++
    ((placesInside document).filter fun place =>
      place.1.shape.toOption.any isAnonymous).map fun place => (place.2, place.1)

theorem mem_placeAt {owner hint : String} {schema : Json} {inner : Definition} :
    placeAt owner schema = some (inner, hint) ↔
      Definition.ofJson schema = .ok inner ∧ hint = owner := by
  unfold placeAt
  cases Definition.ofJson schema <;> simp [Except.toOption, eq_comm]

theorem Part.listed {owner hint : String} {outer inner : Definition} {category : Category}
    (part : Part owner outer category inner hint) :
    (inner, hint) ∈ partsOf owner outer category := by
  cases part with
  | property declared node =>
    refine List.mem_append_left _ (List.mem_filterMap.mpr ⟨_, declared, ?_⟩)
    exact mem_placeAt.mpr ⟨node, rfl⟩
  | additional declared node =>
    refine List.mem_append_right _ (List.mem_filterMap.mpr ⟨_, ?_, mem_placeAt.mpr ⟨node, rfl⟩⟩)
    rw [declared]
    exact List.mem_singleton_self _
  | item declared node =>
    refine List.mem_filterMap.mpr ⟨_, ?_, mem_placeAt.mpr ⟨node, rfl⟩⟩
    rw [declared]
    exact List.mem_singleton_self _
  | option declared node =>
    exact List.mem_filterMap.mpr ⟨_, declared, mem_placeAt.mpr ⟨node, rfl⟩⟩
  | @branch parts part index _ allOf declared node =>
    refine List.mem_filterMap.mpr ⟨(part, index), ?_, mem_placeAt.mpr ⟨node, rfl⟩⟩
    rw [allOf]
    exact declared
  | parent declared node =>
    exact List.mem_filterMap.mpr ⟨_, declared, mem_placeAt.mpr ⟨node, rfl⟩⟩

theorem placesBelow_eq (levels : Nat) (place : Definition × String) :
    placesBelow levels place = place :: (placesBelow levels place).tail := by
  cases levels <;> rfl

theorem mem_placesBelow_self (levels : Nat) (place : Definition × String) :
    place ∈ placesBelow levels place := by
  cases levels <;> exact List.mem_cons_self

theorem mem_placesBelow {levels : Nat} {place other : Definition × String} :
    other ∈ placesBelow (levels + 1) place ↔ other = place ∨
      ∃ category, place.1.shape = .ok category ∧
        ∃ middle ∈ partsOf place.2 place.1 category, other ∈ placesBelow levels middle := by
  rw [placesBelow, List.mem_cons]
  cases place.1.shape <;> simp

/-- What stands inside a schema is reached one level deeper. -/
theorem mem_placesBelow_part {levels : Nat} {place : Definition × String} {owner hint : String}
    {outer inner : Definition} {category : Category}
    (among : (outer, owner) ∈ placesBelow levels place) (shape : outer.shape = .ok category)
    (part : Part owner outer category inner hint) :
    (inner, hint) ∈ placesBelow (levels + 1) place := by
  induction levels generalizing place with
  | zero =>
    cases List.mem_singleton.mp among
    exact mem_placesBelow.mpr (.inr ⟨category, shape, _, part.listed, mem_placesBelow_self ..⟩)
  | succ levels ih =>
    rcases mem_placesBelow.mp among with rfl | ⟨own, ownShape, middle, listed, deeper⟩
    · exact mem_placesBelow.mpr (.inr ⟨category, shape, _, part.listed, mem_placesBelow_self ..⟩)
    · exact mem_placesBelow.mpr (.inr ⟨own, ownShape, middle, listed, ih deeper⟩)

theorem placesBelow_mono {levels more : Nat} (fewer : levels ≤ more)
    {place other : Definition × String} (among : other ∈ placesBelow levels place) :
    other ∈ placesBelow more place := by
  induction more generalizing levels place with
  | zero =>
    rw [Nat.le_zero.mp fewer] at among
    exact among
  | succ more ih =>
    cases levels with
    | zero =>
      rw [List.mem_singleton.mp among]
      exact mem_placesBelow_self ..
    | succ levels =>
      rcases mem_placesBelow.mp among with rfl | ⟨category, shape, middle, listed, deeper⟩
      · exact mem_placesBelow_self ..
      · exact mem_placesBelow.mpr
          (.inr ⟨category, shape, middle, listed, ih (Nat.le_of_succ_le_succ fewer) deeper⟩)

/-- Each level takes one off the depth, so the levels of a whole definition suffice. -/
theorem Placed.reached {document : Document} {definition : Definition} {name : String}
    (placed : Placed document definition name) :
    ∃ root ∈ document.definitions, ∃ levels,
      levels + definition.toJson.depth ≤ root.2.toJson.depth ∧
        (definition, name) ∈ placesBelow levels (root.2, root.1) := by
  induction placed with
  | listed listed => exact ⟨_, listed, 0, by simp, mem_placesBelow_self ..⟩
  | part _ shape part ih =>
    obtain ⟨root, listed, levels, deep, among⟩ := ih
    have smaller := part.inside.depth_lt
    exact ⟨root, listed, levels + 1, by omega, mem_placesBelow_part among shape part⟩

theorem Placed.listed_or_inside {document : Document} {definition : Definition} {name : String}
    (placed : Placed document definition name) :
    (name, definition) ∈ document.definitions ∨ (definition, name) ∈ placesInside document := by
  obtain ⟨root, listed, levels, deep, among⟩ := placed.reached
  replace among := placesBelow_mono (Nat.le_trans (Nat.le_add_right ..) deep) among
  rw [placesBelow_eq, List.mem_cons] at among
  cases among with
  | inl same =>
    cases same
    exact .inl listed
  | inr inside => exact .inr (List.mem_flatMap.mpr ⟨root, listed, inside⟩)

theorem Named.mem_takers {document : Document} {name : String} {definition : Definition}
    {category : Category} (named : Named document name definition category) :
    (name, definition) ∈ takers document := by
  cases named.needed with
  | inl listed => exact List.mem_append_left _ listed
  | inr anonymous =>
    cases named.placed.listed_or_inside with
    | inl listed => exact List.mem_append_left _ listed
    | inr inside =>
      refine List.mem_append_right _ (List.mem_map.mpr ⟨(definition, name), ?_, rfl⟩)
      rw [List.mem_filter, named.shape]
      exact ⟨inside, by simpa [Except.toOption] using anonymous⟩

/-- Names are apart if no name is in the list twice. -/
theorem namesApart_of_distinct {document : Document}
    (distinct : Fields.Distinct (takers document)) : NamesApart document := by
  intro name first second firstCategory secondCategory firstNamed secondNamed
  have held := Fields.get?_of_mem distinct firstNamed.mem_takers
  rw [Fields.get?_of_mem distinct secondNamed.mem_takers] at held
  exact (Option.some.inj held).symm

theorem RefersTo.mem_referencesOf {definition : Definition} {target : String}
    (refers : RefersTo definition target) : target ∈ referencesOf definition := by
  unfold referencesOf
  cases refers with
  | reference shape referred =>
    rw [shape]
    simp [referred]
  | parent shape declared node _ referred =>
    rw [shape]
    refine List.mem_filterMap.mpr ⟨_, declared, ?_⟩
    rw [node]
    exact referred
  | key shape _ found mapped =>
    rw [shape, found]
    exact List.mem_map_of_mem mapped

/-- Whether references are to listed definitions can be tested for each schema. -/
theorem referencesListed_of_targets {document : Document}
    (listed : ∀ definition ∈ Fields.values document.definitions ++
      (placesInside document).map Prod.fst,
        ∀ target ∈ referencesOf definition, target ∈ Fields.names document.definitions) :
    ReferencesListed document := by
  intro definition name target _ _ placed refers _
  refine listed definition ?_ target refers.mem_referencesOf
  cases placed.listed_or_inside with
  | inl own => exact List.mem_append_left _ (Fields.value_mem own)
  | inr inside => exact List.mem_append_right _ (List.mem_map_of_mem inside)

/-! ## Depth -/

theorem fold_depth_le_iff {definitions : Fields Definition} {sofar most : Nat} :
    definitions.foldl (fun sofar (_, definition) => max sofar definition.toJson.depth) sofar ≤
      most ↔ sofar ≤ most ∧ ∀ entry ∈ definitions, entry.2.toJson.depth ≤ most := by
  induction definitions generalizing sofar with
  | nil => simp
  | cons first rest ih => rw [List.foldl_cons, ih, List.forall_mem_cons, Nat.max_le, and_assoc]

theorem nesting_le_iff {document : Document} {most : Nat} :
    nesting document ≤ most ↔ ∀ entry ∈ document.definitions, entry.2.toJson.depth ≤ most := by
  rw [nesting, fold_depth_le_iff]
  simp

theorem Placed.depth_le {document : Document} {definition : Definition} {name : String}
    (placed : Placed document definition name) :
    definition.toJson.depth ≤ nesting document := by
  obtain ⟨root, listed, levels, deep, -⟩ := placed.reached
  have whole := nesting_le_iff.mp (Nat.le_refl _) root listed
  omega

theorem depth_pos (definition : Definition) : 0 < definition.toJson.depth := by
  rw [Definition.toJson, Json.depth]
  omega

end TypedSchema.Compile
