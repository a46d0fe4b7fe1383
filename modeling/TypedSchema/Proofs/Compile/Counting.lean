import Mathlib.Algebra.GroupWithZero.Nat
import Mathlib.Algebra.Order.BigOperators.Group.List
import Mathlib.Algebra.Order.Group.Nat
import Mathlib.Data.List.Perm.Subperm
import TypedSchema.Proofs.Compile.Listing

/-!
How many names a compilation can make known. Every name is that of a schema at some place of the
document, each of these is an object, and no object is a schema at two places of the same
definition.
-/

namespace TypedSchema

namespace Json

mutual
/-- How many objects a document holds, itself included. -/
def objects : Json → Nat
  | .array items => objectsOfItems items
  | .object members => objectsOfMembers members + 1
  | _ => 0

def objectsOfItems : List Json → Nat
  | [] => 0
  | item :: rest => objects item + objectsOfItems rest

def objectsOfMembers : List (String × Json) → Nat
  | [] => 0
  | (_, value) :: rest => objects value + objectsOfMembers rest
end

theorem objectsOfItems_eq (items : List Json) :
    objectsOfItems items = (items.map objects).sum := by
  induction items with
  | nil => rfl
  | cons item rest ih => rw [objectsOfItems, ih, List.map_cons, List.sum_cons]

theorem objectsOfMembers_eq (members : Fields Json) :
    objectsOfMembers members = (members.map fun entry => entry.2.objects).sum := by
  induction members with
  | nil => rfl
  | cons entry rest ih => rw [objectsOfMembers, ih, List.map_cons, List.sum_cons]

theorem objects_le_of_mem {members : Fields Json} {entry : String × Json}
    (listed : entry ∈ members) : entry.2.objects ≤ objectsOfMembers members := by
  rw [objectsOfMembers_eq]
  exact List.single_le_sum (fun _ _ => Nat.zero_le _) _
    (List.mem_map_of_mem (f := fun entry : String × Json => entry.2.objects) listed)

theorem Child.objects_le {inner outer : Json} (child : Child inner outer) :
    inner.objects ≤ outer.objects := by
  cases child with
  | item listed =>
    rw [objects, objectsOfItems_eq]
    exact List.single_le_sum (fun _ _ => Nat.zero_le _) _ (List.mem_map_of_mem listed)
  | member listed => exact Nat.le_succ_of_le (objects_le_of_mem listed)

theorem objects_le_of_member? {json inner : Json} {name : String}
    (found : json.member? name = some inner) : inner.objects ≤ json.objects :=
  (child_of_member? found).objects_le

end Json

namespace Definition

/-- How many objects there are under a keyword. -/
def objectsUnder (members : Fields Json) (keyword : String) : Nat :=
  ((Fields.get? members keyword).map Json.objects).getD 0

theorem objectsUnder_le (members : Fields Json) (keyword : String) :
    objectsUnder members keyword ≤ Json.objectsOfMembers members := by
  unfold objectsUnder
  cases found : Fields.get? members keyword with
  | none => exact Nat.zero_le _
  | some json => exact Json.objects_le_of_mem (Fields.mem_of_get? found)

/-- What stands under two keywords stands in different places. -/
theorem objectsUnder_add_le (members : Fields Json) {first second : String}
    (different : first ≠ second) :
    objectsUnder members first + objectsUnder members second ≤ Json.objectsOfMembers members := by
  induction members with
  | nil => exact Nat.le_refl 0
  | cons entry rest ih =>
    have others := objectsUnder_le rest
    unfold objectsUnder at ih others ⊢
    rw [Json.objectsOfMembers, Fields.get?_cons, Fields.get?_cons]
    by_cases atFirst : first = entry.1
    · have atSecond : second ≠ entry.1 := fun same => different (atFirst.trans same.symm)
      have held := others second
      simp only [if_pos atFirst, if_neg atSecond, Option.map_some, Option.getD_some]
      omega
    · by_cases atSecond : second = entry.1
      · have held := others first
        simp only [if_neg atFirst, if_pos atSecond, Option.map_some, Option.getD_some]
        omega
      · simp only [if_neg atFirst, if_neg atSecond]
        omega

theorem objects_lt_of_get? {definition : Definition} {keyword : String} {json : Json}
    (found : definition.get? keyword = some json) : json.objects < definition.toJson.objects := by
  rw [toJson, Json.objects]
  exact Nat.lt_succ_of_le (Json.objects_le_of_mem (Fields.mem_of_get? found))

theorem objects_of_array? {definition : Definition} {keyword : String} {items : List Json}
    (found : definition.array? keyword = some items) :
    (items.map Json.objects).sum < definition.toJson.objects := by
  obtain ⟨json, held, array⟩ := Option.bind_eq_some_iff.mp found
  cases json with
  | array all =>
    cases array
    have whole := objects_lt_of_get? held
    rwa [Json.objects, Json.objectsOfItems_eq] at whole
  | _ => cases array

theorem objects_of_getD {definition : Definition} {keyword : String} :
    (((definition.array? keyword).getD []).map Json.objects).sum < definition.toJson.objects := by
  cases found : definition.array? keyword with
  | none =>
    rw [toJson, Json.objects]
    exact Nat.succ_pos _
  | some items => exact objects_of_array? found

theorem objects_of_properties (definition : Definition) :
    ((definition.properties?.getD []).map fun entry => entry.2.objects).sum ≤
      objectsUnder definition.members "properties" := by
  unfold properties? get? objectsUnder
  cases Fields.get? definition.members "properties" with
  | none => exact Nat.le_refl 0
  | some json =>
    cases json with
    | object fields =>
      show (fields.map fun entry => entry.2.objects).sum ≤ (Json.object fields).objects
      rw [Json.objects, ← Json.objectsOfMembers_eq]
      exact Nat.le_succ _
    | _ => exact Nat.zero_le _

theorem objects_pos (definition : Definition) : 0 < definition.toJson.objects := by
  rw [toJson, Json.objects]
  exact Nat.succ_pos _

end Definition

namespace Compile

/-- How many objects the schemas at some places hold. -/
def objectsAt (places : List (Definition × String)) : Nat :=
  (places.map fun place => place.1.toJson.objects).sum

theorem sum_filterMap_le {α β : Type} {read : α → Option β} {first : β → Nat} {second : α → Nat}
    (items : List α) (each : ∀ item ∈ items, ∀ result, read item = some result →
      first result ≤ second item) :
    ((items.filterMap read).map first).sum ≤ (items.map second).sum := by
  induction items with
  | nil => exact Nat.le_refl 0
  | cons item rest ih =>
    have others := ih fun other member => each other (List.mem_cons_of_mem item member)
    rw [List.map_cons, List.sum_cons]
    cases found : read item with
    | none =>
      rw [List.filterMap_cons_none found]
      omega
    | some result =>
      have own := each item List.mem_cons_self result found
      rw [List.filterMap_cons_some found, List.map_cons, List.sum_cons]
      omega

theorem objects_placeAt {hint : String} {schema : Json} {place : Definition × String}
    (read : placeAt hint schema = some place) : place.1.toJson.objects = schema.objects := by
  obtain ⟨node, -⟩ := mem_placeAt.mp read
  rw [Definition.ofJson_ok node]

theorem objects_zipIdx (items : List Json) :
    (items.zipIdx.map fun place => place.1.objects).sum = (items.map Json.objects).sum := by
  rw [← List.zipIdx_map_fst 0 items, List.map_map]
  simp [Function.comp_def]

/-- At most one schema is read from what stands under a keyword. -/
theorem objectsAt_keyword (definition : Definition) (keyword hint : String) :
    objectsAt ((definition.get? keyword).toList.filterMap (placeAt hint)) ≤
      Definition.objectsUnder definition.members keyword := by
  have each : ∀ schema ∈ (definition.get? keyword).toList, ∀ place,
      placeAt hint schema = some place → place.1.toJson.objects ≤ schema.objects :=
    fun schema _ place read => (objects_placeAt read).le
  refine Nat.le_trans (sum_filterMap_le _ each) ?_
  unfold Definition.get? Definition.objectsUnder
  cases Fields.get? definition.members keyword <;> simp

/-- At most one schema is read from each item of a list. -/
theorem objectsAt_items {items : List Json} {read : Json × Nat → Option (Definition × String)}
    (each : ∀ schema index place, read (schema, index) = some place →
      place.1.toJson.objects ≤ schema.objects) :
    objectsAt (items.zipIdx.filterMap read) ≤ (items.map Json.objects).sum := by
  rw [← objects_zipIdx]
  exact sum_filterMap_le _ fun item _ place found => each item.1 item.2 place found

/-- The schemas inside a definition stand in different places of it. -/
theorem objectsAt_partsOf (owner : String) (definition : Definition) (category : Category) :
    objectsAt (partsOf owner definition category) < definition.toJson.objects := by
  cases category with
  | custom =>
    have properties : objectsAt ((definition.properties?.getD []).filterMap fun entry =>
        placeAt (propertyHint owner (Naming.snake entry.1)) entry.2) ≤
          Definition.objectsUnder definition.members "properties" :=
      Nat.le_trans (sum_filterMap_le _ fun entry _ place read => (objects_placeAt read).le)
        definition.objects_of_properties
    have additional := objectsAt_keyword definition "additionalProperties"
      (owner ++ "_AdditionalProperties")
    have apart := Definition.objectsUnder_add_le definition.members
      (show "properties" ≠ "additionalProperties" by decide)
    rw [partsOf, objectsAt, List.map_append, List.sum_append, Definition.toJson, Json.objects]
    exact Nat.lt_succ_of_le (Nat.le_trans (Nat.add_le_add properties additional) apart)
  | list =>
    rw [Definition.toJson, Json.objects]
    exact Nat.lt_succ_of_le (Nat.le_trans (objectsAt_keyword definition "items" _)
      (Definition.objectsUnder_le _ _))
  | union =>
    rw [partsOf, alternatives, List.filterMap_filter]
    refine Nat.lt_of_le_of_lt (objectsAt_items fun schema index place found => ?_)
      definition.objects_of_getD
    simp only at found
    split at found
    · exact (objects_placeAt found).le
    · cases found
  | polymorph =>
    refine Nat.lt_of_le_of_lt (objectsAt_items fun part index place read => ?_)
      definition.objects_of_getD
    rw [objects_placeAt read]
    cases found : part.member? "then" with
    | none => exact Nat.zero_le _
    | some schema => exact Json.objects_le_of_member? found
  | multiInheritance =>
    exact Nat.lt_of_le_of_lt (objectsAt_items fun part index place read =>
      (objects_placeAt read).le) definition.objects_of_getD
  | _ => exact definition.objects_pos

/-- There are no more schemas inside a definition than objects. -/
theorem length_placesBelow (levels : Nat) (place : Definition × String) :
    (placesBelow levels place).length ≤ place.1.toJson.objects := by
  induction levels generalizing place with
  | zero => exact place.1.objects_pos
  | succ levels ih =>
    rw [placesBelow, List.length_cons]
    split
    · rename_i category _
      refine Nat.lt_of_le_of_lt ?_ (objectsAt_partsOf place.2 place.1 category)
      rw [List.length_flatMap, objectsAt]
      exact List.sum_le_sum fun part _ => ih part
    · exact place.1.objects_pos

end Compile

/-- How many objects the definitions of a document hold, each counted with all that are nested in
it. -/
def Document.objects (document : Document) : Nat :=
  (document.definitions.map fun entry => entry.2.toJson.objects).sum

namespace Compile

variable {document : Document} {workspace : Workspace}

/-- The names of all places of a document. -/
def placeNames (document : Document) : List String :=
  document.definitions.flatMap fun entry =>
    (placesBelow entry.2.toJson.depth (entry.2, entry.1)).map Prod.snd

theorem length_placeNames (document : Document) :
    (placeNames document).length ≤ document.objects := by
  rw [placeNames, List.length_flatMap, Document.objects]
  refine List.sum_le_sum fun entry _ => ?_
  rw [List.length_map]
  exact length_placesBelow _ _

theorem Placed.mem_placeNames {definition : Definition} {name : String}
    (placed : Placed document definition name) : name ∈ placeNames document := by
  obtain ⟨root, listed, levels, deep, among⟩ := placed.reached
  replace among := placesBelow_mono (Nat.le_trans (Nat.le_add_right ..) deep) among
  exact List.mem_flatMap.mpr ⟨root, listed, List.mem_map_of_mem among⟩

/-- No more names are registered than there are objects in a document. -/
theorem Sound.entries_le (sound : Sound document workspace) :
    workspace.registry.entries.length ≤ document.objects := by
  have among : Fields.names workspace.registry.entries ⊆ placeNames document := by
    intro name member
    obtain ⟨entry, present⟩ := Fields.mem_names_iff.mp member
    obtain ⟨held, known, -⟩ := (sound.entries name entry present).origin
    exact (sound.known name held known).placed.mem_placeNames
  have fewer := (List.subperm_of_subset sound.tables.entries among).length_le
  rw [Fields.names, List.length_map] at fewer
  exact Nat.le_trans fewer (length_placeNames document)

end Compile

end TypedSchema
