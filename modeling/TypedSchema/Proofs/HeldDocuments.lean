import TypedSchema.Proofs.DocumentLoading
import TypedSchema.Proofs.Values.Reading

/-!
What schema documents hold. A shape is checked or read without losing that the data is held, so that
a document from a text, or from held data, has no definition with repeated keys.
-/

namespace TypedSchema

namespace Json

/-! ## Shapes -/

namespace Shape

mutual
/-- Whether no record has two fields of one name. -/
def apart : Shape → Bool
  | .anything => true
  | .text => true
  | .optional shape => apart shape
  | .map values => apart values
  | .record _ _ fields => decide (fields.map Prod.fst).Nodup && apartFields fields

def apartFields : List (String × Bool × Shape) → Bool
  | [] => true
  | (_, _, shape) :: rest => apart shape && apartFields rest
end

/-! ### Checking -/

/-- Fields that give held data where they are given such data. -/
def ChecksHeld (check : Check) : Prop :=
  ∀ route value checked, value.Held → check route value = .ok checked → checked.Held

section

variable {fields : List (Field Check)} (each : ∀ field ∈ fields, ChecksHeld field.handle)

include each

theorem checkMembers_held {isOpen : Bool} {route : Route} {members held : Fields Json}
    (given : ∀ entry ∈ members, entry.2.Held)
    (ran : checkMembers isOpen fields route members = .ok held) :
    (Fields.names held).Sublist (Fields.names members) ∧ ∀ entry ∈ held, entry.2.Held := by
  induction members generalizing held with
  | nil =>
    cases ran
    exact ⟨.slnil, List.forall_mem_nil _⟩
  | cons entry rest ih =>
    obtain ⟨own, later⟩ := List.forall_mem_cons.mp given
    obtain ⟨handled, others, others_ran, rfl, first⟩ := checkMembers_cons ran
    obtain ⟨fewer, rest_held⟩ := ih later others_ran
    split at first
    · rename_i field found
      obtain ⟨place, checked, rfl, checks⟩ := first
      have checked_held := each field (List.mem_of_find?_eq_some found) place _ _ own checks
      exact ⟨fewer.cons_cons _, List.forall_mem_cons.mpr ⟨checked_held, rest_held⟩⟩
    · rw [first]
      split
      · exact ⟨fewer.cons_cons _, List.forall_mem_cons.mpr ⟨own, rest_held⟩⟩
      · exact ⟨fewer.cons _, rest_held⟩

theorem checkPositions_held {record : String} {total index : Nat} {route : Route}
    {items : List Json} {held : Fields Json} (given : ∀ item ∈ items, item.Held)
    (ran : checkPositions record total route index fields items = .ok held) :
    (Fields.names held).Sublist (fields.map Field.name) ∧ ∀ entry ∈ held, entry.2.Held := by
  -- On the fields, not the items: the names are those of the fields that have an item.
  induction fields generalizing index items held with
  | nil =>
    cases ran
    exact ⟨.slnil, List.forall_mem_nil _⟩
  | cons field rest ih =>
    obtain ⟨own, later⟩ := List.forall_mem_cons.mp each
    cases items with
    | nil =>
      rw [checkPositions] at ran
      split at ran
      · cases ran
      · obtain ⟨fewer, held⟩ := ih later given ran
        exact ⟨fewer.cons _, held⟩
    | cons item items =>
      obtain ⟨first, others⟩ := List.forall_mem_cons.mp given
      obtain ⟨checked, checks, ran⟩ := Outcomes.bind_ok.mp ran
      obtain ⟨handled, rest_ran, ran⟩ := Outcomes.bind_ok.mp ran
      cases ran
      obtain ⟨fewer, rest_held⟩ := ih later others rest_ran
      exact ⟨fewer.cons_cons _, List.forall_mem_cons.mpr
        ⟨own _ _ _ first (Outcomes.mapError_ok.mp checks), rest_held⟩⟩

theorem checkRecord_held {name : String} {isOpen : Bool}
    (names : (fields.map Field.name).Nodup) : ChecksHeld (checkRecord name isOpen fields) := by
  intro route value checked given ran
  cases value with
  | object members =>
    obtain ⟨held, first, ran⟩ := Outcomes.bind_ok.mp ran
    split at ran
    · cases ran
    · cases ran
      obtain ⟨fewer, held⟩ :=
        checkMembers_held each (fun _ listed => (Child.member listed).held given) first
      exact .object ((keyed_distinct given.keyed).sublist fewer) held
  | array items =>
    rw [checkRecord] at ran
    split at ran
    · cases ran
    · obtain ⟨held, first, ran⟩ := Outcomes.bind_ok.mp ran
      split at ran
      · cases ran
      · cases ran
        obtain ⟨fewer, held⟩ :=
          checkPositions_held each (fun _ listed => (Child.item listed).held given) first
        exact .object (names.sublist fewer) held
  | _ => cases ran

end

theorem checkValues_held {check : Check} (checks : ChecksHeld check) {route : Route}
    {members held : Fields Json} (given : ∀ entry ∈ members, entry.2.Held)
    (ran : checkValues check route members = .ok held) :
    Fields.names held = Fields.names members ∧ ∀ entry ∈ held, entry.2.Held := by
  induction members generalizing held with
  | nil =>
    cases ran
    exact ⟨rfl, List.forall_mem_nil _⟩
  | cons entry rest ih =>
    obtain ⟨own, later⟩ := List.forall_mem_cons.mp given
    obtain ⟨checked, first, ran⟩ := Outcomes.bind_ok.mp ran
    obtain ⟨others, rest_ran, ran⟩ := Outcomes.bind_ok.mp ran
    cases ran
    obtain ⟨same, rest_held⟩ := ih later rest_ran
    exact ⟨congrArg (entry.1 :: ·) same, List.forall_mem_cons.mpr
      ⟨checks _ _ _ own (Outcomes.mapError_ok.mp first), rest_held⟩⟩

theorem names_checkFields (fields : List (String × Bool × Shape)) :
    (checkFields fields).map Field.name = fields.map Prod.fst := by
  induction fields with
  | nil => rfl
  | cons entry rest ih => exact congrArg (entry.1 :: ·) ih

mutual
theorem check_held : (shape : Shape) → shape.apart = true → ChecksHeld shape.check
  | .anything, _, _, _, _, given, ran => by
    cases ran
    exact given
  | .text, _, _, value, _, given, ran => by
    cases value <;> cases ran
    exact given
  | .optional shape, apart, route, value, checked, given, ran => by
    cases value with
    | null =>
      cases ran
      exact given
    | _ => exact check_held shape apart route _ checked given ran
  | .map values, apart, route, value, checked, given, ran => by
    cases value with
    | object members =>
      obtain ⟨held, first, ran⟩ := Outcomes.bind_ok.mp ran
      cases ran
      obtain ⟨same, each⟩ := checkValues_held (check_held values apart)
        (fun _ listed => (Child.member listed).held given) first
      refine .object ?_ each
      rw [Fields.Distinct, same]
      exact keyed_distinct given.keyed
    | _ => cases ran
  | .record name isOpen fields, apart, route, value, checked, given, ran => by
    rw [Shape.apart, Bool.and_eq_true, decide_eq_true_eq] at apart
    exact checkRecord_held (checkFields_held fields apart.2)
      (names_checkFields fields ▸ apart.1) route value checked given ran

theorem checkFields_held : (fields : List (String × Bool × Shape)) → apartFields fields = true →
    ∀ field ∈ checkFields fields, ChecksHeld field.handle
  | [], _, _, listed => by cases listed
  | (name, required, shape) :: rest, apart, field, listed => by
    rw [apartFields, Bool.and_eq_true] at apart
    rcases List.mem_cons.mp listed with rfl | later
    · exact check_held shape apart.1
    · exact checkFields_held rest apart.2 field later
end

/-! ### Scanning -/

open Reader (Gives)

/-- Readers that give held data. -/
def ScansHeld (scan : Scan) : Prop :=
  ∀ nesting route, Gives Json.Held (scan nesting route)

theorem wrongKindNext_held (expected : String) : Gives Json.Held (wrongKindNext expected) := by
  unfold wrongKindNext
  refine .after fun first => ?_
  cases first with
  | none => exact .failNext
  | some first =>
    exact .ite (fun _ => .fail) fun _ => .ite (fun _ => .fail) fun _ => .after fun _ => .fail

theorem repeated_held {α : Type} {holds : α → Prop} (name : String) :
    Gives holds (repeated name) := by
  unfold repeated
  exact .after fun _ => .ite (fun _ => .after fun _ => .fail) fun _ => .fail

section

variable {fields : List (Field Scan)} (each : ∀ field ∈ fields, ScansHeld field.handle)

include each

theorem scanMembers_held {isOpen : Bool} {nesting : Nat} {route : Route} {steps : Nat}
    {first : Bool} {sofar : Fields Json} (held : (Json.object sofar).Held) :
    Gives (fun members => (Json.object members).Held)
      (scanMembers isOpen fields nesting route steps first sofar) := by
  induction steps generalizing first sofar with
  | zero => exact .fail
  | succ steps ih =>
    unfold scanMembers
    refine .after fun name => ?_
    cases name with
    | none => exact .after fun _ => .pure held
    | some name =>
      dsimp only
      split
      · rename_i field found
        have handles := each field (List.mem_of_find?_eq_some found)
        -- A known field that comes twice is refused; one that is not known is replaced, as in any
        -- object.
        refine .ite (fun _ => repeated_held name) fun _ => .after fun _ => ?_
        exact .bind ((handles _ _).along _) fun value own => ih (held.insert own name)
      · refine .after fun _ => .ite (fun _ => ?_) fun _ => .after fun _ => ih held
        exact .bind ((Reader.value_held _ _).along _) fun value own => ih (held.insert own name)

theorem scanPositions_held {record : String} {total nesting index : Nat} {route : Route} :
    Gives (fun held => (Fields.names held).Sublist (fields.map Field.name) ∧
        ∀ entry ∈ held, entry.2.Held)
      (scanPositions record total nesting route index fields) := by
  induction fields generalizing index with
  | nil => exact .after fun _ => .pure ⟨.slnil, List.forall_mem_nil _⟩
  | cons field rest ih =>
    obtain ⟨own, later⟩ := List.forall_mem_cons.mp each
    unfold scanPositions
    refine .after fun more => .ite (fun _ => ?_) fun _ => .ite (fun _ => .after fun _ => .fail)
      fun _ => .after fun _ => .pure ⟨List.nil_sublist _, List.forall_mem_nil _⟩
    refine .bind ((own _ _).along _) fun value first => .bind (ih later) fun held rest => .pure ?_
    exact ⟨rest.1.cons_cons _, List.forall_mem_cons.mpr ⟨first, rest.2⟩⟩

theorem scanRecord_held {name : String} {isOpen : Bool}
    (names : (fields.map Field.name).Nodup) : ScansHeld (scanRecord name isOpen fields) := by
  intro nesting route
  unfold scanRecord
  refine .after fun first => .ite (fun _ => ?_) fun _ => wrongKindNext_held _
  cases nesting with
  | zero => exact .failNext
  | succ nesting =>
    refine .after fun _ => .ite (fun _ => ?_) fun _ => .after fun steps => ?_
    · exact .bind (scanPositions_held each) fun held given =>
        .pure (.object (names.sublist given.1) given.2)
    · refine .bind (scanMembers_held each held_empty) fun held given => ?_
      split
      · exact .fail
      · exact .pure given

end

theorem names_scanFields (fields : List (String × Bool × Shape)) :
    (scanFields fields).map Field.name = fields.map Prod.fst := by
  induction fields with
  | nil => rfl
  | cons entry rest ih => exact congrArg (entry.1 :: ·) ih

mutual
theorem scan_held : (shape : Shape) → shape.apart = true → ScansHeld shape.scan
  | .anything, _ => Reader.value_held
  | .text, _ => fun _ _ => .after fun _ =>
    .ite (fun _ => .after fun _ => .after fun _ => .pure (held_of_alone rfl))
      fun _ => wrongKindNext_held _
  | .optional shape, apart => fun nesting route => .after fun _ =>
    .ite (fun _ => Reader.scalar_held _) fun _ => scan_held shape apart nesting route
  | .map values, apart => fun nesting route => by
    unfold scan
    refine .after fun _ => .ite (fun _ => ?_) fun _ => wrongKindNext_held _
    cases nesting with
    | zero => exact .failNext
    | succ nesting =>
      refine .after fun _ => .after fun _ => ?_
      exact .bind (Reader.members_held (scan_held values apart nesting) held_empty)
        fun _ held => .pure held
  | .record name isOpen fields, apart => by
    rw [Shape.apart, Bool.and_eq_true, decide_eq_true_eq] at apart
    exact scanRecord_held (scanFields_held fields apart.2) (names_scanFields fields ▸ apart.1)

theorem scanFields_held : (fields : List (String × Bool × Shape)) → apartFields fields = true →
    ∀ field ∈ scanFields fields, ScansHeld field.handle
  | [], _, _, listed => by cases listed
  | (name, required, shape) :: rest, apart, field, listed => by
    rw [apartFields, Bool.and_eq_true] at apart
    rcases List.mem_cons.mp listed with rfl | later
    · exact scan_held shape apart.1
    · exact scanFields_held rest apart.2 field later
end

end Shape

theorem conform_held {shape : Shape} (apart : shape.apart = true) {json checked : Json}
    (given : json.Held) (conformed : conform shape json = .ok checked) : checked.Held :=
  Shape.check_held shape apart _ _ _ given (Outcomes.mapError_ok.mp conformed)

theorem scanText_held {shape : Shape} (apart : shape.apart = true) {cursor : Cursor} {json : Json}
    (scanned : scanText shape cursor = .ok json) : json.Held := by
  have ran := Outcomes.mapError_ok.mp scanned
  cases given : (shape.scan Reader.nestingLimit []).run cursor with
  | error failure =>
    rw [given] at ran
    cases ran
  | ok outcome =>
    rw [given] at ran
    cases ran
    exact Shape.scan_held shape apart _ _ _ _ _ given

end Json

/-! ## Documents -/

namespace Document

/-- A document whose definitions are held. -/
def Held (document : Document) : Prop :=
  ∀ entry ∈ document.definitions, entry.2.toJson.Held

theorem shape_apart : shape.apart = true := by
  decide

section

variable {json : Json} (given : json.Held)

include given

theorem held_of_member (keyword : String) : ((json.member? keyword).getD .null).Held := by
  cases found : json.member? keyword with
  | none => exact Json.held_of_alone rfl
  | some inner => exact (Json.child_of_member? found).held given

theorem held_of_container {keyword : String} :
    ∀ entry ∈ container json keyword, entry.2.Held := by
  intro entry listed
  have whole := held_of_member given keyword
  unfold container at listed
  cases found : json.member? keyword with
  | none =>
    rw [found] at listed
    cases listed
  | some inner =>
    rw [found] at listed whole
    cases inner with
    | object members => exact (Json.Child.member listed).held whole
    | _ => cases listed

theorem held_of_rootEntry : ∀ entry ∈ rootEntry json, entry.2.Held := by
  intro entry listed
  unfold rootEntry at listed
  split at listed
  · split at listed
    · rw [List.mem_singleton.mp listed]
      cases json with
      | object members => exact given.sublist (List.filter_sublist.trans List.filter_sublist)
      | _ => exact Json.held_empty
    · cases listed
  · cases listed

theorem held_of_sources : ∀ entry ∈ sources json, entry.2.Held := by
  intro entry listed
  rcases mem_sources_iff.mp listed with ⟨source, held⟩ | own
  · cases source with
    | schemas => exact held_of_container (held_of_member given "components") entry held
    | defs => exact held_of_container given entry held
    | definitions => exact held_of_container given entry held
  · exact held_of_rootEntry given entry own

theorem ofShaped_held {document : Document} (loaded : ofShaped json = .ok document) :
    document.Held := by
  obtain ⟨parts, bodies, same, -⟩ := ofShaped_ok loaded
  intro entry listed
  rw [same] at listed
  have part : entry ∈ parts := (Fields.mem_insertAll listed).resolve_right List.not_mem_nil
  refine held_of_sources given (entry.1, entry.2.toJson) ?_
  rw [bodies]
  exact List.mem_map.mpr ⟨entry, part, rfl⟩

/-- Held data is loaded as a document that holds such data. -/
theorem ofJson_held {document : Document} (loaded : ofJson json = .ok document) :
    document.Held := by
  obtain ⟨shaped, conformed, loaded⟩ := Outcomes.bind_ok.mp loaded
  exact ofShaped_held (Json.conform_held shape_apart given (Outcomes.mapError_ok.mp conformed))
    loaded

end

/-- Whatever is read as a document holds such data. -/
theorem ofCursor_held {document : Document} {cursor : Json.Cursor}
    (loaded : ofCursor cursor = .ok document) : document.Held := by
  obtain ⟨json, scanned, loaded⟩ := Outcomes.bind_ok.mp loaded
  exact ofShaped_held (Json.scanText_held shape_apart (Outcomes.mapError_ok.mp scanned)) loaded

/-- Documents that were read are without repeated keys. -/
theorem ofCursor_keyed {document : Document} {cursor : Json.Cursor}
    (loaded : ofCursor cursor = .ok document) : ∃ keyed : Document.Keyed, keyed.val = document :=
  ⟨⟨document, fun entry listed => (ofCursor_held loaded entry listed).keyed⟩, rfl⟩

end Document

end TypedSchema
