import Mathlib.Data.List.Nodup
import TypedSchema.Fields

/-!
Fields as finite maps with an order: what is found under a name after each operation, and which
names there are in which order.
-/

namespace TypedSchema.Fields

variable {α β : Type}

/-! ## What is found -/

@[simp] theorem get?_nil (name : String) : get? ([] : Fields α) name = none := rfl

theorem get?_cons (entry : String × α) (rest : Fields α) (name : String) :
    get? (entry :: rest) name = if name = entry.1 then some entry.2 else get? rest name := by
  obtain ⟨first, held⟩ := entry
  by_cases same : name = first
  · simp [get?, same]
  · simp [get?, List.lookup_cons, same, beq_false_of_ne same]

theorem mem_of_get? {fields : Fields α} {name : String} {value : α}
    (found : get? fields name = some value) : (name, value) ∈ fields := by
  induction fields with
  | nil => simp at found
  | cons entry rest ih =>
    rw [get?_cons] at found
    split at found
    · rename_i same
      simp only [Option.some.injEq] at found
      simp [same, ← found]
    · exact List.mem_cons_of_mem _ (ih found)

theorem name_mem {fields : Fields α} {entry : String × α} (member : entry ∈ fields) :
    entry.1 ∈ names fields :=
  List.mem_map.mpr ⟨entry, member, rfl⟩

theorem value_mem {fields : Fields α} {entry : String × α} (member : entry ∈ fields) :
    entry.2 ∈ values fields :=
  List.mem_map.mpr ⟨entry, member, rfl⟩

theorem get?_eq_none_iff {fields : Fields α} {name : String} :
    get? fields name = none ↔ name ∉ names fields := by
  induction fields with
  | nil => simp [names]
  | cons entry rest ih =>
    rw [get?_cons]
    by_cases same : name = entry.1
    · simp [names, same]
    · simpa [names, same] using ih

theorem mem_names_iff {fields : Fields α} {name : String} :
    name ∈ names fields ↔ ∃ value, get? fields name = some value := by
  rw [← not_iff_not, ← get?_eq_none_iff]
  simp [Option.eq_none_iff_forall_not_mem]

theorem has_iff {fields : Fields α} {name : String} :
    has fields name = true ↔ name ∈ names fields := by
  rw [has, mem_names_iff, Option.isSome_iff_exists]

theorem has_eq_false_iff {fields : Fields α} {name : String} :
    has fields name = false ↔ get? fields name = none := by
  simp [has]

theorem distinct_cons {entry : String × α} {rest : Fields α} :
    Distinct (entry :: rest) ↔ entry.1 ∉ names rest ∧ Distinct rest := by
  rw [Distinct, Distinct, names, List.map_cons, List.nodup_cons]
  rfl

theorem get?_of_mem {fields : Fields α} (distinct : Distinct fields) {name : String} {value : α}
    (member : (name, value) ∈ fields) : get? fields name = some value := by
  induction fields with
  | nil => simp at member
  | cons entry rest ih =>
    rw [distinct_cons] at distinct
    rw [get?_cons]
    rcases List.mem_cons.mp member with rfl | later
    · simp
    · have other : name ≠ entry.1 := fun equal => distinct.1 (equal ▸ name_mem later)
      simp [other, ih distinct.2 later]

theorem get?_append (first second : Fields α) (name : String) :
    get? (first ++ second) name = (get? first name).or (get? second name) := by
  induction first with
  | nil => simp
  | cons entry rest ih =>
    rw [List.cons_append, get?_cons, get?_cons, ih]
    split <;> simp

theorem get?_filter (keep : String → Bool) (fields : Fields α) (name : String) :
    get? (fields.filter fun entry => keep entry.1) name =
      if keep name then get? fields name else none := by
  induction fields with
  | nil => simp
  | cons entry rest ih =>
    rw [List.filter_cons, get?_cons]
    by_cases same : name = entry.1
    · subst same
      by_cases kept : keep entry.1
      · simp [kept, get?_cons]
      · simp [kept, ih]
    · by_cases kept : keep entry.1
      · simp [kept, get?_cons, same, ih]
      · simp [kept, same, ih]

@[simp] theorem get?_erase (fields : Fields α) (erased name : String) :
    get? (erase fields erased) name = if name = erased then none else get? fields name := by
  have found := get?_filter (fun held => decide (held ≠ erased)) fields name
  by_cases same : name = erased <;> simpa [erase, same] using found

@[simp] theorem names_mapValues (f : α → β) (fields : Fields α) :
    names (mapValues f fields) = names fields := by
  simp [names, mapValues, Function.comp_def]

@[simp] theorem get?_mapValues (f : α → β) (fields : Fields α) (name : String) :
    get? (mapValues f fields) name = (get? fields name).map f := by
  induction fields with
  | nil => rfl
  | cons entry rest ih =>
    simp only [mapValues, List.map_cons] at ih ⊢
    rw [get?_cons, get?_cons, ih]
    split <;> rfl

/-! ## Insertion -/

@[simp] theorem get?_insert (fields : Fields α) (name : String) (value : α) (other : String) :
    get? (insert fields name value) other =
      if other = name then some value else get? fields other := by
  induction fields with
  | nil => simp [insert, get?_cons]
  | cons entry rest ih =>
    obtain ⟨first, held⟩ := entry
    rw [insert]
    by_cases same : first = name
    · subst same
      by_cases found : other = first <;> simp [get?_cons, found]
    · rw [if_neg same, get?_cons, get?_cons, ih]
      by_cases found : other = first
      · have different : other ≠ name := fun equal => same (found ▸ equal)
        simp [found, fun equal => same equal]
      · simp [found]

theorem mem_names_insert {fields : Fields α} {name : String} {value : α} {other : String} :
    other ∈ names (insert fields name value) ↔ other = name ∨ other ∈ names fields := by
  rw [mem_names_iff, mem_names_iff]
  by_cases same : other = name <;> simp [same]

theorem has_insert {fields : Fields α} {name : String} {value : α} {other : String}
    (held : has fields other = true) : has (insert fields name value) other = true := by
  rw [has_iff] at held ⊢
  exact mem_names_insert.mpr (.inr held)

theorem insert_of_absent {fields : Fields α} {name : String} (absent : name ∉ names fields)
    (value : α) : insert fields name value = fields ++ [(name, value)] := by
  induction fields with
  | nil => rfl
  | cons entry rest ih =>
    obtain ⟨first, held⟩ := entry
    simp only [names, List.map_cons, List.mem_cons, not_or] at absent
    rw [insert, if_neg (Ne.symm absent.1), ih absent.2, List.cons_append]

theorem insert_of_get? {fields : Fields α} {name : String} {value : α}
    (found : get? fields name = some value) : insert fields name value = fields := by
  induction fields with
  | nil => simp at found
  | cons entry rest ih =>
    obtain ⟨first, held⟩ := entry
    rw [get?_cons] at found
    rw [insert]
    by_cases same : first = name
    · simp only [same, if_true, Option.some.injEq] at found
      simp [same, found]
    · rw [if_neg (Ne.symm same)] at found
      rw [if_neg same, ih found]

theorem mem_insert {fields : Fields α} {name : String} {value : α} {entry : String × α}
    (member : entry ∈ insert fields name value) : entry = (name, value) ∨ entry ∈ fields := by
  induction fields with
  | nil => simpa [insert] using member
  | cons first rest ih =>
    obtain ⟨held, old⟩ := first
    rw [insert] at member
    split at member
    · rename_i same
      rcases List.mem_cons.mp member with rfl | later
      · exact .inl (by rw [same])
      · exact .inr (List.mem_cons_of_mem _ later)
    · rcases List.mem_cons.mp member with rfl | later
      · exact .inr List.mem_cons_self
      · rcases ih later with equal | old
        · exact .inl equal
        · exact .inr (List.mem_cons_of_mem _ old)

/-! ## Insertion of many -/

@[simp] theorem insertAll_nil (fields : Fields α) : insertAll fields [] = fields := rfl

@[simp] theorem insertAll_cons (fields : Fields α) (entry : String × α) (rest : Fields α) :
    insertAll fields (entry :: rest) = insertAll (insert fields entry.1 entry.2) rest := rfl

theorem insertAll_append (fields first second : Fields α) :
    insertAll fields (first ++ second) = insertAll (insertAll fields first) second :=
  List.foldl_append ..

theorem Distinct.insertAll {fields : Fields α} (distinct : Distinct fields)
    (additions : Fields α) : Distinct (insertAll fields additions) := by
  induction additions generalizing fields with
  | nil => exact distinct
  | cons entry rest ih => exact ih (distinct.insert entry.1 entry.2)

theorem mem_names_insertAll {fields additions : Fields α} {name : String} :
    name ∈ names (insertAll fields additions) ↔ name ∈ names fields ∨ name ∈ names additions := by
  induction additions generalizing fields with
  | nil => simp [names]
  | cons entry rest ih =>
    rw [insertAll_cons, ih, mem_names_insert]
    simp only [names, List.map_cons, List.mem_cons]
    tauto

theorem mem_insertAll {fields additions : Fields α} {entry : String × α}
    (member : entry ∈ insertAll fields additions) : entry ∈ additions ∨ entry ∈ fields := by
  induction additions generalizing fields with
  | nil => exact .inr member
  | cons first rest ih =>
    rcases ih member with added | held
    · exact .inl (List.mem_cons_of_mem _ added)
    · rcases mem_insert held with rfl | old
      · exact .inl List.mem_cons_self
      · exact .inr old

/-- Further additions under new and distinct names are still new when the first has been inserted. -/
theorem fresh_insert {fields rest : Fields α} {name : String} {value : α}
    (distinct : Distinct ((name, value) :: rest))
    (fresh : ∀ other ∈ names ((name, value) :: rest), other ∉ names fields) :
    ∀ other ∈ names rest, other ∉ names (insert fields name value) := by
  intro other member inserted
  cases mem_names_insert.mp inserted with
  | inl same => exact (distinct_cons.mp distinct).1 (same ▸ member)
  | inr held => exact fresh other (List.mem_cons_of_mem _ member) held

/-- Additions under new and distinct names go to the end. -/
theorem insertAll_of_absent {fields additions : Fields α} (distinct : Distinct additions)
    (absent : ∀ name ∈ names additions, name ∉ names fields) :
    insertAll fields additions = fields ++ additions := by
  induction additions generalizing fields with
  | nil => simp
  | cons entry rest ih =>
    have first : entry.1 ∉ names fields := absent entry.1 List.mem_cons_self
    rw [insertAll_cons, ih (distinct_cons.mp distinct).2 (fresh_insert distinct absent),
      insert_of_absent first, List.append_assoc, List.singleton_append]

theorem ofList_of_distinct {entries : Fields α} (distinct : Distinct entries) :
    ofList entries = entries := by
  rw [ofList, insertAll_of_absent distinct (by simp [names])]
  rfl

theorem distinct_ofList (entries : List (String × α)) : Distinct (ofList entries) :=
  Distinct.insertAll (by simp [Distinct, names]) entries

theorem mem_names_ofList {entries : List (String × α)} {name : String} :
    name ∈ names (ofList entries) ↔ name ∈ names entries := by
  rw [ofList, mem_names_insertAll]
  simp [names]

/-! ## Lists in which names come twice -/

theorem get?_insertAll_ofList (fields : Fields α) (additions : List (String × α)) (name : String) :
    get? (insertAll fields additions) name =
      (get? (ofList additions) name).or (get? fields name) := by
  induction additions generalizing fields with
  | nil => rfl
  | cons entry rest ih =>
    rw [ofList, insertAll_cons, insertAll_cons, ih, ih, get?_insert, get?_insert, Option.or_assoc]
    split
    · rfl
    · rfl

/-- The last value under a name counts. -/
theorem get?_ofList_append (first second : List (String × α)) (name : String) :
    get? (ofList (first ++ second)) name =
      (get? (ofList second) name).or (get? (ofList first) name) := by
  rw [ofList, insertAll_append, get?_insertAll_ofList]
  rfl

theorem get?_ofList_cons (entry : String × α) (rest : List (String × α)) (name : String) :
    get? (ofList (entry :: rest)) name =
      (get? (ofList rest) name).or (if name = entry.1 then some entry.2 else none) := by
  have single : get? (ofList [entry]) name = if name = entry.1 then some entry.2 else none :=
    get?_cons entry [] name
  rw [← List.singleton_append, get?_ofList_append, single]

theorem get?_ofList_eq_none_iff {entries : List (String × α)} {name : String} :
    get? (ofList entries) name = none ↔ name ∉ names entries := by
  rw [get?_eq_none_iff, mem_names_ofList]

/-- What is found is what the last entry of the name has. -/
theorem get?_ofList_iff {entries : List (String × α)} {name : String} {value : α} :
    get? (ofList entries) name = some value ↔
      ∃ before after, entries = before ++ (name, value) :: after ∧ name ∉ names after := by
  constructor
  · intro found
    induction entries with
    | nil => cases found
    | cons entry rest ih =>
      rw [get?_ofList_cons, Option.or_eq_some_iff] at found
      rcases found with later | ⟨absent, own⟩
      · obtain ⟨before, after, rfl, last⟩ := ih later
        exact ⟨entry :: before, after, rfl, last⟩
      · split at own
        · rename_i same
          cases own
          exact ⟨[], rest, by rw [same]; rfl, get?_ofList_eq_none_iff.mp absent⟩
        · cases own
  · rintro ⟨before, after, rfl, last⟩
    rw [get?_ofList_append, get?_ofList_cons, get?_ofList_eq_none_iff.mpr last]
    simp

theorem insert_mapValues (f : α → β) (fields : Fields α) (name : String) (value : α) :
    insert (mapValues f fields) name (f value) = mapValues f (insert fields name value) := by
  induction fields with
  | nil => rfl
  | cons entry rest ih =>
    obtain ⟨first, held⟩ := entry
    simp only [mapValues, List.map_cons] at ih ⊢
    rw [insert, insert]
    split
    · rfl
    · rw [ih, List.map_cons]

theorem insertAll_mapValues (f : α → β) (fields : Fields α) (additions : List (String × α)) :
    insertAll (mapValues f fields) (mapValues f additions) =
      mapValues f (insertAll fields additions) := by
  induction additions generalizing fields with
  | nil => rfl
  | cons entry rest ih =>
    rw [insertAll_cons, ← ih, ← insert_mapValues]
    rfl

theorem ofList_mapValues (f : α → β) (entries : List (String × α)) :
    ofList (mapValues f entries) = mapValues f (ofList entries) :=
  insertAll_mapValues f [] entries

/-- Which names come in which order depends on names alone. -/
theorem names_insertAll_congr {fields : Fields α} {others : Fields β}
    {additions : List (String × α)} {replacements : List (String × β)}
    (same : names fields = names others)
    (sameAdditions : names additions = names replacements) :
    names (insertAll fields additions) = names (insertAll others replacements) := by
  induction additions generalizing fields others replacements with
  | nil =>
    cases replacements with
    | nil => exact same
    | cons => cases sameAdditions
  | cons entry rest ih =>
    cases replacements with
    | nil => cases sameAdditions
    | cons other remaining =>
      simp only [names, List.map_cons, List.cons.injEq] at sameAdditions
      rw [insertAll_cons, insertAll_cons]
      refine ih ?_ sameAdditions.2
      rw [names_insert, names_insert, same, sameAdditions.1]

/-- Fields are given by the order of their names and by what is found under each. -/
theorem ext {first second : Fields α} (distinct : Distinct first)
    (sameNames : names first = names second)
    (sameValues : ∀ name ∈ names first, get? first name = get? second name) : first = second := by
  induction first generalizing second with
  | nil =>
    cases second with
    | nil => rfl
    | cons entry rest => simp [names] at sameNames
  | cons entry rest ih =>
    cases second with
    | nil => simp [names] at sameNames
    | cons other others =>
      simp only [names, List.map_cons, List.cons.injEq] at sameNames
      rw [distinct_cons] at distinct
      have heads := sameValues entry.1 (by simp [names])
      simp only [get?_cons, sameNames.1, if_true, Option.some.injEq] at heads
      have tails : rest = others := by
        refine ih distinct.2 sameNames.2 fun name member => ?_
        have found := sameValues name (List.mem_cons_of_mem _ member)
        have different : name ≠ entry.1 := fun equal => distinct.1 (equal ▸ member)
        rwa [get?_cons, get?_cons, if_neg different, if_neg (sameNames.1 ▸ different)] at found
      rw [tails, Prod.ext sameNames.1 heads]

/-- Fields in which the same is found under every name differ in their order only. -/
theorem perm_of_get? {first second : Fields α} (distinct : Distinct first)
    (others : Distinct second) (same : ∀ name, get? first name = get? second name) :
    first.Perm second := by
  refine (List.perm_ext_iff_of_nodup distinct.of_map others.of_map).mpr fun entry => ?_
  constructor
  · intro member
    exact mem_of_get? ((same entry.1).symm.trans (get?_of_mem distinct member))
  · intro member
    exact mem_of_get? ((same entry.1).trans (get?_of_mem others member))

/-- Under every name the same is found in any order. -/
theorem get?_of_perm {first second : Fields α} (distinct : Distinct second)
    (reordered : first.Perm second) (name : String) : get? first name = get? second name := by
  have others : Distinct first := (reordered.map Prod.fst).nodup_iff.mpr distinct
  refine Option.ext fun value => ?_
  constructor
  · exact fun found => get?_of_mem distinct (reordered.mem_iff.mp (mem_of_get? found))
  · exact fun found => get?_of_mem others (reordered.mem_iff.mpr (mem_of_get? found))

/-! ## Some of the names -/

theorem names_filter (keep : String → Bool) (fields : Fields α) :
    names (fields.filter fun entry => keep entry.1) = (names fields).filter keep := by
  simp [names, List.filter_map, Function.comp_def]

theorem filter_insert (keep : String → Bool) (fields : Fields α) (name : String) (value : α) :
    (insert fields name value).filter (fun entry => keep entry.1) =
      if keep name then insert (fields.filter fun entry => keep entry.1) name value
      else fields.filter fun entry => keep entry.1 := by
  induction fields with
  | nil => by_cases kept : keep name <;> simp [insert, kept]
  | cons entry rest ih =>
    obtain ⟨first, held⟩ := entry
    rw [insert]
    by_cases same : first = name
    · subst same
      by_cases kept : keep first <;> simp [kept, insert]
    · rw [if_neg same, List.filter_cons, List.filter_cons, ih]
      by_cases kept : keep first <;> by_cases added : keep name <;> simp [kept, added, insert, same]

theorem filter_insertAll (keep : String → Bool) (fields additions : Fields α) :
    (insertAll fields additions).filter (fun entry => keep entry.1) =
      insertAll (fields.filter fun entry => keep entry.1)
        (additions.filter fun entry => keep entry.1) := by
  induction additions generalizing fields with
  | nil => rfl
  | cons entry rest ih =>
    rw [insertAll_cons, ih, filter_insert, List.filter_cons]
    by_cases kept : keep entry.1 <;> simp [kept]

/-- Additions under names that are there leave the names as they are. -/
theorem names_insertAll_of_subset {fields additions : Fields α}
    (among : ∀ name ∈ names additions, name ∈ names fields) :
    names (insertAll fields additions) = names fields := by
  induction additions generalizing fields with
  | nil => rfl
  | cons entry rest ih =>
    have first : entry.1 ∈ names fields := among entry.1 (by simp [names])
    have same : names (insert fields entry.1 entry.2) = names fields := by
      rw [names_insert, if_pos first]
    rw [insertAll_cons, ih fun name later => ?_, same]
    rw [same]
    exact among name (List.mem_cons_of_mem _ later)

end TypedSchema.Fields
