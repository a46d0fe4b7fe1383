/-!
Named fields in the order of their first insertion. A later insertion under a name that is present
replaces the value and keeps the place.
-/

namespace TypedSchema

abbrev Fields (α : Type) := List (String × α)

namespace Fields

variable {α β : Type}

def get? (fields : Fields α) (name : String) : Option α :=
  fields.lookup name

def has (fields : Fields α) (name : String) : Bool :=
  (get? fields name).isSome

def names (fields : Fields α) : List String :=
  fields.map Prod.fst

def values (fields : Fields α) : List α :=
  fields.map Prod.snd

def insert (fields : Fields α) (name : String) (value : α) : Fields α :=
  match fields with
  | [] => [(name, value)]
  | (first, held) :: rest =>
    if first = name then (first, value) :: rest else (first, held) :: insert rest name value

def insertAll (fields additions : Fields α) : Fields α :=
  additions.foldl (fun sofar entry => insert sofar entry.1 entry.2) fields

/-- The fields of a list in which a name may come twice. -/
def ofList (entries : List (String × α)) : Fields α :=
  insertAll [] entries

def erase (fields : Fields α) (name : String) : Fields α :=
  fields.filter fun entry => entry.1 ≠ name

def mapValues (f : α → β) (fields : Fields α) : Fields β :=
  fields.map fun (name, value) => (name, f value)

/-- No name comes twice. -/
abbrev Distinct (fields : Fields α) : Prop :=
  (names fields).Nodup

theorem names_insert (fields : Fields α) (name : String) (value : α) :
    names (insert fields name value) =
      if name ∈ names fields then names fields else names fields ++ [name] := by
  induction fields with
  | nil => simp [insert, names]
  | cons entry rest ih =>
    obtain ⟨first, held⟩ := entry
    rw [insert]
    by_cases same : first = name
    · simp [same, names]
    · simp only [names] at ih
      simp only [if_neg same, names, List.map_cons, ih, List.mem_cons, Ne.symm same, false_or]
      by_cases present : name ∈ List.map Prod.fst rest <;> simp [present]

theorem Distinct.insert {fields : Fields α} (distinct : Distinct fields) (name : String)
    (value : α) : Distinct (insert fields name value) := by
  rw [Distinct, names_insert]
  split
  · exact distinct
  · rename_i absent
    rw [List.nodup_append]
    refine ⟨distinct, by simp, ?_⟩
    intro first present second last equal
    rw [List.mem_singleton.mp last] at equal
    exact absent (equal ▸ present)

end Fields

end TypedSchema
