import Mathlib.Data.List.Forall2

/-!
Lists whose members correspond in their places: an entry and the property bound for it, an item and
what it was cast to, an attribute and what it was written as.
-/

namespace TypedSchema.Lists

variable {α β γ : Type}

section

variable {related : α → β → Prop} {sources : List α} {results : List β}
  (each : List.Forall₂ related sources results)

include each

/-- Every result comes from some source. -/
theorem source_of_result {result : β} (member : result ∈ results) :
    ∃ source ∈ sources, related source result := by
  induction each with
  | nil => cases member
  | @cons source first _ _ own _ ih =>
    cases List.mem_cons.mp member with
    | inl same => exact ⟨source, List.mem_cons_self, same ▸ own⟩
    | inr later =>
      obtain ⟨source, held, own⟩ := ih later
      exact ⟨source, List.mem_cons_of_mem _ held, own⟩

theorem result_of_source {source : α} (member : source ∈ sources) :
    ∃ result ∈ results, related source result :=
  source_of_result each.flip member

/-- Labels of results are labels of what they came from. -/
theorem map_of_related {sourceLabel : α → γ} {resultLabel : β → γ}
    (same : ∀ source result, related source result → resultLabel result = sourceLabel source) :
    results.map resultLabel = sources.map sourceLabel := by
  induction each with
  | nil => rfl
  | cons first _ ih => rw [List.map_cons, List.map_cons, ih, same _ _ first]

end

/-- What corresponds to two lists one after the other consists of two lists as well. -/
theorem split_of_related {related : α → β → Prop} {first second : List α} {results : List β}
    (each : List.Forall₂ related (first ++ second) results) :
    ∃ before after, results = before ++ after ∧ List.Forall₂ related first before ∧
      List.Forall₂ related second after := by
  induction first generalizing results with
  | nil => exact ⟨[], results, rfl, .nil, each⟩
  | cons source rest ih =>
    obtain ⟨result, later, own, others, rfl⟩ := List.forall₂_cons_left_iff.mp each
    obtain ⟨before, after, rfl, firsts, seconds⟩ := ih others
    exact ⟨result :: before, after, rfl, .cons own firsts, seconds⟩

/-- Members that correspond are in the same place. -/
theorem zipped {related : α → β → Prop} {sources : List α} {results : List β}
    (each : List.Forall₂ related sources results) :
    List.Forall₂ (fun source result => (source, result) ∈ sources.zip results ∧
      related source result) sources results := by
  rw [List.forall₂_iff_zip] at each ⊢
  exact ⟨each.1, fun member => ⟨member, each.2 member⟩⟩

/-- If every source has a result, the results are a list. -/
theorem exists_results {related : α → β → Prop} {sources : List α}
    (each : ∀ source ∈ sources, ∃ result, related source result) :
    ∃ results, List.Forall₂ related sources results := by
  induction sources with
  | nil => exact ⟨[], .nil⟩
  | cons source rest ih =>
    obtain ⟨result, own⟩ := each source List.mem_cons_self
    obtain ⟨results, others⟩ := ih fun other member =>
      each other (List.mem_cons_of_mem source member)
    exact ⟨result :: results, .cons own others⟩

/-- A lookup of every item finds what corresponds to the items. -/
theorem mapM_eq_some {look : α → Option β} {items : List α} {found : List β} :
    items.mapM look = some found ↔
      List.Forall₂ (fun item result => look item = some result) items found := by
  constructor
  · intro all
    induction items generalizing found with
    | nil =>
      cases all
      exact .nil
    | cons first rest ih =>
      simp only [List.mapM_cons, Option.bind_eq_bind, Option.bind_eq_some_iff, Option.pure_def,
        Option.some.injEq] at all
      obtain ⟨own, ownFound, others, othersFound, rfl⟩ := all
      exact .cons ownFound (ih othersFound)
  · intro each
    induction each with
    | nil => rfl
    | cons first _ ih =>
      rw [List.mapM_cons, first, ih]
      rfl

/-- Only members of the sources have to correspond in the same way. -/
theorem related_congr {first second : α → β → Prop} {sources : List α} {results : List β}
    (same : ∀ source ∈ sources, ∀ result, first source result ↔ second source result) :
    List.Forall₂ first sources results ↔ List.Forall₂ second sources results := by
  induction sources generalizing results with
  | nil => simp
  | cons source rest ih =>
    have later : ∀ others, List.Forall₂ first rest others ↔ List.Forall₂ second rest others :=
      fun others => ih fun other member => same other (List.mem_cons_of_mem source member)
    simp only [List.forall₂_cons_left_iff, same source List.mem_cons_self, later]

/-- Results that are determined by what they come from are the same for the same sources. -/
theorem unique_of_related {first second : α → β → Prop} {sources : List α} {results others : List β}
    (each : List.Forall₂ first sources results) (also : List.Forall₂ second sources others)
    (unique : ∀ result ∈ results, ∀ source other, first source result → second source other →
      other = result) : others = results := by
  induction each generalizing others with
  | nil =>
    cases also
    rfl
  | cons own _ ih =>
    cases also with
    | cons same later =>
      rw [unique _ List.mem_cons_self _ _ own same,
        ih later fun result member => unique result (List.mem_cons_of_mem _ member)]

/-- Lists whose members are equal in their places are equal. -/
theorem eq_of_related {related : α → α → Prop} {items others : List α}
    (each : List.Forall₂ related items others)
    (same : ∀ item ∈ items, ∀ other, related item other → other = item) : others = items := by
  induction each with
  | nil => rfl
  | cons first _ ih =>
    rw [same _ List.mem_cons_self _ first,
      ih fun item member => same item (List.mem_cons_of_mem _ member)]

/-- What has a label of its own is all that a search for the label finds. -/
theorem filter_label [DecidableEq β] {label : α → β} {items : List α}
    (distinct : (items.map label).Nodup) {item : α} (member : item ∈ items) :
    items.filter (fun other => label other = label item) = [item] := by
  induction items with
  | nil => cases member
  | cons first rest ih =>
    rw [List.map_cons, List.nodup_cons] at distinct
    obtain ⟨fresh, distinct⟩ := distinct
    cases List.mem_cons.mp member with
    | inl same =>
      subst same
      have none : rest.filter (fun other => label other = label item) = [] := by
        simp only [List.filter_eq_nil_iff, decide_eq_true_eq]
        exact fun other held equal => fresh (equal ▸ List.mem_map_of_mem held)
      simp [none]
    | inr later =>
      have different : label first ≠ label item := fun equal =>
        fresh (equal ▸ List.mem_map_of_mem later)
      simp [different, ih distinct later]

end TypedSchema.Lists
