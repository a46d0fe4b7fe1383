import Mathlib.Algebra.GroupWithZero.Nat
import TypedSchema.Proofs.Registry.Reach

/-!
The search for ancestors, whichever pending name it takes next. Whatever it finds is reached by links
to parents. Nothing that can be reached is lost, as the parents of all types seen so far have been
seen or are pending. The links of no type are followed twice, so that every search ends, also where
links form circles or lead to no type.
-/

namespace TypedSchema

namespace Registry

open Relation (ReflTransGen)

/-- The number of links to parents that are not followed yet. -/
def openLinks (composites : Fields Composite) (seen : List String) : Nat :=
  ((composites.filter fun entry => !seen.contains entry.1).map fun entry =>
    entry.2.parents.length).sum

theorem openLinks_cons (entry : String × Composite) (rest : Fields Composite)
    (seen : List String) :
    openLinks (entry :: rest) seen =
      (if entry.1 ∈ seen then 0 else entry.2.parents.length) + openLinks rest seen := by
  by_cases held : entry.1 ∈ seen
  · simp [openLinks, held]
  · simp [openLinks, held]

/-- The bound counts every link once. -/
theorem searchBound_eq (registry : Registry) :
    registry.searchBound = openLinks registry.composites [] + 2 := by
  have general : ∀ (composites : Fields Composite) (sofar : Nat),
      composites.foldl (fun sofar entry => sofar + entry.2.parents.length) sofar =
        openLinks composites [] + sofar := by
    intro composites
    induction composites with
    | nil => intro sofar; simp [openLinks]
    | cons entry rest ih =>
      intro sofar
      rw [List.foldl_cons, ih, openLinks_cons, if_neg List.not_mem_nil]
      omega
  exact general registry.composites 2

theorem openLinks_seen (composites : Fields Composite) (current : String) (seen : List String) :
    openLinks composites (current :: seen) ≤ openLinks composites seen := by
  induction composites with
  | nil => simp [openLinks]
  | cons entry rest ih =>
    simp only [openLinks_cons, List.mem_cons]
    by_cases same : entry.1 = current
    · simp only [same, true_or, if_true]
      omega
    · simp only [same, false_or]
      omega

variable {registry : Registry} {child parent ancestor current : String} {pending seen : List String}

theorem parentOf_iff : registry.ParentOf child parent ↔ parent ∈ registry.parentsOf child := by
  unfold ParentOf parentsOf
  cases Fields.get? registry.composites child with
  | none => simp
  | some composite => simp

/-- Following the links of a type uses them up. -/
theorem openLinks_follow (registry : Registry) (fresh : current ∉ seen) :
    openLinks registry.composites (current :: seen) + (registry.parentsOf current).length ≤
      openLinks registry.composites seen := by
  unfold parentsOf
  induction registry.composites with
  | nil => simp [openLinks]
  | cons entry rest ih =>
    rw [Fields.get?_cons, openLinks_cons, openLinks_cons]
    by_cases same : current = entry.1
    · subst same
      have others := openLinks_seen rest entry.1 seen
      simp only [if_true, List.mem_cons_self, if_neg fresh]
      omega
    · have different : entry.1 ≠ current := fun equal => same equal.symm
      simp only [if_neg same, List.mem_cons, different, false_or]
      omega

/-! ## Steps of the search -/

/-- How far a search has come: the names that it has still to look at, and those that it has
expanded. -/
structure Search where
  pending : List String
  seen : List String

/-- A search takes any one of the pending names, and goes on if that is not the ancestor. -/
inductive Search.Step (registry : Registry) (ancestor : String) : Search → Search → Prop where
  | drop {current : String} {pending rest seen : List String}
    (taken : pending.Perm (current :: rest)) (other : current ≠ ancestor)
    (known : current ∈ seen) : Step registry ancestor ⟨pending, seen⟩ ⟨rest, seen⟩
  | expand {current : String} {pending rest seen : List String}
    (taken : pending.Perm (current :: rest)) (other : current ≠ ancestor)
    (fresh : current ∉ seen) :
    Step registry ancestor ⟨pending, seen⟩ ⟨registry.parentsOf current ++ rest, current :: seen⟩

/-- A bound on the steps that are left. -/
def Search.remaining (registry : Registry) (search : Search) : Nat :=
  search.pending.length + openLinks registry.composites search.seen

variable {before after : Search}

theorem Search.Step.remaining_lt (step : Search.Step registry ancestor before after) :
    after.remaining registry < before.remaining registry := by
  cases step with
  | drop taken =>
    have length := taken.length_eq
    simp only [List.length_cons] at length
    simp only [Search.remaining]
    omega
  | expand taken _ fresh =>
    have length := taken.length_eq
    have fewer := openLinks_follow registry fresh
    simp only [List.length_cons] at length
    simp only [Search.remaining, List.length_append]
    omega

/-- Every search comes to an end. -/
theorem Search.terminates (registry : Registry) (ancestor : String) :
    WellFounded fun after before => Search.Step registry ancestor before after :=
  Subrelation.wf (fun step => step.remaining_lt)
    (measure (Search.remaining registry)).wf

/-- What a search can still find, it could find before. -/
theorem Search.Step.sound (step : Search.Step registry ancestor before after)
    (found : ∃ start ∈ after.pending, ReflTransGen registry.ParentOf start ancestor) :
    ∃ start ∈ before.pending, ReflTransGen registry.ParentOf start ancestor := by
  obtain ⟨start, member, upwards⟩ := found
  cases step with
  | drop taken => exact ⟨start, taken.mem_iff.mpr (List.mem_cons_of_mem _ member), upwards⟩
  | @expand current _ _ _ taken =>
    cases List.mem_append.mp member with
    | inl above =>
      exact ⟨current, taken.mem_iff.mpr List.mem_cons_self,
        .head (parentOf_iff.mpr above) upwards⟩
    | inr later => exact ⟨start, taken.mem_iff.mpr (List.mem_cons_of_mem _ later), upwards⟩

/-- The child is pending or has been seen. The parents of what has been seen have been seen as well or
are pending, and the ancestor is not among what has been seen. -/
structure Search.Covers (registry : Registry) (child ancestor : String) (search : Search) :
    Prop where
  child : child ∈ search.pending ∨ child ∈ search.seen
  parents : ∀ name ∈ search.seen, ∀ parent ∈ registry.parentsOf name,
    parent ∈ search.pending ∨ parent ∈ search.seen
  unseen : ancestor ∉ search.seen

namespace Search.Covers

theorem start (registry : Registry) (child ancestor : String) :
    Covers registry child ancestor ⟨[child], []⟩ :=
  ⟨.inl List.mem_cons_self, nofun, List.not_mem_nil⟩

theorem step (covers : Covers registry child ancestor before)
    (step : Search.Step registry ancestor before after) :
    Covers registry child ancestor after := by
  -- A name that is not lost is still pending, or it is the one that was taken.
  have kept : ∀ name, name ∈ before.pending ∨ name ∈ before.seen →
      name ∈ after.pending ∨ name ∈ after.seen := by
    intro name held
    cases step with
    | drop taken _ known =>
      simp only [taken.mem_iff, List.mem_cons] at held
      rcases held with (rfl | later) | earlier
      · exact .inr known
      · exact .inl later
      · exact .inr earlier
    | expand taken =>
      simp only [taken.mem_iff, List.mem_cons] at held
      rcases held with (rfl | later) | earlier
      · exact .inr List.mem_cons_self
      · exact .inl (List.mem_append_right _ later)
      · exact .inr (List.mem_cons_of_mem _ earlier)
  refine ⟨kept child covers.child, ?_, ?_⟩
  · intro name member parent above
    cases step with
    | drop => exact kept parent (covers.parents name member parent above)
    | expand =>
      cases List.mem_cons.mp member with
      | inl same => exact .inl (List.mem_append_left _ (same ▸ above))
      | inr earlier => exact kept parent (covers.parents name earlier parent above)
  · cases step with
    | drop => exact covers.unseen
    | expand _ other =>
      rw [List.mem_cons, not_or]
      exact ⟨other.symm, covers.unseen⟩

/-- With nothing pending, all that can be reached has been seen. -/
theorem exhausted (covers : Covers registry child ancestor before) (done : before.pending = []) :
    ¬ReflTransGen registry.ParentOf child ancestor := by
  have seen : ∀ name, name ∈ before.pending ∨ name ∈ before.seen → name ∈ before.seen := by
    intro name held
    rw [done] at held
    exact held.resolve_left List.not_mem_nil
  have reached : ∀ name, ReflTransGen registry.ParentOf child name → name ∈ before.seen := by
    intro name upwards
    induction upwards with
    | refl => exact seen child covers.child
    | tail _ link ih => exact seen _ (covers.parents _ ih _ (parentOf_iff.mp link))
  exact fun upwards => covers.unseen (reached ancestor upwards)

end Search.Covers

/-- Wherever a search has come, it may say that the ancestor is found if that is pending, and that it
cannot be found if nothing is. -/
theorem Search.answers {final : Search}
    (run : ReflTransGen (Search.Step registry ancestor) ⟨[child], []⟩ final) :
    (ancestor ∈ final.pending → ReflTransGen registry.ParentOf child ancestor) ∧
      (final.pending = [] → ¬ReflTransGen registry.ParentOf child ancestor) := by
  have covers : Search.Covers registry child ancestor final := by
    induction run with
    | refl => exact .start registry child ancestor
    | tail _ step ih => exact ih.step step
  have found : (∃ start ∈ final.pending, ReflTransGen registry.ParentOf start ancestor) →
      ∃ start ∈ [child], ReflTransGen registry.ParentOf start ancestor := by
    clear covers
    induction run with
    | refl => exact id
    | tail _ step ih => exact fun pending => ih (step.sound pending)
  constructor
  · intro pending
    obtain ⟨start, member, upwards⟩ := found ⟨ancestor, pending, .refl⟩
    rwa [List.mem_singleton.mp member] at upwards
  · exact covers.exhausted

/-! ## The search that is made -/

/-- With steps enough, the search goes on until the ancestor is found or nothing is pending. -/
theorem reaches_run (ancestor : String) {steps : Nat}
    (enough : Search.remaining registry ⟨pending, seen⟩ < steps) :
    ∃ final, ReflTransGen (Search.Step registry ancestor) ⟨pending, seen⟩ final ∧
      if registry.reaches ancestor steps pending seen = true then ancestor ∈ final.pending
      else final.pending = [] := by
  induction steps generalizing pending seen with
  | zero => exact absurd enough (Nat.not_lt_zero _)
  | succ steps ih =>
    cases pending with
    | nil => exact ⟨_, .refl, by simp [reaches]⟩
    | cons current rest =>
      have onwards : ∀ next, Search.Step registry ancestor ⟨current :: rest, seen⟩ next →
          ∃ final, ReflTransGen (Search.Step registry ancestor) ⟨current :: rest, seen⟩ final ∧
            if registry.reaches ancestor steps next.pending next.seen = true then
              ancestor ∈ final.pending
            else final.pending = [] := by
        intro next step
        have fewer := step.remaining_lt
        obtain ⟨final, run, answer⟩ := ih (Nat.lt_of_lt_of_le fewer (Nat.le_of_lt_succ enough))
        exact ⟨final, .head step run, answer⟩
      by_cases same : current = ancestor
      · refine ⟨_, .refl, ?_⟩
        rw [reaches, if_pos same, if_pos rfl, same]
        exact List.mem_cons_self
      · rw [reaches, if_neg same]
        by_cases known : current ∈ seen
        · rw [if_pos (List.contains_iff_mem.mpr known)]
          exact onwards _ (.drop (.refl _) same known)
        · rw [if_neg (mt List.contains_iff_mem.mp known)]
          exact onwards _ (.expand (.refl _) same known)

/-- Subtypes are the types that reach the ancestor by links to parents. -/
theorem isSubtype_iff :
    registry.isSubtype child ancestor = true ↔ ReflTransGen registry.ParentOf child ancestor := by
  have enough : Search.remaining registry ⟨[child], []⟩ < registry.searchBound := by
    rw [searchBound_eq]
    simp only [Search.remaining, List.length_singleton]
    omega
  obtain ⟨final, run, answer⟩ := reaches_run ancestor enough
  obtain ⟨sound, complete⟩ := Search.answers run
  unfold isSubtype
  split at answer
  · rename_i found
    exact ⟨fun _ => sound answer, fun _ => found⟩
  · rename_i missed
    exact ⟨fun found => absurd found missed, fun upwards => absurd upwards (complete answer)⟩

/-- A search among links in a circle ends as well. -/
example : isSubtype { composites := [
    ("Hen", .empty "Hen" (.passthrough "Egg") none),
    ("Egg", .empty "Egg" (.combined ["Hen", "Shell"]) none)] } "Hen" "Rooster" = false := by
  decide

/-- A type inherits from itself. -/
theorem isSubtype_refl (registry : Registry) (name : String) :
    registry.isSubtype name name = true :=
  isSubtype_iff.mpr .refl

end Registry

end TypedSchema
