import TypedSchema.Proofs.Decode.Recasting
import TypedSchema.Proofs.Decode.SteadyCasts

/-!
Lists that are cast item by item. Items of plain data do not notice each other, and an item that is
of the type already is left as it is by a cast, unless whatever can be cast is of the type already.
-/

namespace TypedSchema

namespace Decode

variable {registry : Registry} {cast : Cast}

/-! ## Items on their own -/

/-- Items are cast one after another if each can be cast on its own, with any table that may come
up, and they are cast to the same. -/
theorem castItems_gives {near : NameTable → Prop} {allowed : String → Prop}
    (upward : Upward near allowed) (steady : SteadyCast registry near allowed cast)
    {caster : Caster} {items results : List Value}
    (each : ∀ item ∈ items, item.Settled registry near allowed) {names start : NameTable}
    (here : near names) (there : near start) (index : Nat) :
    ((castItems cast caster index items).run names).1 = .ok results ↔
      List.Forall₂ (fun item result => ((cast caster item).run start).1 = .ok result) items
        results := by
  induction items generalizing names index results with
  | nil => simp [castItems, eq_comm]
  | cons item rest ih =>
    have first := steady caster item (each item List.mem_cons_self)
    have between := first.near_run upward here
    have others : ∀ other ∈ rest, other.Settled registry near allowed := fun other member =>
      each other (List.mem_cons_of_mem item member)
    simp only [castItems, gives_bind, gives_adapt, List.forall₂_cons_left_iff,
      first.gives_iff here there]
    constructor
    · rintro ⟨result, casted, further, later, made⟩
      exact ⟨result, further, casted, (ih others between _).mp later, (Except.ok.inj made).symm⟩
    · rintro ⟨result, further, casted, later, rfl⟩
      exact ⟨result, casted, further, (ih others between _).mpr later, rfl⟩

/-! ## Items of the type -/

/-- No caster takes null but the one that takes everything. -/
theorem cast_null {fuel : Nat} {caster : Caster} {result : Value} {before later : NameTable}
    (casted : (castWith registry fuel caster .null).run before = (.ok result, later)) :
    result = .null := by
  obtain ⟨layers, casted⟩ := castWith_ok casted
  cases caster with
  | identity => exact castLayer_identity_ok casted
  | scalar type =>
    obtain ⟨scalar, -⟩ := castLayer_scalar_ok.mp casted
    cases type <;> cases scalar
  | enumeration name =>
    obtain ⟨⟨enumeration, member, -, impossible, -⟩, -⟩ := castLayer_enumeration_ok.mp casted
    cases impossible
  | _ => cases casted

/-- Plain data that is of the type and can be cast is cast to itself, unless whatever the caster
takes is of the type. -/
theorem cast_kept {type : TypeExpr} {caster : Caster} (fits : Fits True type caster) {fuel : Nat}
    {value result : Value} {before later : NameTable} (plain : value.Plain)
    (casted : (castWith registry fuel caster value).run before = (.ok result, later))
    (conforms : registry.conforms value type = true) :
    result = value ∨ TakesAll registry caster type := by
  induction fits generalizing fuel value result before later with
  | any =>
    obtain ⟨layers, casted⟩ := castWith_ok casted
    exact .inl (castLayer_identity_ok casted)
  | scalar type =>
    obtain ⟨layers, casted⟩ := castWith_ok casted
    obtain ⟨scalar, -⟩ := castLayer_scalar_ok.mp casted
    rw [castScalar_of_conforms conforms] at scalar
    exact .inl (Option.some.inj scalar).symm
  | @list item caster inner ih =>
    -- If whatever is taken as an item is of the type, the same goes for lists.
    by_cases takes : TakesAll registry caster item
    · exact .inr takes.list
    · obtain ⟨layers, casted⟩ := castWith_ok casted
      obtain ⟨items, results, rfl, rfl, each⟩ :=
        castLayer_list_ok (castWith_growing registry layers) casted
      rw [Registry.conforms, List.all_eq_true] at conforms
      cases plain with
      | list plain =>
        have same : results = items := by
          refine Lists.eq_of_related each fun item member result held => ?_
          obtain ⟨start, stop, -, -, ran⟩ := held
          exact (ih (plain item member) ran (conforms item member)).resolve_right takes
        exact .inl (congrArg Value.list same)
  | union =>
    obtain ⟨layers, casted⟩ := castWith_ok casted
    exact .inl (castLayer_identity_ok casted)
  | optional inner ih =>
    rw [Registry.conforms, Bool.or_eq_true_iff] at conforms
    cases conforms with
    | inl null =>
      cases value with
      | null => exact .inl (cast_null casted)
      | _ => cases null
    | inr conforms => exact (ih plain casted conforms).imp id TakesAll.optional
  | enumeration name => cases plain <;> cases conforms
  | composite name => cases plain <;> cases conforms
  | @polymorph members dispatcher =>
    obtain ⟨layers, casted⟩ := castWith_ok casted
    obtain ⟨data, branch, rfl, -, -⟩ := castLayer_polymorph_ok plain casted
    -- Only types that take anything take maps.
    exact .inr fun other _ _ _ _ _ => Registry.conforms_of_map conforms other

end Decode

end TypedSchema
