import TypedSchema.Compile.Workspace

/-!
Resolving schemas. A definition is registered when it is first asked for, and references to
definitions that are not registered yet are followed at once; composite types are registered
without their properties, so that a reference to one that is under way does no harm. Schemas in
their place get types named for where they stand: `_Parent` for members of an `allOf`, `_Item` for
items, `_Option` for alternatives and branches.

Every rule here takes the solver of the goals below it. `solve` ties the knot: a layer is spent for
each goal inside another.
-/

namespace TypedSchema.Compile

/-- Patterns that stand for a scalar other than the string. -/
abbrev Patterns := List (String × Scalar)

/-- The scalar of a definition. A format refines a string, and so does a known pattern. -/
def scalarOf (patterns : Patterns) (definition : Definition) (context : String) :
    Except Error Scalar :=
  match definition.typeName?.bind Scalar.ofTypeName? with
  | none => .error (.unidentified (some context) definition.toJson)
  | some .string =>
    match definition.format?.bind Scalar.ofFormat? with
    | some refined => .ok refined
    | none => .ok ((definition.pattern?.bind (patterns.lookup ·)).getD .string)
  | some scalar => .ok scalar

def resolveScalar (patterns : Patterns) (definition : Definition) (context : String) :
    Except Error Resolved := do
  let scalar ← scalarOf patterns definition context
  return ⟨.scalar scalar, .scalar scalar⟩

/-- The definition in place of a schema, which errors call by the hint. -/
def definitionAt (hint : String) (schema : Json) : Except Error Definition :=
  (Definition.ofJson schema).mapError (Error.named hint)

def resolveInline (solve : Solver) (hint : String) (schema : Json) : Compile Resolved := do
  solve (.inline (← definitionAt hint schema) hint)

def resolveReference (solve : Solver) (definition : Definition) (context : String) :
    Compile Resolved :=
  match definition.referenceName? with
  | some target => solve (.named target)
  | none => throw (.unidentified (some context) definition.toJson)

/-- The type of a schema that needs a name, registered under it once. -/
def resolveAnonymous (solve : Solver) (name : String) (added : Classified) : Compile Resolved := do
  modify (·.adopt name added)
  solve (.named name)

def resolveList (solve : Solver) (definition : Definition) (name : String) : Compile Resolved := do
  let item ←
    match definition.items? with
    | none | some (.bool true) => pure Resolved.anything
    | some items => resolveInline solve (name ++ "_Item") items
  return ⟨.list item.type, .list item.caster⟩

/-! ## Unions -/

def isNullType (schema : Json) : Bool :=
  (schema.member? "type").bind Json.string? = some "null"

def optionHint (name : String) (index : Nat) : String :=
  s!"{name}_Option{index}"

/-- The alternatives other than null, each with its index among all. -/
def alternatives (definition : Definition) : List (Json × Nat) :=
  (definition.oneOf?.getD []).zipIdx.filter fun (alternative, _) => !isNullType alternative

/-- The type of all alternatives. Data is left as it is, unless there is one alternative next to
null, which keeps its caster. -/
def resolveUnion (solve : Solver) (definition : Definition) (name : String) :
    Compile Resolved := do
  let members ← (alternatives definition).mapM fun (alternative, index) =>
    resolveInline solve (optionHint name index) alternative
  let union := TypeExpr.union (members.map Resolved.type)
  if (definition.oneOf?.getD []).any isNullType then
    match members with
    | [member] => return ⟨member.type.orNull, member.caster⟩
    | _ => return ⟨union.orNull, .identity⟩
  else return ⟨union, .identity⟩

/-! ## Polymorphs -/

/-- The name of a branch: its composite type or enumeration, if it is one. -/
def branchTarget (type : TypeExpr) (fallback : String) : String :=
  match type with
  | .composite name => name
  | .enumeration name => name
  | _ => fallback

/-- The only value that a schema allows. -/
def constant? (schema : Json) : Option Json :=
  match schema.member? "const" with
  | some constant => some constant
  | none =>
    match (schema.member? "enum").bind Json.array? with
    | some [only] => some only
    | _ => none

/-- The constants that a condition asks for. -/
def constantsOf (name : String) (part : Json) (index : Nat) : Except Error (Fields Value) :=
  match ((part.member? "if").bind (Json.member? · "properties")).bind Json.object? with
  | none => .error (.unsupported name (.conditionWithoutProperties index))
  | some fields => do
    let constants ← fields.mapM fun (field, schema) =>
      match constant? schema with
      | some constant => Except.ok (field, Value.ofJson constant)
      | none => .error (.unsupported name (.conditionNotConstant index field))
    return Fields.ofList constants

/-- A condition with its branch, and the type of the branch. -/
def resolveCondition (solve : Solver) (name : String) (part : Json) (index : Nat) :
    Compile (Condition Caster × TypeExpr) := do
  let constants ← constantsOf name part index
  let hint := optionHint name index
  let definition ← definitionAt hint ((part.member? "then").getD .null)
  let branch ← solve (.inline definition hint)
  let target := branchTarget branch.type (definition.referenceName?.getD hint)
  return (⟨constants, ⟨target, branch.caster⟩⟩, branch.type)

def resolveConditional (solve : Solver) (name : String) (parts : List Json) :
    Compile Resolved := do
  let conditions ← parts.zipIdx.mapM fun (part, index) => resolveCondition solve name part index
  return ⟨.union (conditions.map Prod.snd),
    .polymorph (.conditional (conditions.map Prod.fst))⟩

/-- The keys of a discriminator with the definitions that they stand for. Without a mapping they are
the names of the alternatives. -/
def targetsOf (definition : Definition) (discriminator : Discriminator) :
    List (String × String) :=
  match discriminator.mapping with
  | some mapping => mapping.map fun (key, reference) => (key, referenceName reference)
  | none =>
    (definition.oneOf?.getD []).filterMap fun alternative =>
      ((alternative.member? "$ref").bind Json.string?).map fun reference =>
        (referenceName reference, referenceName reference)

/-- The branch of a key, and its type. -/
def resolveTarget (solve : Solver) (key target : String) :
    Compile ((String × Branch Caster) × TypeExpr) := do
  let branch ← solve (.named target)
  return ((key, ⟨branchTarget branch.type target, branch.caster⟩), branch.type)

def resolveKeyed (solve : Solver) (definition : Definition) (name : String) :
    Compile Resolved := do
  match ← definition.discriminator? with
  | none => throw (.unsupported name .noDiscriminator)
  | some discriminator =>
    let branches ← (targetsOf definition discriminator).mapM fun (key, target) =>
      resolveTarget solve key target
    return ⟨.union (branches.map Prod.snd).eraseDups,
      .polymorph (.keyed discriminator.property (Fields.ofList (branches.map Prod.fst)))⟩

def resolvePolymorph (solve : Solver) (definition : Definition) (name : String) :
    Compile Resolved :=
  match definition.allOf? with
  | some parts => resolveConditional solve name parts
  | none => resolveKeyed solve definition name

/-! ## Parents -/

/-- The composite type that a member of an `allOf` stands for. -/
def resolveParent (solve : Solver) (name : String) (part : Json) (index : Nat) :
    Compile String := do
  let definition ← definitionAt name part
  match ← definition.shape.mapError (Error.named name) with
  | .passthrough =>
    match (← resolveReference solve definition name).type with
    | .composite parent => return parent
    | other => throw (.unsupported name (.parentType index other))
  | .custom =>
    let parent := s!"{name}_Parent{index}"
    discard (resolveAnonymous solve parent ⟨definition, .custom⟩)
    return parent
  | .multiInheritance =>
    let parent := s!"{name}_Parent{index}"
    discard (resolveAnonymous solve parent ⟨definition, .multiInheritance⟩)
    return parent
  | other => throw (.unsupported name (.parentCategory index other))

/-! ## Registration -/

/-- Registers a reference: to a composite type as a type that inherits from it, to anything else as
an alias. -/
def registerPassthrough (solve : Solver) (name : String) (held : Classified) : Compile Unit := do
  let target ← resolveReference solve held.definition name
  match target.type with
  | .composite parent => modify (·.enterComposite name held (.passthrough parent))
  | _ => modify (·.enter name held target)

def register (patterns : Patterns) (solve : Solver) (name : String) (held : Classified) :
    Compile Unit := do
  match held.category with
  | .native =>
    let resolved ← resolveScalar patterns held.definition name
    modify (·.enter name held resolved)
  | .enumeration =>
    let enumeration ← Enumeration.ofDefinition name held.definition
    modify (·.enterEnumeration name held enumeration)
  | .custom => modify (·.enterComposite name held .custom)
  | .passthrough => registerPassthrough solve name held
  | .multiInheritance =>
    let parents ← (held.definition.allOf?.getD []).zipIdx.mapM fun (part, index) =>
      resolveParent solve name part index
    modify (·.enterComposite name held (.combined parents))
  | .list =>
    let resolved ← resolveList solve held.definition name
    modify (·.enter name held resolved)
  | .union =>
    let resolved ← resolveUnion solve held.definition name
    modify (·.enter name held resolved)
  | .polymorph =>
    let resolved ← resolvePolymorph solve held.definition name
    modify (·.enter name held resolved)

/-! ## Goals -/

/-- Resolves a name, and registers it before if that is not done. `resolving` holds the names whose
registration is under way. -/
def resolveNamed (patterns : Patterns) (self : List String → Solver) (resolving : List String)
    (name : String) : Compile Resolved := do
  if !(← get).registry.contains name then
    if resolving.contains name then throw (.circularReference name)
    let held ← (← get).find name
    register patterns (self (name :: resolving)) name held
  let entry ← (← get).registry.entry name
  return ⟨entry.type, entry.caster⟩

/-- Resolves a schema in its place. -/
def resolveShape (patterns : Patterns) (solve : Solver) (definition : Definition)
    (hint : String) : Compile Resolved := do
  if definition.isUnconstrained then return .anything
  match ← definition.shape.mapError (Error.named hint) with
  | .passthrough => resolveReference solve definition hint
  | .native => resolveScalar patterns definition hint
  | .list => resolveList solve definition hint
  | .union => resolveUnion solve definition hint
  | .polymorph => resolvePolymorph solve definition hint
  | .enumeration => resolveAnonymous solve hint ⟨definition, .enumeration⟩
  | .custom => resolveAnonymous solve hint ⟨definition, .custom⟩
  | .multiInheritance => resolveAnonymous solve hint ⟨definition, .multiInheritance⟩

/-- Solves goals that are nested in one another at most so many layers deep. -/
def solve (patterns : Patterns) : Nat → List String → Solver
  | 0, _, _ => throw .exhausted
  | layers + 1, resolving, .named name =>
    resolveNamed patterns (solve patterns layers) resolving name
  | layers + 1, resolving, .inline definition hint =>
    resolveShape patterns (solve patterns layers resolving) definition hint

end TypedSchema.Compile
