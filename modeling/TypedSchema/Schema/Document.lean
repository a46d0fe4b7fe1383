import TypedSchema.Schema.Definition

/-!
Schema documents. Definitions are collected from `components.schemas`, `$defs` and `definitions`, in
that order, and have distinct names. A document that has a title and constrains something itself is
one more definition, under its title, and the root.
-/

namespace TypedSchema

structure Document where
  title : Option String := none
  definitions : Fields Definition := []
  root : Option String := none
  distinct : Fields.Distinct definitions := by decide

namespace Document

/-- What a schema document looks like. -/
def shape : Json.Shape :=
  .record "RawDocument" true
    [("title", false, .optional .text),
      ("components", false,
        .optional (.record "RawComponents" false [("schemas", false, .map .anything)])),
      ("$defs", false, .map .anything), ("definitions", false, .map .anything)]

/-- Top-level keywords that say something about the document itself. -/
def ownKeywords : List String :=
  ["title", "components", "$defs", "definitions"]

/-- Top-level keywords that make the document a definition. -/
def rootKeywords : List String :=
  ["type", "properties", "allOf", "oneOf", "anyOf", "enum", "items", "$ref"]

/-- The members of a container of definitions. -/
def container (document : Json) (keyword : String) : Fields Json :=
  ((document.member? keyword).bind Json.object?).getD []

/-- Definitions under distinct names. -/
abbrev Collected := { definitions : Fields Definition // Fields.Distinct definitions }

/-- One more definition, in the place of an earlier one of the same name. -/
def Collected.add (sofar : Collected) (entry : String × Json) : Except Error Collected := do
  let definition ← (Definition.ofJson entry.2).mapError (Error.named entry.1)
  return ⟨Fields.insert sofar.1 entry.1 definition, sofar.2.insert entry.1 definition⟩

def collect (bodies : List (String × Json)) : Except Error Collected :=
  bodies.foldlM Collected.add ⟨[], by decide⟩

/-- The top-level keywords of a document that is a definition itself. -/
def rootMembers (members : Fields Json) : Fields Json :=
  members.filter fun (keyword, _) => !keyword.startsWith "$" || keyword = "$ref"

/-- A document of the right shape. -/
def ofShaped (json : Json) : Except Error Document := do
  let components := (json.member? "components").getD .null
  let ⟨definitions, distinct⟩ ← collect
    (container components "schemas" ++ container json "$defs" ++ container json "definitions")
  let title := (json.member? "title").bind Json.string?
  let rest := (json.object?.getD []).filter fun (keyword, _) => !ownKeywords.contains keyword
  match title with
  | some name =>
    if rest.any fun (keyword, _) => rootKeywords.contains keyword then
      return {
        title
        definitions := Fields.insert definitions name ⟨rootMembers rest⟩
        root := some name
        distinct := distinct.insert name _ }
    else return { title, definitions, distinct }
  | none => return { title, definitions, distinct }

def malformed (failure : Json.Failure) : Error :=
  .document (.failure failure)

def ofJson (json : Json) : Except Error Document := do
  ofShaped (← (Json.conform shape json).mapError malformed)

/-- The document at the start of a text. -/
def ofCursor (cursor : Json.Cursor) : Except Error Document := do
  ofShaped (← (Json.scanText shape cursor).mapError malformed)

def ofString (text : String) : Except Error Document :=
  ofCursor (.ofString text)

def ofBytes (bytes : List UInt8) : Except Error Document :=
  ofCursor { rest := bytes }

end Document

end TypedSchema
