import Conform.Path
import Conform.Schema.Definition

/-! JSON Schema documents, draft 2020-12, and the export of schemas to them. A JSON schema is a list of
keywords, or a truth value that accepts everything or nothing. Schemas for callables, custom schemas and
literals other than JSON scalars have no such document; the refusal names the place in the schema, where
`*` stands for the items of an array or the values of a table and `<key>` for the keys of a table.

A finished document is checked against the draft's own schema by other means, of which only the objection
counts that they raise. -/

namespace Conform

mutual

inductive JsonSchema where
  | constant (b : Bool)
  | keywords (ks : List Keyword)

inductive Keyword where
  | dialect (uri : String)
  | title (text : Value)
  | type (name : String)
  | properties (fields : List (FieldName × JsonSchema))
  | required (names : List FieldName)
  | additionalProperties (s : JsonSchema)
  | items (s : JsonSchema)
  | leadingItems (ss : List JsonSchema)
  | minItems (n : Nat)
  | anyOf (ss : List JsonSchema)
  | const (v : Value)
  | propertyNames (s : JsonSchema)

end

def Keyword.name : Keyword → String
  | dialect _ => "$schema"
  | title _ => "title"
  | type _ => "type"
  | properties _ => "properties"
  | required _ => "required"
  | additionalProperties _ => "additionalProperties"
  | items _ => "items"
  | leadingItems _ => "prefixItems"
  | minItems _ => "minItems"
  | anyOf _ => "anyOf"
  | const _ => "const"
  | propertyNames _ => "propertyNames"

mutual

/-- A JSON schema as a value: a truth value, or a dictionary of its keywords. -/
def JsonSchema.value : JsonSchema → Value
  | .constant b => .bool b
  | .keywords ks => .dict (keywordEntries ks)
termination_by structural s => s

def Keyword.value : Keyword → Value
  | .dialect uri => .str uri
  | .title t => t
  | .type n => .str n
  | .properties fields => .dict (propertyEntries fields)
  | .required names => .list (names.map FieldName.value)
  | .additionalProperties s => s.value
  | .items s => s.value
  | .leadingItems ss => .list (schemaValues ss)
  | .minItems n => .int n
  | .anyOf ss => .list (schemaValues ss)
  | .const v => v
  | .propertyNames s => s.value
termination_by structural k => k

def keywordEntries : List Keyword → Entries
  | [] => []
  | k :: ks => (.str k.name, k.value) :: keywordEntries ks
termination_by structural ks => ks

def propertyEntries : List (FieldName × JsonSchema) → Entries
  | [] => []
  | (n, s) :: fields => (n.value, s.value) :: propertyEntries fields
termination_by structural fields => fields

def schemaValues : List JsonSchema → List Value
  | [] => []
  | s :: ss => s.value :: schemaValues ss
termination_by structural ss => ss

end

inductive ExportError where
  | kind (k : Kind) (pointer : String)
  | literal (typeName : String) (pointer : String)
  | unknownSchema (className : String)
  | invalid (objection : String)

namespace ExportError

def placeText (pointer : String) : String :=
  " in JSON Schema (at '" ++ (if pointer.isEmpty then "/" else pointer) ++ "')"

def message : ExportError → String
  | kind k p => "Cannot express '" ++ k.name ++ "'" ++ placeText p
  | literal n p => "Cannot express literal of type " ++ n ++ placeText p
  | unknownSchema n => "Internal error: unknown schema type " ++ n
  | invalid objection => "Exported JSON Schema is invalid: " ++ objection

end ExportError

abbrev Export (α : Type) := Except ExportError α

/-- The keywords for a kind, if JSON Schema has them. -/
def Kind.keywords? : Kind → Option (List Keyword)
  | .integer => some [.type "integer"]
  | .number => some [.type "number"]
  | .string => some [.type "string"]
  | .boolean => some [.type "boolean"]
  | .null => some [.type "null"]
  | .function => none
  | .any => some []
  | .unknown => some []

def Value.isJsonScalar : Value → Bool
  | .null => true
  | .bool _ => true
  | .int _ => true
  | .float _ => true
  | .str _ => true
  | .kind _ => true
  | _ => false

mutual

def Schema.keywords (pointer : String) : Schema → Export (List Keyword)
  | .leaf k =>
    match k.keywords? with
    | some ks => .ok ks
    | none => .error (.kind k pointer)
  | .object fields => do
    let properties ← exportFields pointer fields
    let names := fields.map (·.1)
    return [.type "object", .properties properties, .additionalProperties (.constant true)] ++
      if names.isEmpty then [] else [.required names]
  | .array item => do
    let ks ← item.keywords (Pointer.join pointer (.str "*"))
    return [.type "array", .items (.keywords ks)]
  | .tuple items => do
    let ss ← exportItems pointer 0 items
    return [.type "array", .leadingItems ss, .items (.constant false), .minItems items.length]
  | .union options => do
    let ss ← exportOptions pointer options
    return [.anyOf ss]
  | .optional inner => do
    let ks ← inner.keywords pointer
    return [.anyOf [.keywords ks, .keywords [.type "null"]]]
  | .table key value => do
    let names ← exportPart (Pointer.join pointer (.str "<key>")) key
    let values ← exportPart (Pointer.join pointer (.str "*")) value
    return .type "object" :: (names.map Keyword.propertyNames).toList ++
      (values.map Keyword.additionalProperties).toList
  | .literal v => if v.isJsonScalar then .ok [.const v] else .error (.literal v.type.name pointer)
  | .custom own => .error (.unknownSchema own.className)
termination_by structural s => s

def exportFields (pointer : String) :
    List (FieldName × Schema) → Export (List (FieldName × JsonSchema))
  | [] => .ok []
  | (n, s) :: fields => do
    let ks ← s.keywords (Pointer.join pointer n.value)
    return (n, .keywords ks) :: (← exportFields pointer fields)
termination_by structural fields => fields

def exportItems (pointer : String) : Nat → List Schema → Export (List JsonSchema)
  | _, [] => .ok []
  | i, s :: ss => do
    let ks ← s.keywords (Pointer.join pointer (.int i))
    return .keywords ks :: (← exportItems pointer (i + 1) ss)
termination_by structural _ ss => ss

def exportOptions (pointer : String) : List Schema → Export (List JsonSchema)
  | [] => .ok []
  | s :: ss => do
    let ks ← s.keywords pointer
    return .keywords ks :: (← exportOptions pointer ss)
termination_by structural ss => ss

def exportPart (pointer : String) : Option Schema → Export (Option JsonSchema)
  | none => .ok none
  | some s => do return some (.keywords (← s.keywords pointer))
termination_by structural s => s

end

def draft : String := "https://json-schema.org/draft/2020-12/schema"

/-- The keywords at the head of a document. -/
def JsonSchema.head (title : Option Value) : List Keyword :=
  .dialect draft :: (title.map Keyword.title).toList

/-- What a check against the draft's own schema objects to in a document. -/
abbrev Objection := JsonSchema → Option String

/-- The objection to a title that is no string, which is the only one that an exported document can meet. -/
def JsonSchema.titleObjection : Objection
  | .keywords (_ :: .title t :: _) =>
    if t.string?.isSome then none else some (String.ofList t.literal ++ " is not of type 'string'")
  | _ => none

/-- The document for a schema, if there is no objection to it. -/
def Schema.document (objection : Objection) (s : Schema) (title : Option Value) : Export JsonSchema := do
  let ks ← s.keywords ""
  let j : JsonSchema := .keywords (JsonSchema.head title ++ ks)
  match objection j with
  | none => return j
  | some text => throw (.invalid text)

/-- The document for what is given as a schema. -/
def Part.document (objection : Objection) (p : Part) (title : Option Value) : Export JsonSchema :=
  match p with
  | .schema s => s.document objection (title.filter fun t => !t.isNull)
  | .value v => .error (.unknownSchema v.type.name)

end Conform
