import Conform.Schema.Basic
import Conform.Value.Kind

/-! Definitions of schemas. A schema is built from a tree of constructor calls, and any plain value may
stand where a call needs a schema, a list of schemas or a mapping of fields. Such a value is refused when
the call is evaluated, arguments first and from the left. An empty mapping is the one plain value that
serves: it declares no fields.

A refusal shows the name of a field or of a kind that is none, and the name of a kind is written before it is
looked up. Where such a name has an integer with too many digits, the definition breaks off. -/

namespace Conform

/-- What an argument turns out to be. -/
inductive Part where
  | schema (s : Schema)
  | value (v : Value)

def Part.label : Part → String
  | schema s => s.className
  | value v => v.label

/-- The argument of a call that is at fault. -/
inductive Place where
  | field (name : FieldName)
  | arrayItem
  | optionalInner
  | tableKey
  | tableValue
  | tuple
  | union
  | tupleEntry (index : Nat)
  | unionEntry (index : Nat)
  deriving DecidableEq, Repr

inductive DefinitionError where
  | notASchema (place : Place) (label : String)
  | notAList (place : Place) (label : String)
  | noSchemas (place : Place)
  | notAMapping (label : String)
  | fieldName (name : Value)
  | unknownKind (name : Value)

def digitString (n : Nat) : String := String.ofList (Number.digitsText n)

def Place.text : Place → String
  | field name => "object() field '" ++ String.ofList name.value.text ++ "'"
  | arrayItem => "array() item"
  | optionalInner => "optional() inner"
  | tableKey => "table() key"
  | tableValue => "table() value"
  | tuple => "tuple()"
  | union => "union()"
  | tupleEntry i => "tuple() entry " ++ digitString i
  | unionEntry i => "union() entry " ++ digitString i

namespace DefinitionError

def message : DefinitionError → String
  | notASchema p label => p.text ++ " must be a schema, got: " ++ label
  | notAList p label => p.text ++ " expects a list of schemas, got: " ++ label
  | noSchemas p => p.text ++ " requires at least one schema"
  | notAMapping label => "object() expects a mapping of fields, got: " ++ label
  | fieldName v => "object() field names must be strings, got: " ++ String.ofList v.literal
  | unknownKind v => "Unknown primitive kind: " ++ String.ofList v.literal

end DefinitionError

/-- Why there is no schema: the call is refused, or a name in it cannot be written. -/
inductive DefinitionFailure where
  | refused (e : DefinitionError)
  | unwritable (name : Value)

abbrev Definition (α : Type) := Except DefinitionFailure α

def refuseCall {α : Type} (e : DefinitionError) : Definition α := .error (.refused e)

def requireSchema (place : Place) : Part → Definition Schema
  | .schema s => .ok s
  | p => refuseCall (.notASchema place p.label)

def requireEntries (entry : Nat → Place) : Nat → List Part → Definition (List Schema)
  | _, [] => .ok []
  | i, p :: ps => do
    let s ← requireSchema (entry i) p
    return s :: (← requireEntries entry (i + 1) ps)

/-- Schemas from a list of parts, which must not be empty. -/
def requireSchemas (place : Place) (entry : Nat → Place) (parts : List Part) :
    Definition (List Schema) :=
  if parts.isEmpty then refuseCall (.noSchemas place) else requireEntries entry 0 parts

/-- The first parts of a plain value that is a sequence other than text. One is enough, since it is no
schema. -/
def Value.parts? : Value → Option (List Part)
  | .bytes _ bs => some ((bs.take 1).map fun b => .value (.int b.toNat))
  | v => v.elements?.map fun e => (e.take 1).map .value

def requireList (place : Place) (entry : Nat → Place) : Part → Definition (List Schema)
  | .schema s => refuseCall (.notAList place s.className)
  | .value v =>
    match v.parts? with
    | some parts => requireSchemas place entry parts
    | none => refuseCall (.notAList place v.label)

def requireFields : KeyTable Part → Definition (List (FieldName × Schema))
  | [] => .ok []
  | (k, p) :: rest =>
    match FieldName.ofValue? k with
    | none => if k.isWritable then refuseCall (.fieldName k) else .error (.unwritable k)
    | some name => do
      let s ← requireSchema (.field name) p
      return (name, s) :: (← requireFields rest)

def requireMapping : Part → Definition (List (FieldName × Schema))
  | .schema s => refuseCall (.notAMapping s.className)
  | .value v =>
    match v.entries? with
    | some es => requireFields (es.map fun e => (e.1, .value e.2))
    | none => refuseCall (.notAMapping v.label)

/-- An optional part of a table; the null value stands for an absent part. -/
def requireOption (place : Place) : Option Part → Definition (Option Schema)
  | none => .ok none
  | some (.value .null) => .ok none
  | some p => (requireSchema place p).map some

def Schema.ofKindName (name : Value) : Definition Schema :=
  if name.isWritable then
    match Kind.ofValue? name with
    | some k => .ok (.leaf k)
    | none => refuseCall (.unknownKind name)
  else .error (.unwritable name)

/-- A tree of constructor calls. Objects, tuples and unions take their parts one by one or as one
argument. -/
inductive Construction where
  | part (p : Part)
  | primitive (name : Value)
  | object (fields : List (Value × Construction))
  | objectOf (fields : Construction)
  | array (item : Construction)
  | tuple (items : List Construction)
  | tupleOf (items : Construction)
  | union (options : List Construction)
  | unionOf (options : Construction)
  | optional (inner : Construction)
  | table (key value : Option Construction)
  | literal (expected : Value)

namespace Construction

mutual

def eval : Construction → Definition Part
  | .part p => .ok p
  | .primitive name => (Schema.ofKindName name).map .schema
  | .object fields => do
    let parts ← evalFields [] fields
    return .schema (.object (← requireFields parts))
  | .objectOf fields => do
    let p ← eval fields
    return .schema (.object (← requireMapping p))
  | .array item => do
    let p ← eval item
    return .schema (.array (← requireSchema .arrayItem p))
  | .tuple items => do
    let parts ← evalList items
    return .schema (.tuple (← requireSchemas .tuple .tupleEntry parts))
  | .tupleOf items => do
    let p ← eval items
    return .schema (.tuple (← requireList .tuple .tupleEntry p))
  | .union options => do
    let parts ← evalList options
    return .schema (.union (← requireSchemas .union .unionEntry parts))
  | .unionOf options => do
    let p ← eval options
    return .schema (.union (← requireList .union .unionEntry p))
  | .optional inner => do
    let p ← eval inner
    return .schema (.optional (← requireSchema .optionalInner p))
  | .table key value => do
    let k ← evalOption key
    let v ← evalOption value
    let k ← requireOption .tableKey k
    let v ← requireOption .tableValue v
    return .schema (.table k v)
  | .literal expected => .ok (.schema (.literal expected))
termination_by structural e => e

def evalList : List Construction → Definition (List Part)
  | [] => .ok []
  | e :: es => do
    let p ← eval e
    return p :: (← evalList es)
termination_by structural es => es

/-- The parts of fields, added to those before them. -/
def evalFields (done : KeyTable Part) : List (Value × Construction) → Definition (KeyTable Part)
  | [] => .ok done
  | (k, e) :: es => do
    let p ← eval e
    evalFields (done.put k p) es
termination_by structural es => es

def evalOption : Option Construction → Definition (Option Part)
  | none => .ok none
  | some e => do return some (← eval e)
termination_by structural e => e

end

end Construction

end Conform
