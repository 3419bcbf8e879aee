import Conform.Kind
import Conform.Value.Basic

/-! Schemas: trees that say which values conform. Leaves ask for a kind or for one literal value; inner
schemas ask for objects with declared fields, arrays, tuples of a fixed length, one of several options, an
absent value or an inner schema, and tables. A custom leaf is given by what it takes. -/

namespace Conform

/-- The name of a field: a string, or a kind, which is the same key as the string that is its name. -/
inductive FieldName where
  | text (s : String)
  | kind (k : Kind)
  deriving DecidableEq, Repr

def FieldName.value : FieldName → Value
  | text s => .str s
  | kind k => .kind k

def FieldName.ofValue? : Value → Option FieldName
  | .str s => some (text s)
  | .kind k => some (kind k)
  | _ => none

/-- A leaf of the user's own. It gives the values that it takes back as they are, and says in its own words
why it refuses another one; neither depends on the settings. -/
structure Leaf where
  className : String
  takes : Value → Bool
  refusal : Value → String

inductive Schema where
  | leaf (kind : Kind)
  | object (fields : List (FieldName × Schema))
  | array (item : Schema)
  | tuple (items : List Schema)
  | union (options : List Schema)
  | optional (inner : Schema)
  | table (key value : Option Schema)
  | literal (expected : Value)
  | custom (own : Leaf)

def Schema.className : Schema → String
  | leaf _ => "PrimitiveSchema"
  | object _ => "ObjectSchema"
  | array _ => "ArraySchema"
  | tuple _ => "TupleSchema"
  | union _ => "UnionSchema"
  | optional _ => "OptionalSchema"
  | table _ _ => "TableSchema"
  | literal _ => "LiteralSchema"
  | custom own => own.className

end Conform
