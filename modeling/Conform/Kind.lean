import Conform.Text.Blank
import Conform.Text.Case

/-! Kinds: the properties of a single value that a leaf schema can ask for. A kind has several names, which
are read without regard to case and to blanks around them. -/

namespace Conform

inductive Kind where
  | integer
  | number
  | string
  | boolean
  | null
  | function
  | any
  | unknown
  deriving DecidableEq, Repr

namespace Kind

def all : List Kind :=
  [.integer, .number, .string, .boolean, .null, .function, .any, .unknown]

def name : Kind → String
  | .integer => "integer"
  | .number => "number"
  | .string => "string"
  | .boolean => "boolean"
  | .null => "null"
  | .function => "function"
  | .any => "any"
  | .unknown => "unknown"

/-- The name as a constant: `Kind.INTEGER`. -/
def constant (k : Kind) : List Char :=
  "Kind.".toList ++ k.name.toList.map Char.toUpper

def names : Kind → List String
  | .integer => ["int", "integer"]
  | .number => ["number", "float", "double"]
  | .string => ["string", "str"]
  | .boolean => ["bool", "boolean"]
  | .null => ["null", "nil", "none", "nullish"]
  | .function => ["function", "func", "callable"]
  | .any => ["any"]
  | .unknown => ["unknown"]

def ofName? (text : List Char) : Option Kind :=
  let key := Text.lower (Text.strip text)
  all.find? fun k => k.names.any fun n => n.toList == key

def ofExactName? (s : String) : Option Kind :=
  all.find? fun k => k.name == s

end Kind

end Conform
