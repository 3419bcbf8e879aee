import Conform.Yaml.Cursor

/-! Tokens of a document: marks of structure, properties of nodes, and scalars. -/

namespace Conform.Yaml

inductive Directive where
  | version (major minor : Nat)
  | handle (name start : List Char)
  | other
  deriving DecidableEq, Repr

inductive Lexeme where
  | directive (d : Directive)
  | documentStart
  | documentEnd
  | streamEnd
  | blockSequence
  | blockMapping
  | blockEnd
  | sequenceStart
  | sequenceEnd
  | mappingStart
  | mappingEnd
  | blockEntry
  | flowEntry
  | key
  | value
  | alias (name : List Char)
  | anchor (name : List Char)
  | tag (handle : Option (List Char)) (suffix : List Char)
  | scalar (text : List Char) (plain : Bool)
  deriving DecidableEq, Repr

structure Token where
  lexeme : Lexeme
  start : Mark
  stop : Mark
  deriving DecidableEq, Repr

end Conform.Yaml
