import Conform.Document
import Conform.JsonSchema
import Conform.Logging

/-! Everything that can stop an operation of a session, with its message where it has one. -/

namespace Conform

inductive Problem where
  | fault (f : Fault)
  | definition (e : DefinitionError)
  | notASchema
  | document (e : DocumentError)
  | character (code : Nat)
  | misfit (m : Yaml.Misfit)
  | unexpressible (e : ExportError)
  | broken (b : Breakdown)
  | setup (e : Logging.SetupError)
  | limit (m : Number.Misread)
  | unknownKind (kind : Value)
  | unhashable (typeName : String)
  | signalingKey
  | unbound (name : Value)

namespace Problem

def ofParse : ParseError → Problem
  | .document e => document e
  | .character code => character code
  | .misfit m => misfit m

/-- Characters beyond all there are have a message up to the largest number that fits four bytes. -/
def characterMessage? (code : Nat) : Option String :=
  if code < 0x80000000 then some "chr() arg not in range(0x110000)" else none

def breakdownMessage? : Breakdown → Option String
  | .unwritable => some Number.unwritableText
  | _ => none

def ofDefinition : DefinitionFailure → Problem
  | .refused e => definition e
  | .unwritable _ => broken .unwritable

def misfitMessage? : Yaml.Misfit → Option String
  | .number m => some m.message
  | .calendar m => some (String.ofList m.message)
  | .noText => some "expected string or bytes-like object, got 'list'"
  | _ => none

def message? : Problem → Option String
  | fault f => some f.message
  | definition e => some e.message
  | document e => some e.message
  | unexpressible e => some e.message
  | setup e => some e.message
  | limit m => some m.message
  | unknownKind k => some (if k.isWritable then unknownKindMessage k else Number.unwritableText)
  | unhashable t => some ("unhashable type: '" ++ t ++ "'")
  | signalingKey => some "Cannot hash a signaling NaN value"
  | character code => characterMessage? code
  | misfit m => misfitMessage? m
  | notASchema => none
  | broken b => breakdownMessage? b
  | unbound _ => none

end Problem

end Conform
