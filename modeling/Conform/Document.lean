import Conform.Schema.Check
import Conform.Text.Utf8
import Conform.Yaml.Composition
import Conform.Yaml.Progress

/-! Documents: the data of a text and where its parts stand. A text that is no document is refused. A few
texts have no data for other reasons, which are reported as they are: an escape beyond all characters,
scalars whose text does not fit their tag, and collections that hold themselves. -/

namespace Conform

open Yaml Text

/-- Why there is no document. -/
inductive DocumentError where
  | unparsable (file : Option String)
  | notFound (path : String)
  | notAFile (path : String)
  | undecodable (path : String) (failure : Utf8Failure)
  deriving DecidableEq, Repr

inductive ParseError where
  | document (e : DocumentError)
  | character (code : Nat)
  | misfit (m : Misfit)
  deriving DecidableEq, Repr

namespace DocumentError

def reasonText : Utf8Reason → String
  | .start => "invalid start byte"
  | .continuation => "invalid continuation byte"
  | .truncated => "unexpected end of data"

/-- One byte at fault is shown, of several the first and the last position. -/
def failureText (f : Utf8Failure) : String :=
  let place :=
    if f.stop = f.first + 1 then
      "byte 0x" ++ String.ofList (hexDigits 2 f.byte.toNat) ++ " in position " ++ intString f.first
    else "bytes in position " ++ intString f.first ++ "-" ++ intString ((f.stop : Int) - 1)
  "'utf-8' codec can't decode " ++ place ++ ": " ++ reasonText f.reason

def message : DocumentError → String
  | unparsable none => "Failed to parse YAML document: "
  | unparsable (some file) => "Failed to parse YAML document " ++ file ++ ": "
  | notFound p => "Document not found: " ++ p
  | notAFile p => "Path is not a file: " ++ p
  | undecodable p f => "Failed to read document " ++ p ++ ": " ++ failureText f

end DocumentError

structure Document where
  data : Value
  places : SourceMap

namespace Document

def ofFlaw (file : Option String) : Flaw → ParseError
  | .illFormed => .document (.unparsable file)
  | .character code => .character code

def ofMisfit (file : Option String) : Misfit → ParseError
  | .unfit => .document (.unparsable file)
  | m => .misfit m

def placesOf : Option Node → SourceMap
  | some n => n.sourceMap
  | none => []

def parse (text : String) (file : Option String) : Except ParseError Document := do
  let root ← (compose text.toList).mapError (ofFlaw file)
  let data ← (dataOf root).mapError (ofMisfit file)
  return ⟨data, placesOf root⟩

/-- Where the nodes of a text stand, whether or not they have data; nowhere if it is ill-formed. -/
def sourceMap (text : String) : Except ParseError SourceMap :=
  match compose text.toList with
  | .ok root => if root.any Node.isEndless then .error (.misfit .endless) else .ok (placesOf root)
  | .error .illFormed => .ok []
  | .error f => .error (ofFlaw none f)

/-- The place of a fault: that of the offending value, or of the nearest one around it. -/
def place (d : Document) (file : Option String) (f : Fault) : Location :=
  let pointer := f.path.pointer
  (d.places.locate? (some pointer) file).getD ⟨file, some pointer, none, none⟩

/-- Validates the data. A fault is looked up by its pointer, which has to be written for that. -/
def validate (d : Document) (file : Option String) (s : Schema) (c : Settings) : Verdict :=
  match s.validate c d.data with
  | .rejected f =>
    if f.isWritable then .rejected (f.locate (some (d.place file f))) else .broken .unwritable
  | verdict => verdict

end Document

end Conform
