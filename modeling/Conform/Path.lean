import Conform.Value.Printer

/-! Paths lead from a value to a part of it: keys of mappings and indices of sequences, the root first. A
path is written as a JSON pointer, where `~` and `/` in a token are escaped as `~0` and `~1`, and for
people with dots between names and indices in brackets. -/

namespace Conform

abbrev Path := List Value

namespace Pointer

def escapeChar : Char → List Char
  | '~' => ['~', '0']
  | '/' => ['~', '1']
  | c => [c]

def escape (cs : List Char) : List Char :=
  cs.flatMap escapeChar

def join (base : String) (token : Value) : String :=
  base ++ String.ofList ('/' :: escape token.text)

end Pointer

namespace Path

def pointer (path : Path) : String :=
  path.foldl Pointer.join ""

def dottedStep (cs : List Char) : Value → List Char
  | .int n => cs ++ '[' :: Number.intText n ++ [']']
  | token => if cs.isEmpty then token.text else cs ++ '.' :: token.text

def dotted (path : Path) : String :=
  String.ofList (path.foldl dottedStep [])

/-- Whether a path can be written, in either form. -/
def isWritable (path : Path) : Bool := path.all Value.isWritable

end Path

end Conform
