import Conform.NameTable
import Conform.Path

/-! Places in a document. A source map gives the line and column of the nodes of a document by their
pointers. A pointer without an entry, or whose entry is empty, takes the place of its nearest ancestor
that has one. The search climbs from a pointer to what stands before its last slash and ends at the empty
pointer, so it has no end for text that does not start with a slash. -/

namespace Conform

/-- Line and column count from 1. -/
structure Location where
  file : Option String
  pointer : Option String
  line : Option Int
  column : Option Int
  deriving DecidableEq, Repr

structure Spot where
  line : Option Int
  column : Option Int
  deriving DecidableEq, Repr

def Spot.isEmpty (s : Spot) : Bool := s.line.isNone && s.column.isNone

abbrev SourceMap := NameTable Spot

namespace SourceMap

/-- The non-empty entry of a pointer. -/
def spot? (m : SourceMap) (pointer : String) : Option Spot :=
  (m.lookup pointer).filter fun s => !s.isEmpty

end SourceMap

namespace Pointer

/-- What stands before each slash, the longest first, after `front` turned round. -/
def ancestors (front : List Char) : List Char → List (List Char)
  | [] => []
  | c :: cs => ancestors (c :: front) cs ++ if c = '/' then [front.reverse] else []

/-- A pointer and its ancestors. -/
def climb (cs : List Char) : List (List Char) :=
  cs :: ancestors [] cs

def isRooted : List Char → Bool
  | [] => true
  | c :: _ => c = '/'

end Pointer

inductive Search where
  | found (spot : Spot)
  | absent
  | endless
  deriving DecidableEq, Repr

namespace SourceMap

def search (m : SourceMap) (pointer : String) : Search :=
  match (Pointer.climb pointer.toList).findSome? fun cs => m.spot? (String.ofList cs) with
  | some s => .found s
  | none => if Pointer.isRooted pointer.toList then .absent else .endless

/-- The place of a pointer, unless the search for it has no end. -/
def locate? (m : SourceMap) (pointer : Option String) (file : Option String) : Option Location :=
  match m, pointer with
  | [], p => some ⟨file, p, none, none⟩
  | _, none => some ⟨file, none, none, none⟩
  | m, some p =>
    match m.search p with
    | .found s => some ⟨file, some p, s.line, s.column⟩
    | .absent => some ⟨file, some p, none, none⟩
    | .endless => none

end SourceMap

def intString (n : Int) : String := String.ofList (Number.intText n)

namespace Location

/-- The place as messages end with it: the file with line and column if known, else the line. -/
def text (l : Location) : String :=
  match l.file, l.line, l.column with
  | some f, some n, some c => " (source= " ++ f ++ ":" ++ intString n ++ ":" ++ intString c ++ ")"
  | some f, some n, none => " (source= " ++ f ++ ":" ++ intString n ++ ")"
  | some f, none, _ => " (source= " ++ f ++ ")"
  | none, some n, some c => " (line= " ++ intString n ++ ":" ++ intString c ++ ")"
  | none, some n, none => " (line= " ++ intString n ++ ")"
  | none, none, _ => ""

end Location

end Conform
