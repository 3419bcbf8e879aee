import Conform.Document
import Conform.Text.Split

/-! Files below one directory. A pathname is kept without empty names and without names for the directory
itself; two leading slashes are kept apart from one. The name of the parent is followed where it stands, so
what comes before it must be a directory. Of what lies outside, only the directories above are known. -/

namespace Conform

structure Pathname where
  root : String
  names : List String
  deriving DecidableEq, Repr

namespace Pathname

def leadingSlashes (cs : List Char) : Nat := (cs.takeWhile (· = '/')).length

def ofText (text : String) : Pathname :=
  let cs := text.toList
  let root := match leadingSlashes cs with
    | 0 => ""
    | 2 => "//"
    | _ => "/"
  let names := (Text.splitAt '/' cs).filter fun n => !n.isEmpty && n ≠ ['.']
  ⟨root, names.map String.ofList⟩

def text (p : Pathname) : String :=
  if p.root.isEmpty && p.names.isEmpty then "."
  else p.root ++ String.intercalate "/" p.names

end Pathname

/-- Directories and files by their names from the top. A later file replaces an earlier one. -/
structure Files where
  directories : List (List String)
  files : List (List String × List UInt8)

/-- What a pathname leads to. -/
inductive Entry where
  | absent
  | directory
  | file (octets : List UInt8)
  deriving DecidableEq, Repr

namespace Files

def empty : Files := ⟨[], []⟩

/-- Adds a directory and those above it. -/
def addNames (t : Files) (names : List String) : Files :=
  { t with directories := t.directories ++ (List.range names.length).map fun k => names.take (k + 1) }

def addDirectory (t : Files) (p : Pathname) : Files := t.addNames p.names

def addFile (t : Files) (p : Pathname) (octets : List UInt8) : Files :=
  { t.addNames p.names.dropLast with files := (p.names, octets) :: t.files }

/-- Goes on from a directory, or from outside. -/
def walk (t : Files) : Option (List String) → List String → Entry
  | _, [] => .directory
  | none, n :: ns => if n = ".." then t.walk none ns else .absent
  | some above, n :: ns =>
    if n = ".." then t.walk (if above.isEmpty then none else some above.dropLast) ns
    else
      let names := above ++ [n]
      match t.files.lookup names with
      | some octets => if ns.isEmpty then .file octets else .absent
      | none => if t.directories.contains names then t.walk (some names) ns else .absent

def find (t : Files) (p : Pathname) : Entry :=
  if p.root.isEmpty then t.walk (some []) p.names
  else if p.names.all (· = "..") then .directory
  else .absent

/-- The text of a document in a file, every line end as a line feed. -/
def read (t : Files) (p : Pathname) : Except DocumentError String :=
  match t.find p with
  | .absent => .error (.notFound p.text)
  | .directory => .error (.notAFile p.text)
  | .file octets =>
    match Text.decodeUtf8 octets with
    | .ok cs => .ok (String.ofList (Text.unifyLineEnds cs))
    | .error f => .error (.undecodable p.text f)

def holds (t : Files) (p : Pathname) : Bool :=
  match t.find p with
  | .file _ => true
  | _ => false

end Files

end Conform
