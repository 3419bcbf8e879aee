import Conform.Files
import Conform.Problem
import Conform.Schema.Rejections
import Conform.Value.Key

/-! Sessions: named schemas and tables of fields, the settings that count where none are given, and the
loggers. Validation reports every rejection by an option of a union to the log, and documents report that
they are read and that they do not conform. -/

namespace Conform

open Logging

/-- A schema or plain value with the number of its making, by which schemas are told apart. There is one
schema for each kind. -/
structure Item where
  part : Part
  serial : Nat

abbrev FieldTable := KeyTable Part

structure Session where
  settings : Settings := {}
  loggers : Loggers := []
  items : NameTable Item := []
  tables : NameTable FieldTable := []
  made : Nat := 0

/-- A schema that an operation is given: by name, or made for the occasion. -/
inductive Expression where
  | named (name : String)
  | made (c : Construction)

abbrev Answer (α : Type) := Except Problem α

def Problem.ofKeyFault : KeyFault → Problem
  | .mutable t => .unhashable t
  | .signaling => .signalingKey

def requireKey (v : Value) : Answer Unit :=
  match v.keyFault? with
  | some f => .error (.ofKeyFault f)
  | none => .ok ()

namespace Session

/-! Definitions. -/

def item (s : Session) : Expression → Answer Item
  | .named name =>
    match s.items.lookup name with
    | some i => .ok i
    | none => .error (.unbound (.str name))
  | .made c => (c.eval.map fun p => ⟨p, s.made⟩).mapError Problem.ofDefinition

def part (s : Session) (e : Expression) : Answer Part := (s.item e).map Item.part

def define (s : Session) (name : String) (e : Expression) : Session × Answer Unit :=
  match s.item e with
  | .ok i => ({ s with items := s.items.put name i, made := s.made + 1 }, .ok ())
  | .error p => (s, .error p)

def table (s : Session) (name : String) : Answer FieldTable :=
  match s.tables.lookup name with
  | some t => .ok t
  | none => .error (.unbound (.str name))

/-- The parts of fields, evaluated in order. -/
def fieldParts (s : Session) : FieldTable → List (Value × Expression) → Answer FieldTable
  | done, [] => .ok done
  | done, (k, e) :: rest => do
    requireKey k
    let p ← s.part e
    s.fieldParts (done.put k p) rest

def defineFields (s : Session) (name : String) (fields : List (Value × Expression)) :
    Session × Answer Unit :=
  match s.fieldParts [] fields with
  | .ok t => ({ s with tables := s.tables.put name t }, .ok ())
  | .error p => (s, .error p)

def putField (s : Session) (name : String) (key : Value) (e : Expression) : Session × Answer Nat :=
  let result : Answer FieldTable := do
    let p ← s.part e
    let t ← s.table name
    requireKey key
    return t.put key p
  match result with
  | .ok t => ({ s with tables := s.tables.put name t }, .ok t.length)
  | .error p => (s, .error p)

def removeField (s : Session) (name : String) (key : Value) : Session × Answer Nat :=
  let result : Answer FieldTable := do
    let t ← s.table name
    requireKey key
    if t.has key then return t.erase key else throw (.unbound key)
  match result with
  | .ok t => ({ s with tables := s.tables.put name t }, .ok t.length)
  | .error p => (s, .error p)

/-- Whether two schemas are one, and how many members a set of both has. Plain values are compared as
values; one value that is made once is one member, even if it is not equal to itself. -/
def compareItems (a b : Item) : Answer (Bool × Nat) :=
  match a.part, b.part with
  | .schema (.leaf k), .schema (.leaf l) => .ok (k == l, if k = l then 1 else 2)
  | .schema _, .schema _ => .ok (a.serial == b.serial, if a.serial = b.serial then 1 else 2)
  | .value v, .value w =>
    let isOne := a.serial == b.serial
    match if isOne then v.equalsItself? else v.equal? w with
    | none => .error (.broken .signaling)
    | some e => do
      requireKey v
      requireKey w
      return (e, if isOne || v.same w then 1 else 2)
  | .schema _, .value w => do
    requireKey w
    return (false, 2)
  | .value v, .schema _ => do
    requireKey v
    return (false, 2)

/-- Compares two schemas, the second made after the first. -/
def compare (s : Session) (e f : Expression) : Answer (Bool × Nat) := do
  let a ← s.item e
  let b ← { s with made := s.made + 1 }.item f
  compareItems a b

/-! Validation. -/

def walkLogger : String := "shapecheck.schemas"
def loaderLogger : String := "shapecheck.loader"

def note (s : Session) (logger message : String) : Output :=
  emit s.loggers ⟨logger, debugLevel, message⟩

def rejectionText (r : Nat × Fault) : String :=
  "Union option " ++ intString r.1 ++ " rejected value: " ++ r.2.text

/-- What a walk writes to the log. -/
def walkNotes (s : Session) (schema : Schema) (c : Settings) (v : Value) : Output :=
  if isEnabled s.loggers ⟨walkLogger, debugLevel, ""⟩ then
    (schema.rejections c 0 v).flatMap fun r => s.note walkLogger (rejectionText r)
  else []

def answerOf : Verdict → Answer Value
  | .accepted v => .ok v
  | .rejected f => .error (.fault f)
  | .broken b => .error (.broken b)

def validate (s : Session) (p : Part) (c : Option Settings) (v : Value) : Output × Answer Value :=
  match p with
  | .value _ => ([], .error .notASchema)
  | .schema schema =>
    let c := c.getD s.settings
    (s.walkNotes schema c v, answerOf (schema.validate c v))

def nonconformityText (f : Fault) : String :=
  let pointer := f.path.pointer
  "Document failed validation at '" ++ (if pointer.isEmpty then "/" else pointer) ++ "': " ++ f.message

def load (s : Session) (p : Part) (c : Option Settings) (text : String) (file : Option String) :
    Output × Answer Value :=
  match Document.parse text file with
  | .error e => ([], .error (.ofParse e))
  | .ok d =>
    match p with
    | .value _ => ([], .error .notASchema)
    | .schema schema =>
      let c := c.getD s.settings
      let notes := s.walkNotes schema c d.data
      match d.validate file schema c with
      | .rejected f => (notes ++ s.note loaderLogger (nonconformityText f), .error (.fault f))
      | verdict => (notes, answerOf verdict)

def loadFile (s : Session) (p : Part) (c : Option Settings) (t : Files) (path : Pathname) :
    Output × Answer Value :=
  let reading := if t.holds path then s.note loaderLogger ("Loading document: " ++ path.text) else []
  match t.read path with
  | .error e => (reading, .error (.document e))
  | .ok text =>
    let (notes, answer) := s.load p c text (some path.text)
    (reading ++ notes, answer)

/-! Settings and loggers. -/

/-- A logger and its name as they are after it was set up. -/
def loggerOf (s : Session) (name : String) : String × Logger := (canonical name, s.loggers.get (canonical name))

def setLogging (s : Session) (c : Settings) : Session × Answer (String × Logger) :=
  let (ls, result) := setup s.loggers c
  let s := { s with loggers := ls }
  match result with
  | .ok () => (s, .ok (s.loggerOf setupName))
  | .error e => (s, .error (.setup e))

def splitLogging (s : Session) (name : String) (level stderrLevel : Int) :
    Session × (String × Logger) :=
  let s := { s with loggers := split s.loggers (canonical name) level stderrLevel }
  (s, s.loggerOf name)

/-- Emits a record; the number is the level from which the logger takes records. -/
def emit (s : Session) (name : String) (level : Int) (message : String) : Session × Output × Int :=
  let r : Record := ⟨canonical name, level, message⟩
  ({ s with loggers := after s.loggers r }, Logging.emit s.loggers r, effectiveLevel s.loggers r.logger)

end Session

end Conform
