import Conform.Calendar
import Conform.Kind
import Conform.Number.Decimal

/-! Untyped values. Numbers come in five types, text in two (a kind is also a string), sequences as lists,
tuples, double-ended queues and ranges, mappings as dictionaries, ordered dictionaries and read-only
views. Entries of a mapping and members of a set stand in insertion order. -/

namespace Conform

open Number Calendar

inductive SeqForm where
  | list
  | tuple
  | deque
  deriving DecidableEq, Repr

inductive MapForm where
  | dict
  | ordered
  | view
  deriving DecidableEq, Repr

inductive Callable where
  | function (name : String)
  | type (name : String)
  deriving DecidableEq, Repr

inductive Value where
  | null
  | bool (b : Bool)
  | int (n : Int)
  | float (x : Binary64)
  | decimal (d : Decimal)
  | fraction (q : Rat)
  | complex (re im : Binary64)
  | str (s : String)
  | kind (k : Kind)
  | bytes (mutable : Bool) (octets : List UInt8)
  | seq (form : SeqForm) (items : List Value)
  | range (start stop step : Int)
  | set (frozen : Bool) (members : List Value)
  | map (form : MapForm) (entries : List (Value × Value))
  | date (d : Date)
  | moment (t : Moment)
  | callable (c : Callable)
  | ellipsis

/-- Entries by key, in insertion order. -/
abbrev KeyTable (α : Type) := List (Value × α)

abbrev Entries := KeyTable Value

/-- The type of a value. A literal accepts only values of its own type. -/
inductive ValueType where
  | null | bool | int | float | decimal | fraction | complex | str | kind
  | bytes | bytearray | list | tuple | deque | range | set | frozenset
  | dict | ordered | view | date | moment | function | type | ellipsis
  deriving DecidableEq, Repr

namespace ValueType

def name : ValueType → String
  | .null => "NoneType"
  | .bool => "bool"
  | .int => "int"
  | .float => "float"
  | .decimal => "Decimal"
  | .fraction => "Fraction"
  | .complex => "complex"
  | .str => "str"
  | .kind => "Kind"
  | .bytes => "bytes"
  | .bytearray => "bytearray"
  | .list => "list"
  | .tuple => "tuple"
  | .deque => "deque"
  | .range => "range"
  | .set => "set"
  | .frozenset => "frozenset"
  | .dict => "dict"
  | .ordered => "OrderedDict"
  | .view => "mappingproxy"
  | .date => "date"
  | .moment => "datetime"
  | .function => "builtin_function_or_method"
  | .type => "type"
  | .ellipsis => "ellipsis"

/-- The name for messages, where the type of the absent value goes by the value's name. -/
def label : ValueType → String
  | .null => "None"
  | t => t.name

end ValueType

namespace Value

def type : Value → ValueType
  | .null => .null
  | .bool _ => .bool
  | .int _ => .int
  | .float _ => .float
  | .decimal _ => .decimal
  | .fraction _ => .fraction
  | .complex _ _ => .complex
  | .str _ => .str
  | .kind _ => .kind
  | .bytes false _ => .bytes
  | .bytes true _ => .bytearray
  | .seq .list _ => .list
  | .seq .tuple _ => .tuple
  | .seq .deque _ => .deque
  | .range _ _ _ => .range
  | .set false _ => .set
  | .set true _ => .frozenset
  | .map .dict _ => .dict
  | .map .ordered _ => .ordered
  | .map .view _ => .view
  | .date _ => .date
  | .moment _ => .moment
  | .callable (.function _) => .function
  | .callable (.type _) => .type
  | .ellipsis => .ellipsis

def label (v : Value) : String := v.type.label

def isNull : Value → Bool
  | .null => true
  | _ => false

abbrev list (items : List Value) : Value := .seq .list items

abbrev dict (entries : Entries) : Value := .map .dict entries

/-- The entries of a mapping of any form. -/
def entries? : Value → Option Entries
  | .map _ es => some es
  | _ => none

def isMapping (v : Value) : Bool := v.entries?.isSome

def rangeLength (start stop step : Int) : Nat :=
  if 0 < step then ((stop - start + step - 1) / step).toNat
  else if step < 0 then ((start - stop - step - 1) / -step).toNat
  else 0

end Value

/-- The elements of a sequence: stored, or the terms of an arithmetic progression, which may be too many
to store. -/
inductive Elements where
  | stored (items : List Value)
  | spaced (start step : Int) (count : Nat)

namespace Elements

def spacedList (step : Int) : Int → Nat → List Value
  | _, 0 => []
  | start, n + 1 => .int start :: spacedList step (start + step) n

def toList : Elements → List Value
  | .stored xs => xs
  | .spaced start step n => spacedList step start n

/-- The first `k` elements, without computing the others. -/
def take (k : Nat) : Elements → List Value
  | .stored xs => xs.take k
  | .spaced start step n => spacedList step start (min k n)

theorem take_spacedList (step : Int) (k n : Nat) (start : Int) :
    (spacedList step start n).take k = spacedList step start (min k n) := by
  induction k generalizing n start with
  | zero => simp [spacedList]
  | succ k ih =>
    cases n with
    | zero => simp [spacedList]
    | succ n => simp [spacedList, ih, Nat.succ_min_succ]

theorem take_toList (k : Nat) (e : Elements) : e.toList.take k = e.take k := by
  cases e with
  | stored xs => rfl
  | spaced start step n => exact take_spacedList step k n start

end Elements

/-- The elements of a sequence of any form. Text is no sequence. -/
def Value.elements? : Value → Option Elements
  | .seq _ xs => some (.stored xs)
  | .range start stop step => some (.spaced start step (rangeLength start stop step))
  | _ => none

def Value.isSequence (v : Value) : Bool := v.elements?.isSome

end Conform
