import Conform.Calendar
import Conform.Value.Basic

/-! Timestamps as scalars write them: a date, or a date with a clock and perhaps a zone. Month, day and
hour may have one digit; the clock follows a `T` or blanks. Reading checks the form alone; the value has
to exist in the calendar too. -/

namespace Conform.Yaml

open Calendar

/-- A clock with its zone in minutes east of universal time. -/
structure Clock where
  hour : Nat
  minute : Nat
  second : Nat
  microsecond : Nat
  zone : Option Int
  deriving DecidableEq, Repr

structure Timestamp where
  year : Nat
  month : Nat
  day : Nat
  clock : Option Clock
  deriving DecidableEq, Repr

namespace Timestamp

def isBlank (c : Char) : Bool := c = ' ' || c = '\t'

def takeSign? : List Char → Option (Int × List Char)
  | '+' :: cs => some (1, cs)
  | '-' :: cs => some (-1, cs)
  | _ => none

def zone? (cs : List Char) : Option (Option Int) :=
  if cs.isEmpty then some none
  else
    match cs.dropWhile isBlank with
    | ['Z'] => some (some 0)
    | cs => do
      let (sign, cs) ← takeSign? cs
      let (h, cs) ← takeNumber 1 2 cs
      if cs.isEmpty then some (some (sign * (h * 60 : Nat)))
      else
        let cs ← expect ':' cs
        let (m, cs) ← takeNumber 2 2 cs
        if cs.isEmpty then some (some (sign * (h * 60 + m : Nat))) else none

def clock? (cs : List Char) : Option Clock := do
  let (h, cs) ← takeNumber 1 2 cs
  let cs ← expect ':' cs
  let (m, cs) ← takeNumber 2 2 cs
  let cs ← expect ':' cs
  let (s, cs) ← takeNumber 2 2 cs
  let (f, cs) := fraction cs
  let zone ← zone? cs
  some ⟨h, m, s, f, zone⟩

def skipGap : List Char → Option (List Char)
  | c :: cs =>
    if c = 'T' || c = 't' then some cs
    else if isBlank c then some (cs.dropWhile isBlank)
    else none
  | [] => none

def ofText? (cs : List Char) : Option Timestamp := do
  let (y, cs) ← takeNumber 4 4 cs
  let cs ← expect '-' cs
  let (m, cs) ← takeNumber 1 2 cs
  let cs ← expect '-' cs
  let (d, cs) ← takeNumber 1 2 cs
  if cs.isEmpty then some ⟨y, m, d, none⟩
  else
    let clock ← clock? (← skipGap cs)
    some ⟨y, m, d, some clock⟩

/-- The zone as an offset; one of a day or more is refused before all else. -/
def offset? : Option Int → Except Misdate (Option Int)
  | none => .ok none
  | some minutes =>
    let o := minutes * 60000000
    if o.natAbs < microsecondsPerDay.natAbs then .ok (some o) else .error (.offset o)

def value (t : Timestamp) : Except Misdate Value :=
  match t.clock with
  | none => (Date.make t.year t.month t.day).map .date
  | some c => do
    let offset ← offset? c.zone
    let m ← Moment.make t.year t.month t.day c.hour c.minute c.second c.microsecond offset
    return .moment m

end Timestamp

end Conform.Yaml
