import Conform.Number.Shortest

/-! Dates and moments of the proleptic Gregorian calendar, years 1 to 9999. A moment may carry the
distance of its clock from universal time; two moments with such a distance are compared as instants, a
moment with and one without are never equal and have no order. -/

namespace Conform.Calendar

open Number (digitsText natOfDigits)

structure Date where
  year : Nat
  month : Nat
  day : Nat
  deriving DecidableEq, Repr

/-- The offset counts microseconds east of universal time. -/
structure Moment where
  date : Date
  hour : Nat
  minute : Nat
  second : Nat
  microsecond : Nat
  offset : Option Int
  deriving DecidableEq, Repr

inductive Misdate where
  | year (y : Nat)
  | month
  | day
  | hour
  | minute
  | second
  | offset (microseconds : Int)
  deriving DecidableEq, Repr

def isLeap (y : Nat) : Bool :=
  y % 4 = 0 && (y % 100 ≠ 0 || y % 400 = 0)

def monthLength (y m : Nat) : Nat :=
  if m = 2 then if isLeap y then 29 else 28
  else if m = 4 || m = 6 || m = 9 || m = 11 then 30
  else 31

def Date.make (y m d : Nat) : Except Misdate Date :=
  if y < 1 || 9999 < y then .error (.year y)
  else if m < 1 || 12 < m then .error .month
  else if d < 1 || monthLength y m < d then .error .day
  else .ok ⟨y, m, d⟩

def Moment.make (y m d hour minute second microsecond : Nat) (offset : Option Int) :
    Except Misdate Moment := do
  let date ← Date.make y m d
  if 23 < hour then .error .hour
  else if 59 < minute then .error .minute
  else if 59 < second then .error .second
  else .ok ⟨date, hour, minute, second, microsecond, offset⟩

def microsecondsPerDay : Int := 86400000000

/-- Days before a year, counted from the first day of year 1. -/
def daysBeforeYear (y : Nat) : Nat :=
  let p := y - 1
  p * 365 + p / 4 - p / 100 + p / 400

def daysBeforeMonth (y m : Nat) : Nat :=
  (List.range (m - 1)).foldl (fun n k => n + monthLength y (k + 1)) 0

def Date.ordinal (d : Date) : Nat :=
  daysBeforeYear d.year + daysBeforeMonth d.year d.month + d.day

def Moment.clock (t : Moment) : Int :=
  (t.date.ordinal : Int) * microsecondsPerDay +
    (((t.hour * 60 + t.minute) * 60 + t.second) * 1000000 + t.microsecond : Nat)

/-- The order of two moments, if they have one. -/
def Moment.compare? (a b : Moment) : Option Ordering :=
  match a.offset, b.offset with
  | none, none => some (compare a.clock b.clock)
  | some x, some y => some (compare (a.clock - x) (b.clock - y))
  | _, _ => none

def Date.compare (a b : Date) : Ordering :=
  Ord.compare a.ordinal b.ordinal

def padded (width n : Nat) : List Char :=
  let ds := digitsText n
  List.replicate (width - ds.length) '0' ++ ds

def Date.text (d : Date) : List Char :=
  padded 4 d.year ++ '-' :: padded 2 d.month ++ '-' :: padded 2 d.day

def offsetText (o : Int) : List Char :=
  let n := o.natAbs
  let seconds := n / 1000000
  let rest := n % 1000000
  let minutes := seconds / 60
  (if o < 0 then '-' else '+') :: padded 2 (minutes / 60) ++ ':' :: padded 2 (minutes % 60) ++
    (if seconds % 60 = 0 && rest = 0 then [] else ':' :: padded 2 (seconds % 60)) ++
    (if rest = 0 then [] else '.' :: padded 6 rest)

def Moment.text (separator : Char) (t : Moment) : List Char :=
  t.date.text ++ separator :: padded 2 t.hour ++ ':' :: padded 2 t.minute ++ ':' :: padded 2 t.second ++
    (if t.microsecond = 0 then [] else '.' :: padded 6 t.microsecond) ++
    (match t.offset with
    | some o => offsetText o
    | none => [])

def commaList (parts : List (List Char)) : List Char :=
  (parts.intersperse [',', ' ']).flatten

def Date.literal (d : Date) : List Char :=
  "datetime.date(".toList ++ commaList ([d.year, d.month, d.day].map digitsText) ++ [')']

/-- A span as days, seconds and microseconds, where only the days may be negative. -/
def spanLiteral (o : Int) : List Char :=
  let days := o / microsecondsPerDay
  let rest := (o % microsecondsPerDay).toNat
  let part (name : String) (n : Int) : List (List Char) :=
    if n = 0 then [] else [name.toList ++ '=' :: Number.intText n]
  let parts := part "days" days ++ part "seconds" (rest / 1000000 : Nat) ++
    part "microseconds" (rest % 1000000 : Nat)
  "datetime.timedelta(".toList ++ (if parts.isEmpty then ['0'] else commaList parts) ++ [')']

def zoneLiteral (o : Int) : List Char :=
  if o = 0 then "datetime.timezone.utc".toList
  else "datetime.timezone(".toList ++ spanLiteral o ++ [')']

def Moment.literal (t : Moment) : List Char :=
  let base := [t.date.year, t.date.month, t.date.day, t.hour, t.minute]
  let tail := if t.microsecond ≠ 0 then [t.second, t.microsecond]
    else if t.second ≠ 0 then [t.second] else []
  let zone := match t.offset with
    | some o => ["tzinfo=".toList ++ zoneLiteral o]
    | none => []
  "datetime.datetime(".toList ++ commaList ((base ++ tail).map digitsText ++ zone) ++ [')']

def Misdate.message : Misdate → List Char
  | .year y => "year ".toList ++ digitsText y ++ " is out of range".toList
  | .month => "month must be in 1..12".toList
  | .day => "day is out of range for month".toList
  | .hour => "hour must be in 0..23".toList
  | .minute => "minute must be in 0..59".toList
  | .second => "second must be in 0..59".toList
  | .offset o =>
    "offset must be a timedelta strictly between -timedelta(hours=24) and timedelta(hours=24), not ".toList
      ++ spanLiteral o ++ ['.']

/-- A digit count of at least `least` and at most `most` from the front, as a number. -/
def takeNumber (least most : Nat) (cs : List Char) : Option (Nat × List Char) :=
  let ds := (cs.take most).takeWhile Text.isDigit
  if ds.length < least then none else some (natOfDigits ds, cs.drop ds.length)

def expect (c : Char) : List Char → Option (List Char)
  | d :: cs => if c = d then some cs else none
  | [] => none

/-- Digits after a point as microseconds; digits beyond the sixth are cut. -/
def microseconds (ds : List Char) : Nat :=
  let six := ds.take 6
  natOfDigits (six ++ List.replicate (6 - six.length) '0')

def fraction (cs : List Char) : Nat × List Char :=
  match cs with
  | '.' :: r => (microseconds (r.takeWhile Text.isDigit), r.dropWhile Text.isDigit)
  | r => (0, r)

def takeDate (cs : List Char) : Option ((Nat × Nat × Nat) × List Char) := do
  let (y, cs) ← takeNumber 4 4 cs
  let cs ← expect '-' cs
  let (m, cs) ← takeNumber 2 2 cs
  let cs ← expect '-' cs
  let (d, cs) ← takeNumber 2 2 cs
  some ((y, m, d), cs)

def takeOffset : List Char → Option (Option Int)
  | [] => some none
  | ['Z'] => some (some 0)
  | c :: cs => do
    let sign : Int ← if c = '+' then some 1 else if c = '-' then some (-1) else none
    let (h, cs) ← takeNumber 2 2 cs
    let cs ← expect ':' cs
    let (m, cs) ← takeNumber 2 2 cs
    let (s, cs) ← match cs with
      | ':' :: r => takeNumber 2 2 r
      | r => some (0, r)
    let (f, cs) := fraction cs
    if cs.isEmpty then some (some (sign * (((h * 60 + m) * 60 + s) * 1000000 + f : Nat))) else none

/-- Reads a date as it is written. -/
def Date.ofText? (cs : List Char) : Option Date := do
  let ((y, m, d), rest) ← takeDate cs
  if rest.isEmpty then (Date.make y m d).toOption else none

/-- Reads a moment as it is written, with any one character between date and clock. -/
def Moment.ofText? (cs : List Char) : Option Moment := do
  let ((y, mo, d), cs) ← takeDate cs
  let (h, cs) ← takeNumber 2 2 (cs.drop 1)
  let cs ← expect ':' cs
  let (mi, cs) ← takeNumber 2 2 cs
  let (s, cs) ← match cs with
    | ':' :: r => takeNumber 2 2 r
    | r => some (0, r)
  let (f, cs) := fraction cs
  let offset ← takeOffset cs
  (Moment.make y mo d h mi s f offset).toOption

end Conform.Calendar
