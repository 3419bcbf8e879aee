import Conform.Text.Split
import Conform.Yaml.Timestamp

/-! Tags: what type the data of a node has. A scalar without a tag takes one from its text, if it is plain:
each tag has its pattern, and the first pattern that fits decides. A pattern also fits a text with a line
feed at the end. -/

namespace Conform.Yaml

inductive Tag where
  | null | bool | int | float | binary | timestamp | omap | pairs | set | str | seq | map
  | merge | value
  | other (text : List Char)
  deriving DecidableEq, Repr

namespace Tag

def space : List Char := "tag:yaml.org,2002:".toList

def names : List (String × Tag) :=
  [("null", null), ("bool", bool), ("int", int), ("float", float), ("binary", binary),
   ("timestamp", timestamp), ("omap", omap), ("pairs", pairs), ("set", set), ("str", str), ("seq", seq),
   ("map", map), ("merge", merge), ("value", value)]

def ofText (cs : List Char) : Tag :=
  match names.find? fun e => space ++ e.1.toList == cs with
  | some e => e.2
  | none => other cs

def text : Tag → List Char
  | other cs => cs
  | t => space ++ ((names.find? fun e => e.2 == t).map (·.1.toList)).getD []

/-! Patterns. -/

def isGrouped (c : Char) : Bool := Text.isDigit c || c = '_'

def dropSign (cs : List Char) : List Char :=
  match cs with
  | c :: rest => if c = '+' || c = '-' then rest else cs
  | [] => []

/-- A digit, then digits and underscores only. -/
def isGroup : List Char → Bool
  | c :: cs => Text.isDigit c && cs.all isGrouped
  | [] => false

/-- At least one character, and every one as asked. -/
def isRun (p : Char → Bool) (cs : List Char) : Bool := !cs.isEmpty && cs.all p

def isBool (cs : List Char) : Bool :=
  ["yes", "Yes", "YES", "no", "No", "NO", "true", "True", "TRUE", "false", "False", "FALSE", "on", "On",
    "ON", "off", "Off", "OFF"].any (·.toList == cs)

def isNull (cs : List Char) : Bool :=
  ["", "~", "null", "Null", "NULL"].any (·.toList == cs)

/-- An exponent, which has a sign. -/
def isExponent : List Char → Bool
  | e :: s :: ds => (e = 'e' || e = 'E') && (s = '+' || s = '-') && isRun Text.isDigit ds
  | _ => false

/-- What may follow the point: digits and underscores, then perhaps an exponent. -/
def isFraction (cs : List Char) : Bool :=
  let rest := cs.dropWhile isGrouped
  rest.isEmpty || isExponent rest

/-- A part in base sixty after the first: one digit, or two below sixty. -/
def isSixtieth : List Char → Bool
  | [d] => Text.isDigit d
  | [t, d] => '0' ≤ t && t ≤ '5' && Text.isDigit d
  | _ => false

/-- At least two parts between colons. -/
def isSexagesimal (cs : List Char) : Bool :=
  match Text.splitAt ':' cs with
  | first :: second :: rest => isGroup first && (second :: rest).all isSixtieth
  | _ => false

def isFloat (cs : List Char) : Bool :=
  let body := dropSign cs
  match body.span (· ≠ '.') with
  | ([], _ :: tail) =>
    ["inf", "Inf", "INF"].any (·.toList == tail) ||
      (body == cs && (["nan", "NaN", "NAN"].any (·.toList == tail) ||
        (isFraction tail && tail.head?.any Text.isDigit)))
  | (whole, _ :: tail) =>
    (isGroup whole && isFraction tail) || (isSexagesimal whole && tail.all isGrouped)
  | (_, []) => false

def isHex (c : Char) : Bool := (Text.hexDigit? c).isSome

def isInt (cs : List Char) : Bool :=
  match dropSign cs with
  | ['0'] => true
  | '0' :: 'b' :: ds => isRun (fun c => c = '0' || c = '1' || c = '_') ds
  | '0' :: 'x' :: ds => isRun (fun c => isHex c || c = '_') ds
  | '0' :: ds => isRun (fun c => ('0' ≤ c && c ≤ '7') || c = '_') ds
  | ds => isGroup ds || isSexagesimal ds

/-- A date without a clock has two digits for month and day. -/
def isTimestamp (cs : List Char) : Bool :=
  match Timestamp.ofText? cs with
  | some t => t.clock.isSome || cs.length == 10
  | none => false

def isReserved (cs : List Char) : Bool :=
  ["!", "&", "*"].any (·.toList == cs)

def patterns : List ((List Char → Bool) × Tag) :=
  [(isBool, bool), (isFloat, float), (isInt, int), ((· == "<<".toList), merge), (isNull, null),
   (isTimestamp, timestamp), ((· == "=".toList), value), (isReserved, other (space ++ "yaml".toList))]

/-- The tag of a scalar by its text. -/
def resolve (cs : List Char) : Tag :=
  let core := if cs.length ≠ 1 && cs.getLast? = some '\n' then cs.dropLast else cs
  match patterns.find? fun e => e.1 core with
  | some e => e.2
  | none => str

end Tag

end Conform.Yaml
