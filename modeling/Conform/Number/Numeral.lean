import Conform.Text.Blank
import Conform.Text.Digit

/-! Numerals as they are read. An integer has an optional sign and digits of its base, which may be
grouped by single underscores; a base that is a power of two may be announced in front (`0x`). A
scientific numeral has digits, a point and an exponent. Digits of any script count as the ASCII ones. -/

namespace Conform.Number

open Text

/-- The ASCII character that a character of a numeral counts as; one that has no place in any numeral
counts as a question mark. -/
def plain (c : Char) : Char :=
  if c.toNat < 0x7F then c
  else if isBlank c then ' '
  else match digit? c with
    | some d => Char.ofNat (0x30 + d)
    | none => '?'

def isSpace (c : Char) : Bool :=
  c = ' ' || (0x09 ≤ c.toNat && c.toNat ≤ 0x0D)

def trim (cs : List Char) : List Char :=
  ((cs.dropWhile isSpace).reverse.dropWhile isSpace).reverse

def takeSign : List Char → Bool × List Char
  | '-' :: cs => (true, cs)
  | '+' :: cs => (false, cs)
  | cs => (false, cs)

/-- Reads digits with single underscores between them; `opened` tells whether an underscore may follow. -/
def groupedDigits (base : Nat) : List Char → Nat → Bool → Option Nat
  | [], n, opened => if opened then some n else none
  | c :: cs, n, opened =>
    if c = '_' then if opened then groupedDigits base cs n false else none
    else match hexDigit? c with
      | some d => if d < base then groupedDigits base cs (n * base + d) true else none
      | none => none

def baseLetters : Nat → List Char
  | 16 => ['x', 'X']
  | 8 => ['o', 'O']
  | 2 => ['b', 'B']
  | _ => []

def dropBaseMark (base : Nat) : List Char → List Char
  | '0' :: c :: cs =>
    if (baseLetters base).contains c then
      match cs with
      | '_' :: rest => rest
      | _ => cs
    else '0' :: c :: cs
  | cs => cs

def integer? (base : Nat) (cs : List Char) : Option Int :=
  let (negative, body) := takeSign (trim (cs.map plain))
  (groupedDigits base (dropBaseMark base body) 0 false).map fun n =>
    if negative then -(n : Int) else n

/-- How many digits stand in front of the first character that is neither a digit nor an underscore; none
if an underscore does not stand between two of them. -/
def leadingDigits (base : Nat) : List Char → Nat → Bool → Nat
  | [], n, opened => if opened then n else 0
  | c :: cs, n, opened =>
    if c = '_' then if opened then leadingDigits base cs n false else 0
    else if (hexDigit? c).any (· < base) then leadingDigits base cs (n + 1) true
    else if opened then n else 0

/-- The number of digits of a numeral, leading zeros too. -/
def digitCount (base : Nat) (cs : List Char) : Nat :=
  leadingDigits base (dropBaseMark base (takeSign (trim (cs.map plain))).2) 0 false

/-- A coefficient and a power of ten. -/
structure Scientific where
  coefficient : Nat
  exponent : Int
  deriving DecidableEq, Repr

def natOfDigits (cs : List Char) : Nat :=
  cs.foldl (fun n c => n * 10 + (c.toNat - 0x30)) 0

def exponent? : List Char → Option Int
  | [] => some 0
  | c :: cs =>
    if c = 'e' || c = 'E' then
      let (negative, ds) := takeSign cs
      if ds.isEmpty || !ds.all isDigit then none
      else some (if negative then -(natOfDigits ds : Int) else natOfDigits ds)
    else none

def scientific? (cs : List Char) : Option Scientific :=
  let whole := cs.takeWhile isDigit
  let (part, rest) := match cs.dropWhile isDigit with
    | '.' :: r => (r.takeWhile isDigit, r.dropWhile isDigit)
    | r => ([], r)
  if whole.isEmpty && part.isEmpty then none
  else (exponent? rest).map fun e => ⟨natOfDigits (whole ++ part), e - part.length⟩

/-- Removes single underscores that stand between digits; any other underscore spoils the numeral. -/
def ungroup : List Char → Char → Option (List Char)
  | [], last => if last = '_' then none else some []
  | c :: cs, last =>
    if c = '_' then if isDigit last then ungroup cs c else none
    else if last = '_' && !isDigit c then none
    else (ungroup cs c).map (c :: ·)

end Conform.Number
