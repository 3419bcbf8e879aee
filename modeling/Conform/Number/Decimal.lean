import Conform.Number.Numeral
import Conform.Number.Exact
import Conform.Number.Shortest

/-! Decimal numbers with an exponent that is part of the number: `1.5` and `1.50` are equal and are
written apart. A number that is none may be quiet or signaling and may carry digits of its own. -/

namespace Conform.Number

inductive Decimal where
  | finite (negative : Bool) (coefficient : Nat) (exponent : Int)
  | infinite (negative : Bool)
  | nan (negative signaling : Bool) (payload : Option Nat)
  deriving DecidableEq, Repr

namespace Decimal

def exact (negative : Bool) (c : Nat) (e : Int) : Exact :=
  ⟨if negative then -(c : Int) else c, 1, e⟩

def isSignaling : Decimal → Bool
  | .nan _ s _ => s
  | _ => false

def isFinite : Decimal → Bool
  | .finite _ _ _ => true
  | _ => false

/-- The whole number nearest to `c / 10 ^ k`, a tie to the even one. A power far beyond `c` is not computed. -/
def dropPlaces (c k : Nat) : Nat :=
  if c.log2 + 1 < k then 0 else roundHalfEven c (Nat.pow 10 k)

/-- Rounds to a whole number. A decimal that has no places stays as it is. -/
def toIntegral : Decimal → Decimal
  | .finite s c e => if 0 ≤ e then .finite s c e else .finite s (dropPlaces c (-e).toNat) 0
  | d => d

def payload? (ds : List Char) : Option (Option Nat) :=
  if ds.isEmpty then some none
  else if ds.all Text.isDigit then
    let n := natOfDigits ds
    some (if n = 0 then none else some n)
  else none

def ofText? (cs : List Char) : Option Decimal :=
  let (negative, body) := takeSign (trim (cs.map plain))
  let name := body.map Char.toLower
  if name = "inf".toList || name = "infinity".toList then some (.infinite negative)
  else if name.take 3 = "nan".toList then (payload? (name.drop 3)).map (.nan negative false ·)
  else if name.take 4 = "snan".toList then (payload? (name.drop 4)).map (.nan negative true ·)
  else (scientific? body).map fun d => .finite negative d.coefficient d.exponent

/-- Written out if the exponent is not positive and the leading digit counts at least `10 ^ -6`, else
with an exponent and a point after the first digit. -/
def finiteText (c : Nat) (e : Int) : List Char :=
  let ds := digitsText c
  let point : Int := ds.length + e
  if e ≤ 0 && -6 < point then
    if e = 0 then ds
    else if point ≤ 0 then '0' :: '.' :: (List.replicate (-point).toNat '0' ++ ds)
    else ds.take point.toNat ++ '.' :: ds.drop point.toNat
  else
    let x := point - 1
    ds.take 1 ++ (if ds.length ≤ 1 then [] else '.' :: ds.drop 1) ++
      'E' :: (if x < 0 then '-' else '+') :: digitsText x.natAbs

def text : Decimal → List Char
  | .finite s c e => (if s then ['-'] else []) ++ finiteText c e
  | .infinite s => (if s then ['-'] else []) ++ "Infinity".toList
  | .nan s signaling p =>
    (if s then ['-'] else []) ++ (if signaling then "sNaN".toList else "NaN".toList) ++
      (match p with
      | some n => digitsText n
      | none => [])

end Decimal

end Conform.Number
