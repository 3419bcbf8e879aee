import Conform.Number.Exact
import Conform.Number.Numeral
import Conform.Text.Case

/-! Double-precision numbers. A finite one is a sign, a significand and a power of two; the significand
lies in `[2 ^ 52, 2 ^ 53)` unless the exponent is the least, `-1074`. Numbers are made by rounding an
exact ratio to the nearest, a tie to the even significand, so the form is the same for equal numbers. -/

namespace Conform.Number

inductive Binary64 where
  | finite (negative : Bool) (significand : Nat) (exponent : Int)
  | infinite (negative : Bool)
  | nan
  deriving DecidableEq, Repr

/-- The nearest whole number to `n / d`, a tie to the even one. -/
def roundHalfEven (n d : Nat) : Nat :=
  let q := n / d
  let r := n % d
  if 2 * r < d then q else if d < 2 * r then q + 1 else q + q % 2

namespace Binary64

def zero (negative : Bool) : Binary64 := .finite negative 0 (-1074)

def least : Int := -1074

/-- The power of two of the last significand bit of `n / d`. -/
def unitExponent (n d : Nat) : Int :=
  let l : Int := (n.log2 : Int) - d.log2
  let reaches := d * Nat.pow 2 l.toNat ≤ n * Nat.pow 2 (-l).toNat
  max least (if reaches then l - 52 else l - 53)

def ofRatio (negative : Bool) (n d : Nat) : Binary64 :=
  if n = 0 then zero negative
  else
    let e := unitExponent n d
    let m := roundHalfEven (n * Nat.pow 2 (-e).toNat) (d * Nat.pow 2 e.toNat)
    let (m, e) := if m = Nat.pow 2 53 then (Nat.pow 2 52, e + 1) else (m, e)
    if 971 < e then .infinite negative else .finite negative m e

/-- The number nearest to a decimal. Decimals beyond the range of doubles are told by their size. -/
def ofDecimal (negative : Bool) (d : Scientific) : Binary64 :=
  let size : Int := (Nat.toDigits 10 d.coefficient).length + d.exponent
  if d.coefficient = 0 || size < -330 then zero negative
  else if 320 < size then .infinite negative
  else ofRatio negative (d.coefficient * Nat.pow 10 d.exponent.toNat) (Nat.pow 10 (-d.exponent).toNat)

def ofInt (n : Int) : Binary64 :=
  ofRatio (decide (n < 0)) n.natAbs 1

def neg : Binary64 → Binary64
  | .finite s m e => .finite (!s) m e
  | .infinite s => .infinite !s
  | .nan => .nan

/-- A finite number as an exact one. -/
def exact (negative : Bool) (m : Nat) (e : Int) : Exact :=
  let n : Int := m * Nat.pow 2 e.toNat
  ⟨if negative then -n else n, Nat.pow 2 (-e).toNat, 0⟩

def isWhole : Binary64 → Bool
  | .finite _ m e => m % Nat.pow 2 (-e).toNat == 0
  | _ => false

def isNegative : Binary64 → Bool
  | .finite s _ _ => s
  | .infinite s => s
  | .nan => false

def ofSum (a b : Int) (d : Nat) (negativeZero : Bool) : Binary64 :=
  let n := a + b
  if n = 0 then zero negativeZero else ofRatio (decide (n < 0)) n.natAbs d

def add : Binary64 → Binary64 → Binary64
  | .nan, _ => .nan
  | _, .nan => .nan
  | .infinite s, .infinite t => if s = t then .infinite s else .nan
  | .infinite s, _ => .infinite s
  | _, .infinite s => .infinite s
  | .finite s m e, .finite t n f =>
    let a := exact s m e
    let b := exact t n f
    ofSum (a.numerator * b.denominator) (b.numerator * a.denominator) (a.denominator * b.denominator)
      (s && t)

def mul : Binary64 → Binary64 → Binary64
  | .nan, _ => .nan
  | _, .nan => .nan
  | .infinite s, .infinite t => .infinite (s != t)
  | .infinite s, .finite t n _ => if n = 0 then .nan else .infinite (s != t)
  | .finite t n _, .infinite s => if n = 0 then .nan else .infinite (s != t)
  | .finite s m e, .finite t n f =>
    let a := exact s m e
    let b := exact t n f
    ofRatio (s != t) (a.numerator.natAbs * b.numerator.natAbs) (a.denominator * b.denominator)

/-- Reads a decimal numeral, or the name of an infinity or of the number that is none. -/
def ofText? (cs : List Char) : Option Binary64 := do
  let body ← ungroup (trim (cs.map plain)) ' '
  let (negative, body) := takeSign body
  let name := body.map Char.toLower
  if name = "inf".toList || name = "infinity".toList then some (.infinite negative)
  else if name = "nan".toList then some .nan
  else (scientific? body).map (ofDecimal negative)

end Binary64

end Conform.Number
