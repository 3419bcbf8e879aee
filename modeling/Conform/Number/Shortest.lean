import Conform.Number.Binary64

/-! The text of a double. It has the fewest digits that read back as the same double; of two such
decimals the nearer one is taken, and of two that are equally near the one with the even last digit. A
number whose leading digit counts at most `10 ^ 15` and at least `10 ^ -4` is written out, any other has an
exponent of two or more digits. -/

namespace Conform.Number

/-- The numbers that round to a double, and the double itself, as multiples of `1 / unit`. The ends
belong to the interval iff the significand is even. -/
structure Interval where
  low : Nat
  middle : Nat
  high : Nat
  unit : Nat
  closed : Bool

def Interval.ofFinite (m : Nat) (e : Int) : Interval :=
  let s := Nat.pow 2 e.toNat
  let below := if m = Nat.pow 2 52 && Binary64.least < e then 1 else 2
  ⟨(4 * m - below) * s, 4 * m * s, (4 * m + 2) * s, 4 * Nat.pow 2 (-e).toNat, m % 2 == 0⟩

def Interval.has (i : Interval) (n d : Nat) : Bool :=
  if i.closed then i.low * d ≤ n * i.unit && n * i.unit ≤ i.high * d
  else i.low * d < n * i.unit && n * i.unit < i.high * d

/-- A multiple of `10 ^ p` in the interval that is nearest to its middle. -/
def Interval.onGrid? (i : Interval) (p : Int) : Option Nat :=
  let n := Nat.pow 10 p.toNat
  let d := Nat.pow 10 (-p).toNat
  let below := i.middle * d / (n * i.unit)
  let above := below + 1
  match i.has (below * n) d, i.has (above * n) d with
  | true, true =>
    let down := i.middle * d - below * n * i.unit
    let up := above * n * i.unit - i.middle * d
    if down < up || (down = up && below % 2 = 0) then some below else some above
  | true, false => some below
  | false, true => some above
  | false, false => none

/-- The least power of ten above `n / d`. -/
def decimalSize (n d : Nat) : Int :=
  let k : Int := (Nat.toDigits 10 n).length - (Nat.toDigits 10 d).length
  if d * Nat.pow 10 k.toNat ≤ n * Nat.pow 10 (-k).toNat then k + 1 else k

def dropTrailingZeros (ds : List Char) : List Char :=
  (ds.reverse.dropWhile (· = '0')).reverse

/-- The shortest digits of a positive double, and the power of ten of the point before them. -/
def shortest (m : Nat) (e : Int) : List Char × Int :=
  let i := Interval.ofFinite m e
  let size := decimalSize i.middle i.unit
  let found := (List.range 17).findSome? fun (k : Nat) =>
    (i.onGrid? (size - k - 1)).map fun n => (n, size - k - 1)
  let (n, p) := found.getD (m, 0)
  let ds := Nat.toDigits 10 n
  (dropTrailingZeros ds, p + ds.length)

/-- How a double is laid out: the least and the first too large power of its leading digit that are
written without an exponent, and whether a whole number keeps its point. -/
structure Layout where
  least : Int
  bound : Int
  keepsPoint : Bool

def digitsText (n : Nat) : List Char := Nat.toDigits 10 n

def intText (n : Int) : List Char :=
  if n < 0 then '-' :: digitsText n.natAbs else digitsText n.natAbs

/-- How many digits an integer may have where it is written or read in base ten. -/
def digitLimit : Nat := 4300

/-- Whether an integer is short enough to be written. -/
def isWritable (n : Int) : Bool := (digitsText n.natAbs).length ≤ digitLimit

def exponentText (x : Int) : List Char :=
  let ds := digitsText x.natAbs
  (if x < 0 then '-' else '+') :: (if ds.length < 2 then '0' :: ds else ds)

def Layout.digits (l : Layout) (ds : List Char) (point : Int) : List Char :=
  let x := point - 1
  if l.least ≤ x && x < l.bound then
    if point ≤ 0 then '0' :: '.' :: (List.replicate (-point).toNat '0' ++ ds)
    else
      let k := point.toNat
      if ds.length ≤ k then
        ds ++ List.replicate (k - ds.length) '0' ++ (if l.keepsPoint then ['.', '0'] else [])
      else ds.take k ++ '.' :: ds.drop k
  else
    ds.take 1 ++ (if ds.length ≤ 1 then [] else '.' :: ds.drop 1) ++ 'e' :: exponentText x

def Layout.text (l : Layout) : Binary64 → List Char
  | .nan => "nan".toList
  | .infinite s => if s then "-inf".toList else "inf".toList
  | .finite s m e =>
    let body := if m = 0 then '0' :: (if l.keepsPoint then ['.', '0'] else [])
      else l.digits (shortest m e).1 (shortest m e).2
    if s then '-' :: body else body

/-- Numbers standing alone keep their point; the parts of a complex number do not. -/
def Layout.alone : Layout := ⟨-4, 16, true⟩

def Layout.part : Layout := ⟨-4, 16, false⟩

end Conform.Number
