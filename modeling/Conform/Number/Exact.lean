/-! Exact finite numbers, for comparisons that must not round: a fraction times a power of ten. The power
may be too large to compute, so an order is decided by the sizes first. -/

namespace Conform.Number

structure Exact where
  numerator : Int
  denominator : Nat
  tens : Int
  deriving DecidableEq, Repr

/-- Orders `x * 10 ^ k` against `y`. A power that exceeds `y` is not computed. -/
def compareScaled (x : Int) (k : Nat) (y : Int) : Ordering :=
  if x = 0 then compare 0 y
  else if y.natAbs.log2 + 1 < k then if 0 < x then .gt else .lt
  else compare (x * Nat.pow 10 k) y

def Exact.compare (a b : Exact) : Ordering :=
  let x := a.numerator * b.denominator
  let y := b.numerator * a.denominator
  if b.tens ≤ a.tens then compareScaled x (a.tens - b.tens).toNat y
  else (compareScaled y (b.tens - a.tens).toNat x).swap

def Exact.ofInt (n : Int) : Exact := ⟨n, 1, 0⟩

def Exact.ofRat (q : Rat) : Exact := ⟨q.num, q.den, 0⟩

end Conform.Number
