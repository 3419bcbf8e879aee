import Conform.Value.Equality

/-! The order in which keys and members are shown. They are sorted when any two of them that are compared
have an order, and are left in place otherwise. Sorting finds the initial run of ascending or strictly
descending values and then inserts each further value by halving, after the values that it does not
precede; so the result is determined even where the order is only partial, as for sets by inclusion. -/

namespace Conform

open Number

namespace Value

def textLess : List Char → List Char → Bool
  | _, [] => false
  | [], _ :: _ => true
  | a :: as, b :: bs => if a = b then textLess as bs else a.toNat < b.toNat

def bytesLess : List UInt8 → List UInt8 → Bool
  | _, [] => false
  | [], _ :: _ => true
  | a :: as, b :: bs => if a = b then bytesLess as bs else a < b

/-- Complex numbers have no order, nor has a decimal with a number that is none. -/
def amountLess? (a b : Amount) : Option Bool :=
  match a, b with
  | .complex _ _, _ => none
  | _, .complex _ _ => none
  | .plain x, .plain y => some (x.less y)
  | _, _ =>
    match a.quantity?, b.quantity? with
    | some x, some y => if x.isNan || y.isNan then none else some (x.less y)
    | _, _ => none

mutual

def less? : Value → Value → Option Bool
  | .str s, w => w.string?.map fun t => textLess s.toList t.toList
  | .kind k, w => w.string?.map fun t => textLess k.name.toList t.toList
  | .bytes _ a, .bytes _ b => some (bytesLess a b)
  | .date a, .date b => some (a.compare b == .lt)
  | .moment a, .moment b => (a.compare? b).map (· == .lt)
  | .seq .tuple xs, .seq .tuple ys => lessList? xs ys
  | .set _ xs, .set _ ys => some (xs.length < ys.length && sameMembers xs ys)
  | v, w =>
    match v.amount?, w.amount? with
    | some a, some b => amountLess? a b
    | _, _ => none
termination_by structural v => v

/-- The first elements that differ decide. -/
def lessList? : List Value → List Value → Option Bool
  | _, [] => some false
  | [], _ :: _ => some true
  | x :: xs, y :: ys =>
    match equal? x y with
    | some true => lessList? xs ys
    | some false => less? x y
    | none => none
termination_by structural xs => xs

end

end Value

namespace Sorting

variable {α : Type}

/-- Inserts a value into a sorted list by halving; the number bounds the halvings. -/
def insert? (less? : α → α → Option Bool) (x : α) : Nat → List α → Option (List α)
  | 0, xs => some (x :: xs)
  | k + 1, xs =>
    let left := xs.take (xs.length / 2)
    match xs.drop (xs.length / 2) with
    | [] => some (x :: xs)
    | m :: right =>
      match less? x m with
      | some true => (insert? less? x k left).map (· ++ m :: right)
      | some false => (insert? less? x k right).map (left ++ m :: ·)
      | none => none

/-- The longest run from the front whose neighbours all compare as `down` says, after the value `prev`,
and what follows it. -/
def run? (less? : α → α → Option Bool) (down : Bool) (prev : α) : List α → Option (List α × List α)
  | [] => some ([], [])
  | x :: xs =>
    match less? x prev with
    | none => none
    | some b =>
      if b = down then (run? less? down x xs).map fun p => (x :: p.1, p.2)
      else some ([], x :: xs)

def insertAll? (less? : α → α → Option Bool) : List α → List α → Option (List α)
  | sorted, [] => some sorted
  | sorted, x :: xs =>
    match insert? less? x sorted.length sorted with
    | some sorted => insertAll? less? sorted xs
    | none => none

def sort? (less? : α → α → Option Bool) : List α → Option (List α)
  | x :: y :: rest =>
    match less? y x with
    | none => none
    | some down =>
      match run? less? down y rest with
      | none => none
      | some (run, others) =>
        let front := x :: y :: run
        insertAll? less? (if down then front.reverse else front) others
  | xs => some xs

end Sorting

/-- The values in order if they have one, else as they stand. -/
def Value.inOrder {α : Type} (key : α → Value) (xs : List α) : List α :=
  (Sorting.sort? (fun a b => (key a).less? (key b)) xs).getD xs

end Conform
