import Conform.Value.Basic

/-! Equality of values. There are two relations. `same` decides whether two keys are one key; it is what
dictionaries and sets use. `equal?` compares any two values: numbers by what they count, whatever their
type, sequences of one form element by element, mappings by key. A kind equals the string that is its
name, also as a key. Comparing a signaling number with a number has no answer. -/

namespace Conform

open Number

/-- What a number counts. -/
inductive Quantity where
  | real (x : Exact)
  | infinite (negative : Bool)
  | nan
  deriving DecidableEq, Repr

namespace Quantity

def ofBinary : Binary64 → Quantity
  | .finite s m e => .real (Binary64.exact s m e)
  | .infinite s => .infinite s
  | .nan => .nan

def ofDecimal : Decimal → Quantity
  | .finite s c e => .real (Decimal.exact s c e)
  | .infinite s => .infinite s
  | .nan _ _ _ => .nan

def equal : Quantity → Quantity → Bool
  | .real x, .real y => x.compare y == .eq
  | .infinite s, .infinite t => s == t
  | _, _ => false

/-- Whether one number is below another; nothing is below or above a number that is none. -/
def less : Quantity → Quantity → Bool
  | .real x, .real y => x.compare y == .lt
  | .infinite s, .real _ => s
  | .real _, .infinite t => !t
  | .infinite s, .infinite t => s && !t
  | _, _ => false

def isNan : Quantity → Bool
  | .nan => true
  | _ => false

end Quantity

inductive Amount where
  | plain (q : Quantity)
  | decimal (d : Decimal)
  | complex (re im : Quantity)

namespace Amount

def isZero : Quantity → Bool
  | .real x => x.numerator == 0
  | _ => false

def isSignaling : Amount → Bool
  | .decimal d => d.isSignaling
  | _ => false

/-- A complex number as a real one, if its imaginary part is zero. -/
def quantity? : Amount → Option Quantity
  | .plain q => some q
  | .decimal d => some (.ofDecimal d)
  | .complex re im => if isZero im then some re else none

def equal? (a b : Amount) : Option Bool :=
  match a, b with
  | .complex r i, .complex s j => some (r.equal s && i.equal j)
  | _, _ =>
    match a.quantity?, b.quantity? with
    | some x, some y => if a.isSignaling || b.isSignaling then none else some (x.equal y)
    | _, _ => some false

end Amount

namespace Value

def amount? : Value → Option Amount
  | .bool b => some (.plain (.real (.ofInt (if b then 1 else 0))))
  | .int n => some (.plain (.real (.ofInt n)))
  | .float x => some (.plain (.ofBinary x))
  | .fraction q => some (.plain (.real (.ofRat q)))
  | .decimal d => some (.decimal d)
  | .complex re im => some (.complex (.ofBinary re) (.ofBinary im))
  | _ => none

/-- The characters of a value that is a string. -/
def string? : Value → Option String
  | .str s => some s
  | .kind k => some k.name
  | _ => none

def sameRange (a b c a' b' c' : Int) : Bool :=
  let n := rangeLength a b c
  n == rangeLength a' b' c' && (n == 0 || (a == a' && (n == 1 || c == c')))

mutual

/-- Whether two keys are one key. Values that cannot be keys are never the same. -/
def same : Value → Value → Bool
  | .null, .null => true
  | .ellipsis, .ellipsis => true
  | .str s, w => w.string? == some s
  | .kind k, w => w.string? == some k.name
  | .bytes false a, .bytes false b => a == b
  | .date a, .date b => a == b
  | .moment a, .moment b => a.compare? b == some .eq
  | .callable a, .callable b => a == b
  | .range a b c, .range a' b' c' => sameRange a b c a' b' c'
  | .seq .tuple xs, .seq .tuple ys => sameList xs ys
  | .set true xs, .set true ys => xs.length == ys.length && sameMembers xs ys
  | v, w =>
    match v.amount?, w.amount? with
    | some a, some b => a.equal? b == some true
    | _, _ => false
termination_by structural v => v

def sameList : List Value → List Value → Bool
  | [], [] => true
  | x :: xs, y :: ys => same x y && sameList xs ys
  | _, _ => false
termination_by structural xs => xs

/-- Whether every member of the first list is one of the second. -/
def sameMembers : List Value → List Value → Bool
  | [], _ => true
  | x :: xs, ys => ys.any (same x) && sameMembers xs ys
termination_by structural xs => xs

end

/-- Whether a value can be a key. -/
def isHashable : Value → Bool
  | .bytes mutable _ => !mutable
  | .seq form _ => form == .tuple
  | .set frozen _ => frozen
  | .map _ _ => false
  | _ => true

/-- Whether a value is equal to itself, which only a number may not be; a value that holds such a number
is. -/
def equalsItself? (v : Value) : Option Bool :=
  match v.amount? with
  | some a => a.equal? a
  | none => some true

end Value

namespace KeyTable

variable {α : Type}

def get? (t : KeyTable α) (key : Value) : Option α :=
  (t.find? fun e => key.same e.1).map (·.2)

def has (t : KeyTable α) (key : Value) : Bool :=
  t.any fun e => key.same e.1

/-- Replaces the entry of a key that is there, which keeps its place; a new key goes to the end. -/
def put (t : KeyTable α) (key : Value) (a : α) : KeyTable α :=
  match t with
  | [] => [(key, a)]
  | e :: rest => if key.same e.1 then (e.1, a) :: rest else e :: put rest key a

def ofList (pairs : List (Value × α)) : KeyTable α :=
  pairs.foldl (fun t p => put t p.1 p.2) []

def erase (t : KeyTable α) (key : Value) : KeyTable α :=
  t.filter fun e => !key.same e.1

end KeyTable

namespace Value

def members (xs : List Value) : List Value :=
  xs.foldl (fun ms x => if ms.any x.same then ms else ms ++ [x]) []

/-- Runs comparisons from the left until one is not met. -/
def andThen (a : Option Bool) (b : Unit → Option Bool) : Option Bool :=
  match a with
  | some true => b ()
  | other => other

mutual

/-- Whether two values are equal; no answer if that takes comparing a signaling number. -/
def equal? : Value → Value → Option Bool
  | .null, .null => some true
  | .ellipsis, .ellipsis => some true
  | .str s, w => some (w.string? == some s)
  | .kind k, w => some (w.string? == some k.name)
  | .bytes _ a, .bytes _ b => some (a == b)
  | .date a, .date b => some (a == b)
  | .moment a, .moment b => some (a.compare? b == some .eq)
  | .callable a, .callable b => some (a == b)
  | .range a b c, .range a' b' c' => some (sameRange a b c a' b' c')
  | .seq .tuple xs, .seq .tuple ys => equalList? xs ys
  | .seq .list xs, .seq .list ys =>
    if xs.length = ys.length then equalList? xs ys else some false
  | .seq .deque xs, .seq .deque ys =>
    if xs.length = ys.length then equalList? xs ys else some false
  | .set _ xs, .set _ ys => some (xs.length == ys.length && sameMembers xs ys)
  | .map form es, .map form' fs =>
    if es.length = fs.length then
      andThen (equalEntries? es fs) fun _ =>
        if form = .ordered && form' = .ordered then
          some (sameList (es.map (·.1)) (fs.map (·.1)))
        else some true
    else some false
  | v, w =>
    match v.amount?, w.amount? with
    | some a, some b => a.equal? b
    | _, _ => some false
termination_by structural v => v

def equalList? : List Value → List Value → Option Bool
  | [], [] => some true
  | x :: xs, y :: ys => andThen (equal? x y) fun _ => equalList? xs ys
  | _, _ => some false
termination_by structural xs => xs

/-- Whether every entry of the first list has an equal value at its key in the second. -/
def equalEntries? : List (Value × Value) → Entries → Option Bool
  | [], _ => some true
  | (k, v) :: es, fs =>
    match fs.get? k with
    | some w => andThen (equal? v w) fun _ => equalEntries? es fs
    | none => some false
termination_by structural es => es

end

end Value

end Conform
