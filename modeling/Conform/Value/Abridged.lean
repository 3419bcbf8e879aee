import Conform.Value.Order
import Conform.Value.Printer

/-! Values shown in messages. The literal of a value is abridged where it grows: containers show their
first elements only and nest to a limited depth, long integers lose their middle, and long strings and
long literals of other types are cut in the middle to the caller's limit. Members and keys are shown in
their order. A string is cut before it is quoted, so that its two ends are quoted as one string. At last
the whole text is cut to the limit.

A value is not shown at all if an integer that would be has too many digits. Values of the other types do
not fail then, but give their type and where they are stored. -/

namespace Conform

/-- How much of a value is shown. -/
structure Limits where
  depth : Nat
  elements : Nat
  entries : Nat
  digits : Nat
  width : Nat

def Limits.ofWidth (width : Nat) : Limits := ⟨6, 6, 4, 40, width⟩

def dots : List Char := ['.', '.', '.']

/-- The part from the place that lies `k` before the end. A place before the front counts from the end
again. -/
def fromEnd (k : Nat) (cs : List Char) : List Char :=
  if k ≤ cs.length then cs.drop (cs.length - k) else cs.drop (2 * cs.length - k)

def headLength (width : Nat) : Nat := (width - 3) / 2

def tailLength (width : Nat) : Nat := width - 3 - headLength width

def joinEnds (width : Nat) (cs : List Char) : List Char :=
  cs.take (headLength width) ++ dots ++ fromEnd (tailLength width) cs

def cutMiddle (width : Nat) (cs : List Char) : List Char :=
  if width < cs.length then joinEnds width cs else cs

def abridgedString (width : Nat) (cs : List Char) : List Char :=
  if width < (Text.quote (cs.take width)).length then
    joinEnds width (Text.quote (cs.take (headLength width) ++ fromEnd (tailLength width) cs))
  else Text.quote (cs.take width)

namespace Value

/-- The shown elements of a container between its brackets, if they can be shown; `total` is the number of
all. No element is looked at where the container is too deep. -/
def abridgedList (shown total depth : Nat) (left right : String) (mark : List Char)
    (parts : Option (List (List Char))) : Option (List Char) :=
  if depth = 0 && total ≠ 0 then some (enclose left [dots] right)
  else parts.map fun parts =>
    if shown < total then enclose left (parts.take shown ++ [dots]) right
    else left.toList ++ (parts.intersperse [',', ' ']).flatten ++ (if total = 1 then mark else []) ++
      right.toList

def seqBrackets : SeqForm → String × String × List Char
  | .list => ("[", "]", [])
  | .tuple => ("(", ")", [','])
  | .deque => ("deque([", "])", [])

def setBrackets : Bool → String × String
  | false => ("\x7b", "\x7d")
  | true => ("frozenset(\x7b", "\x7d)")

def abridgedEntry (key value : Option (List Char)) : Option (List Char) := do
  return (← key) ++ ':' :: ' ' :: (← value)

def abridgedMap (l : Limits) (depth : Nat)
    (es : List (Value × Option (List Char) × Option (List Char))) : Option (List Char) :=
  if es.isEmpty then some (enclose "\x7b" [] "\x7d")
  else if depth = 0 then some (enclose "\x7b" [dots] "\x7d")
  else do
    let shown := (Value.inOrder (·.1) es).take l.entries
    let parts ← shown.mapM fun e => abridgedEntry e.2.1 e.2.2
    return enclose "\x7b" (parts ++ if l.entries < es.length then [dots] else []) "\x7d"

/-- What stands for a value that cannot be written. Where it is stored is left open. -/
def storedText (v : Value) : List Char :=
  '<' :: v.type.name.toList ++ " instance at 0x0>".toList

mutual

def abridge (l : Limits) : Nat → Value → Option (List Char)
  | _, .str s => some (abridgedString l.width s.toList)
  | _, .int n => if Number.isWritable n then some (cutMiddle l.digits (Number.intText n)) else none
  | d, .seq form xs =>
    let (left, right, mark) := seqBrackets form
    abridgedList l.elements xs.length d left right mark (abridgeList l (d - 1) l.elements xs)
  | d, .set frozen xs =>
    if xs.isEmpty then some (setLiteral frozen [])
    else
      let (left, right) := setBrackets frozen
      let shown := (Value.inOrder (·.1) (abridgeMembers l (d - 1) xs)).take l.elements
      abridgedList l.elements xs.length d left right [] (shown.mapM (·.2))
  | d, .map .dict es => abridgedMap l d (abridgeEntries l (d - 1) es)
  | _, v => some (if v.isWritable then cutMiddle l.width v.literal else v.storedText)
termination_by structural _ v => v

def abridgeList (l : Limits) : Nat → Nat → List Value → Option (List (List Char))
  | _, _, [] => some []
  | _, 0, _ => some []
  | d, n + 1, x :: xs => do
    let part ← abridge l d x
    return part :: (← abridgeList l d n xs)
termination_by structural _ _ xs => xs

def abridgeMembers (l : Limits) : Nat → List Value → List (Value × Option (List Char))
  | _, [] => []
  | d, x :: xs => (x, abridge l d x) :: abridgeMembers l d xs
termination_by structural _ xs => xs

def abridgeEntries (l : Limits) :
    Nat → List (Value × Value) → List (Value × Option (List Char) × Option (List Char))
  | _, [] => []
  | d, (k, v) :: es => (k, abridge l d k, abridge l d v) :: abridgeEntries l d es
termination_by structural _ es => es

end

end Value

/-- Shows a value in at most `limit` characters, if the limit has room for the dots. -/
def describe (v : Value) (limit : Int) : Option String := do
  let l := Limits.ofWidth (max limit 3).toNat
  let cs ← v.abridge l l.depth
  return if limit < cs.length then String.ofList (cs.take (limit - 3).toNat ++ dots) else String.ofList cs

end Conform
