import Conform.Number.Misread
import Conform.Text.Base64
import Conform.Value.Equality
import Conform.Yaml.Node

/-! The data of a node tree. Each tag has its reading of a scalar's text; sequences and mappings hold the
data of their parts. A mapping takes in the pairs of the mappings that its merge keys name, in front of its
own, so that its own ones win. -/

namespace Conform.Yaml

open Number Calendar

/-- Why a node has no data. Reading may be without end where a collection holds itself, or there may be no tree
of what is read. -/
inductive Misfit where
  | unfit
  | number (m : Misread)
  | calendar (m : Misdate)
  | noTruth
  | noDigits
  | noTimestamp
  | noText
  | oversized
  | endless
  | circular
  deriving DecidableEq, Repr

/-! Scalars. -/

def parts (cs : List Char) : List (List Char) := Text.splitAt ':' cs

def isNegative : List Char → Bool
  | '-' :: _ => true
  | _ => false

def readDigits (base : Nat) (cs : List Char) : Except Misfit Int :=
  (readInteger base cs).mapError .number

/-- Underscores do not count. A leading zero announces base eight, colons base sixty. -/
def readInt (cs : List Char) : Except Misfit Int := do
  let cs := cs.filter (· ≠ '_')
  let body := Tag.dropSign cs
  let n : Int ←
    match body with
    | [] => .error .noDigits
    | ['0'] => .ok 0
    | '0' :: 'b' :: ds => readDigits 2 ds
    | '0' :: 'x' :: ds => readDigits 16 ds
    | '0' :: _ => readDigits 8 body
    | _ =>
      if body.contains ':' then do
        let ds ← (parts body).mapM (readDigits 10)
        pure (ds.foldl (fun n d => n * 60 + d) 0)
      else readDigits 10 body
  return if isNegative cs then -n else n

/-- The sum of digits in base sixty, the last digit first. A power of sixty may be too large to be a
number of this kind. -/
def sumSixtieths : Nat → Binary64 → List Binary64 → Except Misfit Binary64
  | _, sum, [] => .ok sum
  | base, sum, d :: ds =>
    match Binary64.ofInt base with
    | .infinite _ => .error .oversized
    | b => sumSixtieths (base * 60) (sum.add (d.mul b)) ds

def readReal (cs : List Char) : Except Misfit Binary64 :=
  (readFloat cs).mapError .number

/-- The text of a fraction without what does not count. -/
def plainDigits (cs : List Char) : List Char := Text.lower (cs.filter (· ≠ '_'))

def isNanWord (cs : List Char) : Bool := Tag.dropSign (plainDigits cs) == ".nan".toList

def readFraction (cs : List Char) : Except Misfit Binary64 := do
  let cs := plainDigits cs
  if cs.isEmpty then throw .noDigits
  else
    let body := Tag.dropSign cs
    let x : Binary64 ←
      if body = ".inf".toList then pure (.infinite false)
      else if isNanWord cs then pure .nan
      else if body.contains ':' then do
        let ds ← (parts body).mapM readReal
        sumSixtieths 1 (.zero false) ds.reverse
      else readReal body
    return if isNegative cs then x.neg else x

def readBool (cs : List Char) : Except Misfit Bool :=
  let word := Text.lower cs
  if ["yes", "true", "on"].any (·.toList == word) then .ok true
  else if ["no", "false", "off"].any (·.toList == word) then .ok false
  else .error .noTruth

def readBytes (cs : List Char) : Except Misfit (List UInt8) :=
  if cs.all (·.toNat < 0x80) then
    match Text.decodeBase64 cs with
    | some bs => .ok bs
    | none => .error .unfit
  else .error .unfit

def readTimestamp (cs : List Char) : Except Misfit Value :=
  match Timestamp.ofText? (if cs.getLast? = some '\n' then cs.dropLast else cs) with
  | some t => t.value.mapError .calendar
  | none => .error .noTimestamp

def Tag.isCollection : Tag → Bool
  | .seq => true
  | .map => true
  | .set => true
  | .omap => true
  | .pairs => true
  | _ => false

def readText (cs : List Char) : Tag → Except Misfit Value
  | .null => .ok .null
  | .bool => (readBool cs).map .bool
  | .int => (readInt cs).map .int
  | .float => (readFraction cs).map .float
  | .binary => (readBytes cs).map (.bytes false)
  | .timestamp => readTimestamp cs
  | .str => .ok (.str (String.ofList cs))
  | _ => .error .unfit

/-! Merges. -/

/-- The pairs of a mapping with those that its merge keys bring in, and the numbers of the mappings whose
merge keys were looked at for it. -/
structure Merged where
  pairs : List (Node × Node)
  mappings : List Nat

namespace Merged

def none : Merged := ⟨[], []⟩

def join (a b : Except Misfit Merged) : Except Misfit Merged := do
  let m ← a
  let n ← b
  return ⟨m.pairs ++ n.pairs, m.mappings ++ n.mappings⟩

/-- A mapping with its own pairs behind those that are brought in. -/
def withOwn (m : Merged) (pairs : List (Node × Node)) (site : Site) : Merged :=
  ⟨m.pairs ++ pairs.filter (·.1.tag ≠ .merge), site.number :: m.mappings⟩

end Merged

section

variable (tied : Node → Except Misfit Merged)

mutual

/-- The pairs of a mapping, given what stubs bring in. -/
def Node.merged : Node → Except Misfit Merged
  | .mapping _ pairs s => do return (← broughtIn pairs).withOwn pairs s
  | .knot anchor .mapping tag s => tied (.knot anchor .mapping tag s)
  | _ => .error .unfit
termination_by structural n => n

/-- What the merge keys among some pairs bring in: the pairs of a mapping, or those of the mappings of a
sequence, the last one first. -/
def broughtIn : List (Node × Node) → Except Misfit Merged
  | [] => .ok .none
  | (k, .sequence _ items _) :: ps =>
    if k.tag = .merge then Merged.join (broughtByItems items) (broughtIn ps) else broughtIn ps
  | (k, .knot anchor shape tag s) :: ps =>
    if k.tag = .merge then Merged.join (tied (.knot anchor shape tag s)) (broughtIn ps) else broughtIn ps
  | (k, n) :: ps =>
    if k.tag = .merge then Merged.join n.merged (broughtIn ps) else broughtIn ps
termination_by structural ps => ps

def broughtByItems : List Node → Except Misfit Merged
  | [] => .ok .none
  | n :: ns => Merged.join (broughtByItems ns) n.merged
termination_by structural ns => ns

end

end

namespace Node

/-- The pairs of a mapping without its merge keys. -/
def own : Node → Except Misfit Merged
  | .mapping _ pairs _ => .ok ⟨pairs.filter (·.1.tag ≠ .merge), []⟩
  | _ => .error .unfit

/-- What a stub brings in: the pairs of the mapping around it, or of the mappings in the sequence around it,
without what their own merge keys name. -/
def tiedIn (root stub : Node) : Except Misfit Merged :=
  match root.untied stub with
  | .sequence _ items _ => do
    let ms ← items.reverse.mapM fun n => (root.untied n).own
    return ⟨ms.flatMap (·.pairs), []⟩
  | n => n.own

end Node

/-! Trees. -/

/-- The texts of the mappings that are read as scalars, by their numbers. -/
abbrev Texts := List (Nat × List Char)

/-- The tag of a key `=` that has been taken in as text. -/
def Tag.settled : Tag → Tag
  | .value => .str
  | t => t

def Node.text? (texts : Texts) : Node → Option (List Char)
  | .scalar _ cs _ => some cs
  | .mapping _ _ s => texts.lookup s.number
  | _ => none

/-- A pair with the identity of its key. What is no number is the same key as itself only, and all nodes
with the word for it have one. -/
structure Pair where
  identity : Option Nat
  key : Value
  value : Value

namespace Pair

def sameKey (p q : Pair) : Bool :=
  p.key.same q.key || (!p.key.same p.key && p.identity == q.identity)

/-- Puts a pair in the place of that with the same key, which stays. -/
def put (ps : List Pair) (p : Pair) : List Pair :=
  match ps with
  | [] => [p]
  | q :: rest => if p.sameKey q then { q with value := p.value } :: rest else q :: put rest p

def entries (ps : List Pair) : Entries :=
  (ps.foldl put []).map fun p => (p.key, p.value)

end Pair

/-- The identity of a node as a key. -/
def Node.identity (texts : Texts) (n : Node) : Option Nat :=
  if n.tag = .float && (n.text? texts).any isNanWord then none else some n.number

namespace Node

variable (texts : Texts) (read : Node → Except Misfit Value)

/-- The pairs of a mapping, given how nodes are read. What is read through a stub may hold itself. -/
def pairs (n : Node) : Except Misfit (List Pair) := do
  (← n.merged fun _ => .error .circular).pairs.mapM fun p => do
    return ⟨p.1.identity texts, ← read p.1, ← read p.2⟩

/-- The data of a mapping with one pair. -/
def single (n : Node) : Except Misfit Value := do
  match ← n.pairs texts read with
  | [p] => return .seq .tuple [p.key, p.value]
  | _ => throw .unfit

def entries (n : Node) : Except Misfit Entries := (n.pairs texts read).map Pair.entries

/-- The data of a node whose depth is below a bound. -/
def dataWithin : Nat → Node → Except Misfit Value
  | 0, _ => .error .unfit
  | depth + 1, n =>
    let read := dataWithin depth
    match n.tag, n with
    | .seq, .sequence _ items _ => (items.mapM read).map .list
    | .omap, .sequence _ items _ => (items.mapM (single texts read)).map .list
    | .pairs, .sequence _ items _ => (items.mapM (single texts read)).map .list
    | .map, .mapping _ _ _ => (n.entries texts read).map .dict
    | .set, .mapping _ _ _ => (n.entries texts read).map fun es => .set false (es.map (·.1))
    | _, .knot _ _ _ _ => .error .circular
    | tag, _ =>
      match n.text? texts with
      | some cs => readText cs tag.settled
      | none => .error .unfit

def data (n : Node) : Except Misfit Value := n.dataWithin texts (n.number + 1)

end Node

end Conform.Yaml
