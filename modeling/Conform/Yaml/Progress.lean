import Conform.Yaml.Data

/-! How the data of a tree is built. A collection is begun when a collection around it is filled, and filled
in the next round. So a fault in an outer collection is met before one that is deeper inside, and of several
faults in one round the first in the text is met. A collection is no key of a mapping, whatever it holds.

A node that aliases repeat is built once, and for a stub the collection around it, which has been begun. What
happens to a node shows wherever it is repeated: a key `=` becomes text when a mapping takes it in, and a
mapping whose merge keys have been looked at has none any more. -/

namespace Conform.Yaml

/-- How far a tree is built. Nodes are told apart by their numbers. -/
structure Progress where
  /-- The collections that are begun and not filled, the last one first. -/
  waiting : List Node := []
  begun : List Nat := []
  /-- The mappings whose merge keys have been looked at. -/
  merged : List Nat := []
  /-- The keys that have been taken in as text. -/
  words : List Nat := []
  texts : Texts := []

namespace Progress

def tagOf (p : Progress) (n : Node) : Tag :=
  if p.words.contains n.number then n.tag.settled else n.tag

section

variable (p : Progress) (tied : Node → Except Misfit (Option (List Char)))

mutual

/-- The text of a scalar; a mapping has that of the value at its key `=`. -/
def textOf : Node → Except Misfit (Option (List Char))
  | .scalar _ cs _ => .ok (some cs)
  | .sequence _ _ _ => .ok none
  | .mapping _ pairs _ => valueText pairs
  | .knot anchor shape tag s => tied (.knot anchor shape tag s)
termination_by structural n => n

def valueText : List (Node × Node) → Except Misfit (Option (List Char))
  | [] => .ok none
  | (k, n) :: ps => if p.tagOf k = .value then textOf n else valueText ps
termination_by structural ps => ps

end

/-- The text behind a stub. After so many stubs it is the same one again. -/
def textBehind (root : Node) : Nat → Node → Except Misfit (Option (List Char))
  | 0, _ => .error .endless
  | stubs + 1, n => p.textOf (textBehind root stubs) (root.untied n)

end

def take (p : Progress) (m : Merged) : Progress :=
  { p with
    merged := m.mappings ++ p.merged
    words := (m.pairs.filter (·.1.tag = .value)).map (·.1.number) ++ p.words }

end Progress

abbrev Build (α : Type) := StateT Progress (Except Misfit) α

namespace Build

def unfit {α : Type} : Build α := throw .unfit

section

variable (root : Node)

/-- Reads a node with the tag of a scalar. A mapping keeps the text that it has when it is read. -/
def read (n : Node) : Build Unit := do
  let p ← get
  if (p.texts.lookup n.number).isSome then return
  match ← p.textOf (p.textBehind root (root.number + 1)) n, n with
  | none, _ => unfit
  | some cs, .mapping _ _ _ =>
    if n.tag = .timestamp then throw .noText
    let _ ← readText cs (p.tagOf n)
    set { p with texts := (n.number, cs) :: p.texts }
  | some cs, _ =>
    let _ ← readText cs (p.tagOf n)

/-- Begins a collection; says whether it had not been begun. -/
def start (n : Node) : Build Bool := do
  let p ← get
  if p.begun.contains n.number then return false
  else
    set { p with begun := n.number :: p.begun }
    return true

/-- Builds a node as far as it is built in the round of its parent. -/
def begin (n : Node) : Build Unit := do
  let n := root.untied n
  if n.tag.isCollection then
    if ← start n then modify fun p => { p with waiting := n :: p.waiting }
  else read root n

/-- Builds a key; a collection is none. -/
def asKey (n : Node) : Build Unit := do
  begin root n
  if n.tag.isCollection then unfit

/-- The pairs of a mapping as they are by now. -/
def pairs (n : Node) : Build (List (Node × Node)) := do
  match n with
  | .mapping _ pairs s =>
    if (← get).merged.contains s.number then return (← n.merged root.tiedIn).pairs else return pairs
  | _ => unfit

/-- Builds the parts of a mapping with one pair. -/
def single (n : Node) : Build Unit := do
  match ← pairs root (root.untied n) with
  | [(k, v)] =>
    begin root k
    begin root v
  | _ => unfit

/-- Builds the keys and the other parts of a mapping, after its merge keys have been looked at. -/
def entries (n : Node) : Build Unit := do
  let m ← n.merged root.tiedIn
  modify fun p => p.take m
  m.pairs.forM fun (k, v) => do
    asKey root k
    begin root v

/-- Fills a collection. -/
def fill (n : Node) : Build Unit := do
  match n.tag, n with
  | .seq, .sequence _ items _ => items.forM (begin root)
  | .omap, .sequence _ items _ => items.forM (single root)
  | .pairs, .sequence _ items _ => items.forM (single root)
  | .map, .mapping _ _ _ => entries root n
  | .set, .mapping _ _ _ => entries root n
  | _, _ => unfit

/-- Fills what is begun, in at most so many rounds. -/
def finish : Nat → Build Unit
  | 0 => unfit
  | rounds + 1 => do
    let p ← get
    if p.waiting.isEmpty then return
    set { p with waiting := [] }
    p.waiting.reverse.forM (fill root)
    finish rounds

end

end Build

/-- The data of a document. A text without a document has none. The places of a tree that is endless are
looked for without end. -/
def dataOf (root : Option Node) : Except Misfit Value := do
  match root with
  | none => return .null
  | some n =>
    let build : Build Unit := do
      Build.begin n n
      Build.finish n (n.number + 2)
    let (_, p) ← build.run {}
    if n.isEndless then throw .endless
    n.data p.texts

end Conform.Yaml
