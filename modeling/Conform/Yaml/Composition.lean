import Conform.Yaml.Node
import Conform.Yaml.Tokens

/-! The node tree of a sequence of tokens. Anchors and tags stand in front of a node; an alias stands for
the node with its anchor, and inside this node for its stub. Where content is left out, the empty plain scalar
takes its place. A text holds at most one document. -/

namespace Conform.Yaml

/-- What is left to read, with the flaw behind the last token, and how many nodes there are by now. The anchor
of a collection that is not complete has its stub. -/
structure Reading where
  tokens : List Token
  flaw : Flaw
  handles : List (List Char × List Char)
  anchors : List (List Char × Node)
  count : Nat

abbrev Compose (α : Type) := StateT Reading (Except Flaw) α

namespace Compose

def fail {α : Type} : Compose α := throw .illFormed

def peek : Compose Token := do
  let r ← get
  match r.tokens with
  | [] => throw r.flaw
  | t :: _ => return t

def next : Compose Token := do
  let t ← peek
  modify fun r => { r with tokens := r.tokens.tail }
  return t

/-- Whether the next token is one of some. -/
def sees (ls : List Lexeme) : Compose Bool := do
  return ls.contains (← peek).lexeme

def expect (l : Lexeme) : Compose Token := do
  if ← sees [l] then next else fail

end Compose

open Compose

structure Properties where
  anchor : Option (List Char)
  tag : Option (Option (List Char) × List Char)
  start : Option Mark

/-- Anchor and tag, in either order. -/
def properties : Compose Properties := do
  let t ← peek
  match t.lexeme with
  | .anchor name =>
    let _ ← next
    match (← peek).lexeme with
    | .tag handle suffix =>
      let _ ← next
      return ⟨some name, some (handle, suffix), some t.start⟩
    | _ => return ⟨some name, none, some t.start⟩
  | .tag handle suffix =>
    let _ ← next
    match (← peek).lexeme with
    | .anchor name =>
      let _ ← next
      return ⟨some name, some (handle, suffix), some t.start⟩
    | _ => return ⟨none, some (handle, suffix), some t.start⟩
  | _ => return ⟨none, none, none⟩

def fullTag (tag : Option (List Char) × List Char) : Compose (List Char) := do
  match tag with
  | (none, suffix) => return suffix
  | (some handle, suffix) =>
    match (← get).handles.lookup handle with
    | some start => return start ++ suffix
    | none => fail

/-- The tag of a scalar. The tag `!` is no tag, but lets any style of scalar take one from its text. -/
def scalarTag (tag : Option (List Char)) (plain : Bool) (text : List Char) : Tag :=
  match tag with
  | some t => if t = ['!'] then Tag.resolve text else Tag.ofText t
  | none => if plain then Tag.resolve text else .str

def collectionTag (tag : Option (List Char)) (default : Tag) : Tag :=
  match tag with
  | some t => if t = ['!'] then default else Tag.ofText t
  | none => default

/-- Makes a node with a number of its own. -/
def create (m : Mark) (f : Site → Node) : Compose Node := do
  let number := (← get).count
  modify fun r => { r with count := number + 1 }
  return f { mark := m, number := number }

def emptyScalar (m : Mark) : Compose Node := create m (.scalar (Tag.resolve []) [])

/-- No two nodes have one anchor. -/
def requireNew (anchor : Option (List Char)) : Compose Unit := do
  match anchor with
  | none => return
  | some a => if ((← get).anchors.lookup a).isSome then fail

/-- Puts the stub of a collection under its anchor, until it is complete. -/
def openAnchor (anchor : Option (List Char)) (shape : Shape) (tag : Tag) (m : Mark) : Compose Unit := do
  requireNew anchor
  match anchor with
  | none => return
  | some a =>
    let n ← create m (.knot a shape tag)
    modify fun r => { r with anchors := (a, n) :: r.anchors }

/-- Makes the node to which an anchor belongs. -/
def createAt (anchor : Option (List Char)) (m : Mark) (f : Site → Node) : Compose Node := do
  let n ← create m fun s => f { s with anchor := anchor }
  match anchor with
  | none => return n
  | some a =>
    modify fun r => { r with anchors := (a, n) :: r.anchors }
    return n

def aliased (name : List Char) : Compose Node := do
  match (← get).anchors.lookup name with
  | some n => return n
  | none => fail

/-- Where a node may stand. Only a block can hold block collections, and only as a value or key of a block
mapping a sequence may stand without indentation. -/
inductive Position where
  | flow
  | block
  | pair
  deriving DecidableEq, Repr

mutual

def node : Nat → Position → Compose Node
  | 0, _ => fail
  | n + 1, position => do
    match (← peek).lexeme with
    | .alias name =>
      let _ ← next
      aliased name
    | _ =>
      let p ← properties
      let tag ← p.tag.mapM fullTag
      let t ← peek
      let start := p.start.getD t.start
      match t.lexeme with
      | .scalar text plain =>
        let _ ← next
        requireNew p.anchor
        createAt p.anchor start (.scalar (scalarTag tag plain text) text)
      | .sequenceStart =>
        openAnchor p.anchor .sequence (collectionTag tag .seq) start
        let _ ← next
        createAt p.anchor start (.sequence (collectionTag tag .seq) (← flowItems n true))
      | .mappingStart =>
        openAnchor p.anchor .mapping (collectionTag tag .map) start
        let _ ← next
        createAt p.anchor start (.mapping (collectionTag tag .map) (← flowPairs n true))
      | l =>
        if l = .blockEntry && position = .pair then
          openAnchor p.anchor .sequence (collectionTag tag .seq) start
          createAt p.anchor start (.sequence (collectionTag tag .seq) (← bareItems n))
        else if l = .blockSequence && position ≠ .flow then
          openAnchor p.anchor .sequence (collectionTag tag .seq) start
          let _ ← next
          createAt p.anchor start (.sequence (collectionTag tag .seq) (← blockItems n))
        else if l = .blockMapping && position ≠ .flow then
          openAnchor p.anchor .mapping (collectionTag tag .map) start
          let _ ← next
          createAt p.anchor start (.mapping (collectionTag tag .map) (← blockPairs n))
        else if p.anchor.isSome || p.tag.isSome then
          requireNew p.anchor
          createAt p.anchor start (.scalar (scalarTag tag true []) [])
        else fail
termination_by structural n => n

/-- A node, or the empty scalar at a mark if one of some tokens comes instead. -/
def nodeUnless : Nat → Position → List Lexeme → Mark → Compose Node
  | 0, _, _, _ => fail
  | n + 1, position, ls, m => do
    if ← sees ls then emptyScalar m else node n position
termination_by structural n => n

def blockItems : Nat → Compose (List Node)
  | 0 => fail
  | n + 1 => do
    if ← sees [.blockEntry] then
      let t ← next
      let item ← nodeUnless n .block [.blockEntry, .blockEnd] t.stop
      return item :: (← blockItems n)
    else
      let _ ← expect .blockEnd
      return []
termination_by structural n => n

/-- The items of a sequence that is not indented, which has no token for its end. -/
def bareItems : Nat → Compose (List Node)
  | 0 => fail
  | n + 1 => do
    if ← sees [.blockEntry] then
      let t ← next
      let item ← nodeUnless n .block [.blockEntry, .key, .value, .blockEnd] t.stop
      return item :: (← bareItems n)
    else return []
termination_by structural n => n

def blockPairs : Nat → Compose (List (Node × Node))
  | 0 => fail
  | n + 1 => do
    if ← sees [.key] then
      let t ← next
      let k ← nodeUnless n .pair [.key, .value, .blockEnd] t.stop
      let v ← pairValue n .pair [.key, .value, .blockEnd]
      return (k, v) :: (← blockPairs n)
    else
      let _ ← expect .blockEnd
      return []
termination_by structural n => n

/-- The value after a key, or the empty scalar. -/
def pairValue : Nat → Position → List Lexeme → Compose Node
  | 0, _, _ => fail
  | n + 1, position, ls => do
    if ← sees [.value] then
      let t ← next
      nodeUnless n position ls t.stop
    else emptyScalar (← peek).start
termination_by structural n => n

def flowItems : Nat → Bool → Compose (List Node)
  | 0, _ => fail
  | n + 1, first => do
    if ← sees [.sequenceEnd] then
      let _ ← next
      return []
    else
      if !first then
        let _ ← expect .flowEntry
      if ← sees [.key] then
        let t ← next
        let k ← nodeUnless n .flow [.value, .flowEntry, .sequenceEnd] t.stop
        let v ← pairValue n .flow [.flowEntry, .sequenceEnd]
        let _ ← peek
        let item ← create t.start (.mapping .map [(k, v)])
        return item :: (← flowItems n false)
      else if ← sees [.sequenceEnd] then
        let _ ← next
        return []
      else
        let item ← node n .flow
        return item :: (← flowItems n false)
termination_by structural n => n

def flowPairs : Nat → Bool → Compose (List (Node × Node))
  | 0, _ => fail
  | n + 1, first => do
    if ← sees [.mappingEnd] then
      let _ ← next
      return []
    else
      if !first then
        let _ ← expect .flowEntry
      if ← sees [.key] then
        let t ← next
        let k ← nodeUnless n .flow [.value, .flowEntry, .mappingEnd] t.stop
        let v ← pairValue n .flow [.flowEntry, .mappingEnd]
        return (k, v) :: (← flowPairs n false)
      else if ← sees [.mappingEnd] then
        let _ ← next
        return []
      else
        let k ← node n .flow
        let v ← emptyScalar (← peek).start
        return (k, v) :: (← flowPairs n false)
termination_by structural n => n

end

def defaultHandles : List (List Char × List Char) :=
  [(['!'], ['!']), (['!', '!'], Tag.space)]

/-- The directives in front of a document: a version at most once, and handles with distinct names. -/
def directives : Nat → Bool → List (List Char × List Char) → Compose (List (List Char × List Char))
  | 0, _, _ => fail
  | n + 1, versioned, handles => do
    match (← peek).lexeme with
    | .directive d =>
      let _ ← next
      match d with
      | .version major _ => if versioned || major ≠ 1 then fail else directives n true handles
      | .handle name start =>
        if (handles.lookup name).isSome then fail
        else directives n versioned ((name, start) :: handles)
      | .other => directives n versioned handles
    | _ => return handles

def isDirective : Lexeme → Bool
  | .directive _ => true
  | _ => false

def skipDocumentEnds : Nat → Compose Unit
  | 0 => fail
  | n + 1 => do
    if ← sees [.documentEnd] then
      let _ ← next
      skipDocumentEnds n

/-- The start of a document with a marker; nothing at the end of the text. -/
def documentStart (size : Nat) : Compose Bool := do
  skipDocumentEnds size
  if ← sees [.streamEnd] then return false
  else
    let handles ← directives size false []
    let _ ← expect .documentStart
    modify fun r => { r with handles := handles ++ defaultHandles }
    return true

/-- The root of a document after its marker. -/
def markedRoot (size : Nat) : Compose Node := do
  let t ← peek
  if isDirective t.lexeme || [Lexeme.documentStart, .documentEnd, .streamEnd].contains t.lexeme then
    emptyScalar t.start
  else node size .block

/-- The root of the first document, if there is one. A document needs no marker unless it has directives. -/
def root? (size : Nat) : Compose (Option Node) := do
  let t ← peek
  if isDirective t.lexeme || [Lexeme.documentStart, .streamEnd].contains t.lexeme then
    if ← documentStart size then return some (← markedRoot size) else return none
  else return some (← node size .block)

/-- The one document of a text, if it has one. -/
def document (size : Nat) : Compose (Option Node) := do
  match ← root? size with
  | none => return none
  | some n => if ← documentStart size then fail else return some n

/-- Reads the node tree of a text. -/
def compose (cs : List Char) : Except Flaw (Option Node) :=
  let (ts, flaw) := tokens cs
  let size := 3 * ts.length + 3
  ((document size).run ⟨ts, flaw.getD .illFormed, defaultHandles, [], 0⟩).map (·.1)

end Conform.Yaml
