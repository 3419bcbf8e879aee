import Conform.Yaml.Property
import Conform.Yaml.Scalar

/-! The tokens of a text. Block structure comes from indentation: a deeper column opens a block, a lesser
one closes it. A key needs no mark of its own, so a token that can begin a key is remembered, one for each
level of flow brackets; a colon on the same line, at most 1024 characters on, then puts the mark of a key
in front of that token. A token that can begin a block mapping must be followed by such a colon.

Where the text is flawed, the tokens end before the flaw; a token that could still have become a key when
the flaw was met is not among them. -/

namespace Conform.Yaml

/-- A token that may turn out to begin a key: its number, where it stands, and whether it must. -/
structure KeyStart where
  number : Nat
  required : Bool
  index : Nat
  mark : Mark
  deriving DecidableEq, Repr

/-- `tokens` holds the newest first. -/
structure Tokenizer where
  cursor : Cursor
  flow : Int
  indent : Int
  indents : List Int
  keyAllowed : Bool
  keys : List (Int × KeyStart)
  tokens : List Token
  count : Nat

namespace Tokenizer

def ofText (cs : List Char) : Tokenizer :=
  ⟨Cursor.ofText cs, 0, -1, [], true, [], [], 0⟩

def inFlow (t : Tokenizer) : Bool := t.flow ≠ 0

def push (t : Tokenizer) (l : Lexeme) (start : Mark) : Tokenizer :=
  { t with tokens := ⟨l, start, t.cursor.mark⟩ :: t.tokens, count := t.count + 1 }

def pushHere (t : Tokenizer) (l : Lexeme) : Tokenizer := t.push l t.cursor.mark

/-- Puts a token of no extent in front of the token of a number. -/
def insert (t : Tokenizer) (number : Nat) (l : Lexeme) (mark : Mark) : Tokenizer :=
  let k := t.count - number
  { t with
    tokens := t.tokens.take k ++ ⟨l, mark, mark⟩ :: t.tokens.drop k
    count := t.count + 1 }

/-- Takes some characters as a token. -/
def take (t : Tokenizer) (n : Nat) (l : Lexeme) : Tokenizer :=
  ({ t with cursor := t.cursor.forward n } : Tokenizer).push l t.cursor.mark

def isStale (t : Tokenizer) (k : KeyStart) : Bool :=
  k.mark.line ≠ t.cursor.line || k.index + 1024 < t.cursor.index

/-- Forgets the key starts that are too far back. -/
def dropStale (t : Tokenizer) : Scan Tokenizer :=
  if t.keys.any fun e => t.isStale e.2 && e.2.required then failed
  else .ok { t with keys := t.keys.filter fun e => !t.isStale e.2 }

/-- Forgets the key start of the current flow level. -/
def dropKey (t : Tokenizer) : Scan Tokenizer :=
  match t.keys.lookup t.flow with
  | some k =>
    if k.required then failed else .ok { t with keys := t.keys.filter fun e => e.1 ≠ t.flow }
  | none => .ok t

/-- Remembers that the next token may begin a key. -/
def saveKey (t : Tokenizer) : Scan Tokenizer :=
  if t.keyAllowed then do
    let required := !t.inFlow && t.indent = t.cursor.column
    let t ← t.dropKey
    return { t with keys := (t.flow, ⟨t.count, required, t.cursor.index, t.cursor.mark⟩) :: t.keys }
  else .ok t

/-- Closes the blocks that are indented more than a column. -/
def closeBlocks (column : Int) : List Int → Tokenizer → Tokenizer
  | [], t => t
  | i :: is, t =>
    if column < t.indent then
      closeBlocks column is (({ t with indent := i, indents := is } : Tokenizer).pushHere .blockEnd)
    else t

def unwind (column : Int) (t : Tokenizer) : Tokenizer :=
  if t.inFlow then t else closeBlocks column t.indents t

/-- Opens a block at a column, if it is deeper than the current one. -/
def indentTo (column : Nat) (t : Tokenizer) : Option Tokenizer :=
  if t.indent < column then some { t with indents := t.indent :: t.indents, indent := column } else none

def allowKey (b : Bool) (t : Tokenizer) : Tokenizer := { t with keyAllowed := b }

/-- Passes over spaces, comments and line breaks; after a break outside brackets a key may begin. -/
def skipGaps : Nat → Tokenizer → Tokenizer
  | 0, t => t
  | n + 1, t =>
    let c := t.cursor.skipSpaces.skipComment
    if isBreak c.peek then
      let t := { t with cursor := c.lineBreak.2, keyAllowed := if t.inFlow then t.keyAllowed else true }
      skipGaps n t
    else { t with cursor := c }

def skipToToken (t : Tokenizer) : Tokenizer :=
  let c := t.cursor
  let c := if c.index = 0 && c.peek = '\uFEFF' then c.step else c
  skipGaps (c.rest.length + 1) { t with cursor := c }

def takeStreamEnd (t : Tokenizer) : Scan Tokenizer := do
  let t ← (t.unwind (-1)).dropKey
  return ({ t with keys := [], keyAllowed := false } : Tokenizer).pushHere .streamEnd

def takeDirective (t : Tokenizer) : Scan Tokenizer := do
  let t ← (t.unwind (-1)).dropKey
  let (d, c) ← directive t.cursor
  return ({ t with cursor := c, keyAllowed := false } : Tokenizer).push (.directive d) t.cursor.mark

def takeMarker (l : Lexeme) (t : Tokenizer) : Scan Tokenizer := do
  let t ← (t.unwind (-1)).dropKey
  return (t.allowKey false).take 3 l

def takeOpening (l : Lexeme) (t : Tokenizer) : Scan Tokenizer := do
  let t ← t.saveKey
  return ({ t with flow := t.flow + 1, keyAllowed := true } : Tokenizer).take 1 l

def takeClosing (l : Lexeme) (t : Tokenizer) : Scan Tokenizer := do
  let t ← t.dropKey
  return ({ t with flow := t.flow - 1, keyAllowed := false } : Tokenizer).take 1 l

def takeFlowEntry (t : Tokenizer) : Scan Tokenizer := do
  let t ← (t.allowKey true).dropKey
  return t.take 1 .flowEntry

/-- Opens a block here, if one is needed, outside brackets, where a key may begin. -/
def openBlock (l : Lexeme) (t : Tokenizer) : Scan Tokenizer :=
  if t.inFlow then .ok t
  else if t.keyAllowed then
    match t.indentTo t.cursor.column with
    | some t => .ok (t.pushHere l)
    | none => .ok t
  else failed

def takeBlockEntry (t : Tokenizer) : Scan Tokenizer := do
  let t ← t.openBlock .blockSequence
  let t ← (t.allowKey true).dropKey
  return t.take 1 .blockEntry

def takeKey (t : Tokenizer) : Scan Tokenizer := do
  let t ← t.openBlock .blockMapping
  let t ← (t.allowKey !t.inFlow).dropKey
  return t.take 1 .key

def takeValue (t : Tokenizer) : Scan Tokenizer := do
  match t.keys.lookup t.flow with
  | some k =>
    let t := { t with keys := t.keys.filter fun e => e.1 ≠ t.flow }
    let t := t.insert k.number .key k.mark
    let t :=
      if t.inFlow then t
      else match t.indentTo k.mark.column with
        | some t => t.insert k.number .blockMapping k.mark
        | none => t
    return (t.allowKey false).take 1 .value
  | none =>
    let t ← t.openBlock .blockMapping
    let t ← (t.allowKey !t.inFlow).dropKey
    return t.take 1 .value

def takeName (make : List Char → Lexeme) (t : Tokenizer) : Scan Tokenizer := do
  let t ← t.saveKey
  let (cs, c) ← anchorName t.cursor
  return ({ t with cursor := c, keyAllowed := false } : Tokenizer).push (make cs) t.cursor.mark

def takeTag (t : Tokenizer) : Scan Tokenizer := do
  let t ← t.saveKey
  let (handle, suffix, c) ← tag t.cursor
  return ({ t with cursor := c, keyAllowed := false } : Tokenizer).push (.tag handle suffix) t.cursor.mark

def takeBlockScalar (folded : Bool) (t : Tokenizer) : Scan Tokenizer := do
  let t ← (t.allowKey true).dropKey
  let (cs, c) ← blockScalar folded t.indent t.cursor
  return ({ t with cursor := c } : Tokenizer).push (.scalar cs false) t.cursor.mark

def takeQuoted (double : Bool) (t : Tokenizer) : Scan Tokenizer := do
  let t ← t.saveKey
  let (cs, c) ← quotedScalar double t.cursor
  return ({ t with cursor := c, keyAllowed := false } : Tokenizer).push (.scalar cs false) t.cursor.mark

def takePlain (t : Tokenizer) : Scan Tokenizer := do
  let t ← t.saveKey
  let (cs, fresh, c) := plainScalar t.inFlow t.indent t.cursor
  return ({ t with cursor := c, keyAllowed := fresh } : Tokenizer).push (.scalar cs true) t.cursor.mark

def isIndicator (c : Char) : Bool :=
  isGapOrEnd c || isFlowMark c || "-?:#&*!|>%@".toList.contains c || c = '\x27' || c = '\x22' ||
    c = '\x60'

def startsPlain (t : Tokenizer) : Bool :=
  let x := t.cursor.peek
  !isIndicator x ||
    (!isGapOrEnd (t.cursor.peekAt 1) && (x = '-' || (!t.inFlow && (x = '?' || x = ':'))))

/-- Takes the token at the cursor. -/
def takeToken (t : Tokenizer) : Scan Tokenizer :=
  let c := t.cursor
  let x := c.peek
  let gap := isGapOrEnd (c.peekAt 1)
  if x = finis then t.takeStreamEnd
  else if x = '%' && c.column = 0 then t.takeDirective
  else if c.column = 0 && c.atMarker '-' then t.takeMarker .documentStart
  else if c.column = 0 && c.atMarker '.' then t.takeMarker .documentEnd
  else if x = '[' then t.takeOpening .sequenceStart
  else if x = '\x7b' then t.takeOpening .mappingStart
  else if x = ']' then t.takeClosing .sequenceEnd
  else if x = '\x7d' then t.takeClosing .mappingEnd
  else if x = ',' then t.takeFlowEntry
  else if x = '-' && gap then t.takeBlockEntry
  else if x = '?' && (t.inFlow || gap) then t.takeKey
  else if x = ':' && (t.inFlow || gap) then t.takeValue
  else if x = '*' then t.takeName .alias
  else if x = '&' then t.takeName .anchor
  else if x = '!' then t.takeTag
  else if x = '|' && !t.inFlow then t.takeBlockScalar false
  else if x = '>' && !t.inFlow then t.takeBlockScalar true
  else if x = '\x27' then t.takeQuoted false
  else if x = '\x22' then t.takeQuoted true
  else if t.startsPlain then t.takePlain
  else failed

def advance (t : Tokenizer) : Scan Tokenizer := do
  let t ← t.skipToToken.dropStale
  (t.unwind t.cursor.column).takeToken

/-- The tokens that are certain: those before the first one that may still become a key. -/
def certain (t : Tokenizer) : List Token :=
  let bound := t.keys.foldl (fun n e => min n e.2.number) t.count
  t.tokens.reverse.take bound

def isDone (t : Tokenizer) : Bool :=
  match t.tokens with
  | k :: _ => k.lexeme = .streamEnd
  | [] => false

/-- Takes tokens up to the end of the text or to a flaw. -/
def run : Nat → Tokenizer → List Token × Option Flaw
  | 0, t => (t.tokens.reverse, none)
  | n + 1, t =>
    if t.isDone then (t.tokens.reverse, none)
    else
      match t.dropStale with
      | .error e => (t.certain, some e)
      | .ok t =>
        match t.advance with
        | .error e => (t.certain, some e)
        | .ok t => run n t

end Tokenizer

/-- The tokens of a text, and the flaw after them if there is one. -/
def tokens (cs : List Char) : List Token × Option Flaw :=
  if cs.all isAllowed then (Tokenizer.ofText cs).run (cs.length + 2) else ([], some .illFormed)

end Conform.Yaml
