/-! Places in a text and moving over it. Lines end at a line feed, a carriage return, the pair of both,
a next-line character or one of the two Unicode separators. A byte order mark takes no column. -/

namespace Conform.Yaml

/-- Lines and columns count from 0. -/
structure Mark where
  line : Nat
  column : Nat
  deriving DecidableEq, Repr

/-- Why a text is no document. An escape may also name a character beyond all there are. -/
inductive Flaw where
  | illFormed
  | character (code : Nat)
  deriving DecidableEq, Repr

abbrev Scan (α : Type) := Except Flaw α

def failed {α : Type} : Scan α := .error .illFormed

def isBreak (c : Char) : Bool :=
  c = '\n' || c = '\r' || c = '\u0085' || c = '\u2028' || c = '\u2029'

/-- The character that stands for the end of the text, where it cannot occur. -/
def finis : Char := '\x00'

def isBreakOrEnd (c : Char) : Bool := c = finis || isBreak c

def isSpaceOrEnd (c : Char) : Bool := c = ' ' || isBreakOrEnd c

def isGapOrEnd (c : Char) : Bool := c = '\t' || isSpaceOrEnd c

def isWord (c : Char) : Bool :=
  ('0' ≤ c && c ≤ '9') || ('A' ≤ c && c ≤ 'Z') || ('a' ≤ c && c ≤ 'z') || c = '-' || c = '_'

/-- Whether a character may stand in a document at all. -/
def isAllowed (c : Char) : Bool :=
  let n := c.toNat
  n = 0x09 || n = 0x0A || n = 0x0D || (0x20 ≤ n && n ≤ 0x7E) || n = 0x85 || (0xA0 ≤ n && n ≤ 0xD7FF) ||
    (0xE000 ≤ n && n ≤ 0xFFFD) || 0x10000 ≤ n

structure Cursor where
  rest : List Char
  index : Nat
  line : Nat
  column : Nat
  deriving DecidableEq, Repr

namespace Cursor

def ofText (cs : List Char) : Cursor := ⟨cs, 0, 0, 0⟩

def mark (c : Cursor) : Mark := ⟨c.line, c.column⟩

def peek (c : Cursor) : Char := c.rest.headD finis

def peekAt (c : Cursor) (k : Nat) : Char := c.rest.getD k finis

def step (c : Cursor) : Cursor :=
  match c.rest with
  | [] => c
  | x :: rest =>
    if x = '\n' || x = '\u0085' || x = '\u2028' || x = '\u2029' || (x = '\r' && rest.head? ≠ some '\n') then
      ⟨rest, c.index + 1, c.line + 1, 0⟩
    else if x = '\uFEFF' then ⟨rest, c.index + 1, c.line, c.column⟩
    else ⟨rest, c.index + 1, c.line, c.column + 1⟩

def forward : Nat → Cursor → Cursor
  | 0, c => c
  | n + 1, c => forward n c.step

def span (p : Char → Bool) (c : Cursor) : List Char × Cursor :=
  let cs := c.rest.takeWhile p
  (cs, c.forward cs.length)

def skip (p : Char → Bool) (c : Cursor) : Cursor := (c.span p).2

def skipSpaces (c : Cursor) : Cursor := c.skip (· = ' ')

def skipLine (c : Cursor) : Cursor := c.skip fun x => !isBreakOrEnd x

/-- A comment up to the end of its line, if there is one. -/
def skipComment (c : Cursor) : Cursor := if c.peek = '#' then c.skipLine else c

/-- A line break and what it counts as: a line feed, unless it is a Unicode separator. -/
def lineBreak (c : Cursor) : List Char × Cursor :=
  match c.rest with
  | '\r' :: '\n' :: _ => (['\n'], c.forward 2)
  | x :: _ =>
    if x = '\n' || x = '\r' || x = '\u0085' then (['\n'], c.step)
    else if x = '\u2028' || x = '\u2029' then ([x], c.step)
    else ([], c)
  | [] => ([], c)

/-- Whether a document marker of three such characters stands here. -/
def atMarker (x : Char) (c : Cursor) : Bool :=
  c.rest.take 3 = [x, x, x] && isGapOrEnd (c.peekAt 3)

def atSeparator (c : Cursor) : Bool := c.atMarker '-' || c.atMarker '.'

end Cursor

end Conform.Yaml
