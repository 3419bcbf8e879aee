import Conform.Text.Digit
import Conform.Yaml.Cursor

/-! The text of scalars as they stand in a document: block scalars with their line folding and chomping,
quoted scalars with their escapes, and plain scalars, which end where something else can begin. The
numbers that the loops count down are never used up, since every round takes a character. -/

namespace Conform.Yaml

def isSpaceTab (c : Char) : Bool := c = ' ' || c = '\t'

def hexNumber (cs : List Char) : Nat :=
  cs.foldl (fun n c => n * 16 + (Text.hexDigit? c).getD 0) 0

/-! Block scalars. -/

inductive Chomping where
  | clip
  | strip
  | keep
  deriving DecidableEq, Repr

def chomping? (c : Cursor) : Option Chomping × Cursor :=
  if c.peek = '+' then (some .keep, c.step)
  else if c.peek = '-' then (some .strip, c.step)
  else (none, c)

/-- A digit that counts indentation; zero is no such digit. -/
def increment? (c : Cursor) : Scan (Option Nat × Cursor) :=
  if Text.isDigit c.peek then
    if c.peek = '0' then failed else .ok (some (c.peek.toNat - 0x30), c.step)
  else .ok (none, c)

def blockHeader (c : Cursor) : Scan (Chomping × Option Nat × Cursor) := do
  let (chomping, increment, c) ←
    match chomping? c with
    | (some k, c) => do
      let (n, c) ← increment? c
      pure (k, n, c)
    | (none, c) => do
      let (n, c) ← increment? c
      match n with
      | none => pure (Chomping.clip, none, c)
      | some _ =>
        let (k, c) := chomping? c
        pure (k.getD .clip, n, c)
  if isSpaceOrEnd c.peek then
    let c := c.skipSpaces.skipComment
    if isBreakOrEnd c.peek then pure (chomping, increment, c.lineBreak.2) else failed
  else failed

/-- Blank lines in front of the first line with content, and the widest indentation among them. -/
def leadingBreaks : Nat → Cursor → Nat → List Char × Nat × Cursor
  | 0, c, widest => ([], widest, c)
  | n + 1, c, widest =>
    if c.peek = ' ' then
      let c := c.step
      leadingBreaks n c (max widest c.column)
    else if isBreak c.peek then
      let (b, c) := c.lineBreak
      let (bs, w, c) := leadingBreaks n c widest
      (b ++ bs, w, c)
    else ([], widest, c)

def skipIndent (indent : Nat) (c : Cursor) : Cursor :=
  c.forward (min (indent - c.column) (c.rest.takeWhile (· = ' ')).length)

def breaksWithin (indent : Nat) : Nat → Cursor → List Char × Cursor
  | 0, c => ([], skipIndent indent c)
  | n + 1, c =>
    let c := skipIndent indent c
    if isBreak c.peek then
      let (b, c) := c.lineBreak
      let (bs, c) := breaksWithin indent n c
      (b ++ bs, c)
    else ([], c)

structure BlockText where
  text : List Char
  last : List Char
  breaks : List Char
  cursor : Cursor

def hasLine (indent : Nat) (c : Cursor) : Bool := c.column == indent && c.peek ≠ finis

/-- The lines of a block scalar from a first one that is there; `breaks` stand before it. -/
def blockLines (folded : Bool) (indent : Nat) : Nat → List Char → Cursor → BlockText
  | 0, breaks, c => ⟨[], [], breaks, c⟩
  | n + 1, breaks, c =>
    let solid := !isSpaceTab c.peek
    let (line, c) := c.span fun x => !isBreakOrEnd x
    let (last, c) := c.lineBreak
    let (bs, c) := breaksWithin indent c.rest.length c
    if hasLine indent c then
      let joint :=
        if folded && last = ['\n'] && solid && !isSpaceTab c.peek then
          if bs.isEmpty then [' '] else []
        else last
      let t := blockLines folded indent n bs c
      { t with text := breaks ++ line ++ joint ++ t.text }
    else ⟨breaks ++ line, last, bs, c⟩

/-- A block scalar from its indicator on, inside a block of the given indentation. -/
def blockScalar (folded : Bool) (outer : Int) (c : Cursor) : Scan (List Char × Cursor) := do
  let (chomping, increment, c) ← blockHeader c.step
  let least := (max (outer + 1) 1).toNat
  let (breaks, indent, c) :=
    match increment with
    | none =>
      let (bs, widest, c) := leadingBreaks c.rest.length c 0
      (bs, max least widest, c)
    | some k =>
      let indent := least + k - 1
      let (bs, c) := breaksWithin indent c.rest.length c
      (bs, indent, c)
  let t := if hasLine indent c then blockLines folded indent c.rest.length breaks c
    else ⟨[], [], breaks, c⟩
  let tail := match chomping with
    | .strip => []
    | .clip => t.last
    | .keep => t.last ++ t.breaks
  return (t.text ++ tail, t.cursor)

/-! Quoted scalars. -/

def escaped? : Char → Option Char
  | '0' => some '\x00'
  | 'a' => some '\x07'
  | 'b' => some '\x08'
  | 't' => some '\t'
  | '\t' => some '\t'
  | 'n' => some '\n'
  | 'v' => some '\x0b'
  | 'f' => some '\x0c'
  | 'r' => some '\r'
  | 'e' => some '\x1b'
  | ' ' => some ' '
  | '\x22' => some '\x22'
  | '\x5c' => some '\x5c'
  | '/' => some '/'
  | 'N' => some '\u0085'
  | '_' => some '\u00A0'
  | 'L' => some '\u2028'
  | 'P' => some '\u2029'
  | _ => none

def escapeWidth? : Char → Option Nat
  | 'x' => some 2
  | 'u' => some 4
  | 'U' => some 8
  | _ => none

def characterOf (code : Nat) : Scan Char :=
  if 0x10FFFF < code then .error (.character code)
  else if 0xD800 ≤ code && code ≤ 0xDFFF then failed
  else .ok (Char.ofNat code)

/-- Blank lines inside a quoted scalar; a document marker may not stand there. -/
def quotedBreaks : Nat → Cursor → Scan (List Char × Cursor)
  | 0, c => .ok ([], c)
  | n + 1, c => do
    if c.atSeparator then failed
    else
      let c := c.skip isSpaceTab
      if isBreak c.peek then
        let (b, c) := c.lineBreak
        let (bs, c) ← quotedBreaks n c
        return (b ++ bs, c)
      else return ([], c)

/-- What a backslash and the characters after it stand for. -/
def escape (c : Cursor) : Scan (List Char × Cursor) := do
  match escaped? c.peek with
  | some x => return ([x], c.step)
  | none =>
    match escapeWidth? c.peek with
    | some width =>
      let c := c.step
      let ds := c.rest.take width
      if ds.length = width && ds.all fun d => (Text.hexDigit? d).isSome then
        return ([← characterOf (hexNumber ds)], c.forward width)
      else failed
    | none =>
      if isBreak c.peek then
        let c := c.lineBreak.2
        quotedBreaks c.rest.length c
      else failed

def isQuotedEnd (c : Char) : Bool := c = '\x27' || c = '\x22' || c = '\x5c' || isGapOrEnd c

/-- Quoted text up to a gap or the closing quote. -/
def quotedRun (double : Bool) : Nat → Cursor → Scan (List Char × Cursor)
  | 0, c => .ok ([], c)
  | n + 1, c => do
    let (run, c) := c.span fun x => !isQuotedEnd x
    let x := c.peek
    if !double && x = '\x27' && c.peekAt 1 = '\x27' then
      let (more, c) ← quotedRun double n (c.forward 2)
      return (run ++ '\x27' :: more, c)
    else if (double && x = '\x27') || (!double && (x = '\x22' || x = '\x5c')) then
      let (more, c) ← quotedRun double n c.step
      return (run ++ x :: more, c)
    else if double && x = '\x5c' then
      let (y, c) ← escape c.step
      let (more, c) ← quotedRun double n c
      return (run ++ y ++ more, c)
    else return (run, c)

/-- A gap in quoted text: a line break folds to a space, or to the further breaks after it. -/
def quotedGap (c : Cursor) : Scan (List Char × Cursor) := do
  let (gap, c) := c.span isSpaceTab
  if c.peek = finis then failed
  else if isBreak c.peek then
    let (b, c) := c.lineBreak
    let (bs, c) ← quotedBreaks c.rest.length c
    return ((if b ≠ ['\n'] then b else if bs.isEmpty then [' '] else []) ++ bs, c)
  else return (gap, c)

def quotedRest (double : Bool) : Nat → Cursor → Scan (List Char × Cursor)
  | 0, _ => failed
  | n + 1, c => do
    let (run, c) ← quotedRun double (c.rest.length + 1) c
    if c.peek = (if double then '\x22' else '\x27') then return (run, c.step)
    else
      let (gap, c) ← quotedGap c
      let (more, c) ← quotedRest double n c
      return (run ++ gap ++ more, c)

/-- A quoted scalar from its opening quote on. -/
def quotedScalar (double : Bool) (c : Cursor) : Scan (List Char × Cursor) :=
  quotedRest double (c.rest.length + 1) c.step

/-! Plain scalars. -/

def isFlowMark (c : Char) : Bool :=
  c = ',' || c = '[' || c = ']' || c = '\x7b' || c = '\x7d'

/-- The longest run of plain text without gaps. -/
def plainRun (flow : Bool) : List Char → List Char
  | [] => []
  | c :: cs =>
    let next := cs.headD finis
    if isGapOrEnd c || (c = ':' && (isGapOrEnd next || (flow && isFlowMark next))) ||
        (flow && (c = '?' || isFlowMark c)) then []
    else c :: plainRun flow cs

/-- Blank lines inside a plain scalar, or nothing if a document marker follows. -/
def plainBreaks : Nat → Cursor → Option (List Char) × Cursor
  | 0, c => (some [], c)
  | n + 1, c =>
    let c := c.skipSpaces
    if isBreak c.peek then
      let (b, c) := c.lineBreak
      if c.atSeparator then (none, c)
      else
        let (bs, c) := plainBreaks n c
        (bs.map (b ++ ·), c)
    else (some [], c)

/-- A gap in plain text, empty where the scalar ends, and whether it holds a line break. -/
def plainGap (c : Cursor) : List Char × Bool × Cursor :=
  let (gap, c) := c.span (· = ' ')
  if isBreak c.peek then
    let (b, c) := c.lineBreak
    if c.atSeparator then ([], true, c)
    else
      match plainBreaks (c.rest.length + 1) c with
      | (none, c) => ([], true, c)
      | (some bs, c) =>
        ((if b ≠ ['\n'] then b else if bs.isEmpty then [' '] else []) ++ bs, true, c)
  else (gap, false, c)

/-- Plain text after a gap, and whether it ends at the beginning of a line. -/
def plainRest (flow : Bool) (indent : Int) : Nat → List Char → Bool → Cursor →
    List Char × Bool × Cursor
  | 0, _, fresh, c => ([], fresh, c)
  | n + 1, gap, fresh, c =>
    let run := if c.peek = '#' then [] else plainRun flow c.rest
    if run.isEmpty then ([], fresh, c)
    else
      let (next, fresh, c) := plainGap (c.forward run.length)
      if next.isEmpty || c.peek = '#' || (!flow && (c.column : Int) < indent) then
        (gap ++ run, fresh, c)
      else
        let (more, fresh, c) := plainRest flow indent n next fresh c
        (gap ++ run ++ more, fresh, c)

/-- A plain scalar inside a block of the given indentation. -/
def plainScalar (flow : Bool) (outer : Int) (c : Cursor) : List Char × Bool × Cursor :=
  plainRest flow (outer + 1) (c.rest.length + 1) [] false c

end Conform.Yaml
