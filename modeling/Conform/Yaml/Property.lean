import Conform.Text.Digit
import Conform.Text.Utf8
import Conform.Yaml.Token

/-! Names in a document: anchors and aliases, tags with their handles, and directives. -/

namespace Conform.Yaml

def word (c : Cursor) : Scan (List Char × Cursor) :=
  let (cs, c) := c.span isWord
  if cs.isEmpty then failed else .ok (cs, c)

/-- What may follow the name of an anchor or alias. -/
def endsName (c : Char) : Bool :=
  isGapOrEnd c || c = '?' || c = ':' || c = ',' || c = ']' || c = '\x7d' || c = '%' || c = '@' ||
    c = '\x60'

/-- The name of an anchor or alias, from its indicator on. -/
def anchorName (c : Cursor) : Scan (List Char × Cursor) := do
  let (cs, c) ← word c.step
  if endsName c.peek then return (cs, c) else failed

def isUriChar (c : Char) : Bool :=
  isWord c || "-;/?:@&=+$,_.!~*'()[]".toList.contains c

/-- Bytes written as percent signs with two digits. -/
def escapedBytes : Nat → Cursor → Scan (List UInt8 × Cursor)
  | 0, c => .ok ([], c)
  | n + 1, c =>
    if c.peek = '%' then
      match Text.hexDigit? (c.peekAt 1), Text.hexDigit? (c.peekAt 2) with
      | some a, some b => do
        let (bs, c) ← escapedBytes n (c.forward 3)
        return (UInt8.ofNat (a * 16 + b) :: bs, c)
      | _, _ => failed
    else .ok ([], c)

def uriRest : Nat → Cursor → Scan (List Char × Cursor)
  | 0, c => .ok ([], c)
  | n + 1, c => do
    let (run, c) := c.span isUriChar
    if c.peek = '%' then
      let (bs, c) ← escapedBytes c.rest.length c
      match Text.decodeUtf8 bs with
      | .error _ => failed
      | .ok cs =>
        let (more, c) ← uriRest n c
        return (run ++ cs ++ more, c)
    else return (run, c)

def uri (c : Cursor) : Scan (List Char × Cursor) := do
  if isUriChar c.peek || c.peek = '%' then uriRest (c.rest.length + 1) c else failed

/-- A handle between exclamation marks; before a space one mark is a handle. -/
def tagHandle (c : Cursor) : Scan (List Char × Cursor) :=
  if c.peek ≠ '!' then failed
  else if c.peekAt 1 = ' ' then .ok (['!'], c.step)
  else
    let (cs, d) := c.step.span isWord
    if d.peek = '!' then .ok ('!' :: cs ++ ['!'], d.step) else failed

/-- Whether an exclamation mark follows before the next gap. -/
def hasHandle : List Char → Bool
  | [] => false
  | c :: cs => if isSpaceOrEnd c then false else c = '!' || hasHandle cs

/-- The handle and the suffix of a tag, from its indicator on. -/
def tag (c : Cursor) : Scan (Option (List Char) × List Char × Cursor) := do
  let x := c.peekAt 1
  let (handle, suffix, c) ←
    if x = '<' then do
      let (cs, c) ← uri (c.forward 2)
      if c.peek = '>' then pure (none, cs, c.step) else failed
    else if isGapOrEnd x then pure (none, ['!'], c.step)
    else if hasHandle (c.rest.drop 1) then do
      let (h, c) ← tagHandle c
      let (cs, c) ← uri c
      pure (some h, cs, c)
    else do
      let (cs, c) ← uri c.step
      pure (some ['!'], cs, c)
  if isSpaceOrEnd c.peek then return (handle, suffix, c) else failed

def decimal (c : Cursor) : Scan (Nat × Cursor) :=
  let (cs, c) := c.span Text.isDigit
  if cs.isEmpty then failed else .ok (cs.foldl (fun n d => n * 10 + (d.toNat - 0x30)) 0, c)

def versionDirective (c : Cursor) : Scan (Directive × Cursor) := do
  let (major, c) ← decimal c.skipSpaces
  if c.peek ≠ '.' then failed
  else
    let (minor, c) ← decimal c.step
    if isSpaceOrEnd c.peek then return (.version major minor, c) else failed

def handleDirective (c : Cursor) : Scan (Directive × Cursor) := do
  let (name, c) ← tagHandle c.skipSpaces
  if c.peek ≠ ' ' then failed
  else
    let (start, c) ← uri c.skipSpaces
    if isSpaceOrEnd c.peek then return (.handle name start, c) else failed

/-- A directive with the rest of its line, from the percent sign on. -/
def directive (c : Cursor) : Scan (Directive × Cursor) := do
  let (name, c) ← word c.step
  if !isSpaceOrEnd c.peek then failed
  else
    let (d, c) ←
      if name = "YAML".toList then versionDirective c
      else if name = "TAG".toList then handleDirective c
      else pure (Directive.other, c.skipLine)
    let c := c.skipSpaces.skipComment
    if isBreakOrEnd c.peek then return (d, c.lineBreak.2) else failed

end Conform.Yaml
