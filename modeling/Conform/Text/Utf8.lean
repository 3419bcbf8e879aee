/-! UTF-8. Bytes are decoded from the front; where they are no encoding, the failure names the bytes that
are at fault and why: a byte that starts no character, a byte that does not continue one, or an end within
a character. -/

namespace Conform.Text

inductive Utf8Reason where
  | start
  | continuation
  | truncated
  deriving DecidableEq, Repr

/-- Bytes `first` up to but without `stop` are at fault. -/
structure Utf8Failure where
  reason : Utf8Reason
  byte : UInt8
  first : Nat
  stop : Nat
  deriving DecidableEq, Repr

/-- The number of bytes of a character that starts with a byte, and the bounds of its second byte. -/
def utf8Lead (b : Nat) : Option (Nat × Nat × Nat) :=
  if b < 0x80 then some (1, 0, 0)
  else if b < 0xC2 then none
  else if b < 0xE0 then some (2, 0x80, 0xBF)
  else if b = 0xE0 then some (3, 0xA0, 0xBF)
  else if b = 0xED then some (3, 0x80, 0x9F)
  else if b < 0xF0 then some (3, 0x80, 0xBF)
  else if b = 0xF0 then some (4, 0x90, 0xBF)
  else if b < 0xF4 then some (4, 0x80, 0xBF)
  else if b = 0xF4 then some (4, 0x80, 0x8F)
  else none

/-- How many of the bytes after the first one continue the character. -/
def utf8Continued (low high : Nat) : Nat → List UInt8 → Nat
  | 0, _ => 0
  | _, [] => 0
  | n + 1, b :: bs =>
    if low ≤ b.toNat && b.toNat ≤ high then 1 + utf8Continued 0x80 0xBF n bs else 0

def utf8Value (width : Nat) (bs : List UInt8) : Nat :=
  match bs with
  | [] => 0
  | b :: rest =>
    let head := if width = 1 then b.toNat else b.toNat % Nat.pow 2 (7 - width)
    rest.foldl (fun n c => n * 64 + c.toNat % 64) head

/-- Decodes bytes from a position on; the first number bounds the characters. -/
def decodeFrom : Nat → Nat → List UInt8 → Except Utf8Failure (List Char)
  | 0, _, _ => .ok []
  | _, _, [] => .ok []
  | n + 1, i, b :: bs =>
    match utf8Lead b.toNat with
    | none => .error ⟨.start, b, i, i + 1⟩
    | some (width, low, high) =>
      let k := utf8Continued low high (width - 1) bs
      if k = width - 1 then
        (decodeFrom n (i + width) (bs.drop k)).map (Char.ofNat (utf8Value width (b :: bs.take k)) :: ·)
      else if bs.length = k then .error ⟨.truncated, b, i, i + 1 + k⟩
      else .error ⟨.continuation, b, i, i + 1 + k⟩

def decodeUtf8 (bs : List UInt8) : Except Utf8Failure (List Char) :=
  decodeFrom bs.length 0 bs

/-- Every line end as a line feed. -/
def unifyLineEnds : List Char → List Char
  | '\r' :: '\n' :: cs => '\n' :: unifyLineEnds cs
  | '\r' :: cs => '\n' :: unifyLineEnds cs
  | c :: cs => c :: unifyLineEnds cs
  | [] => []

end Conform.Text
