/-! Base64. Each character stands for six bits; characters outside the alphabet are passed over. Padding
ends the data where it fills a group of four, and elsewhere it is passed over too. Data that ends within a
group is no encoding. -/

namespace Conform.Text

def base64Digit? (c : Char) : Option Nat :=
  let n := c.toNat
  if 'A' ≤ c && c ≤ 'Z' then some (n - 0x41)
  else if 'a' ≤ c && c ≤ 'z' then some (n - 0x61 + 26)
  else if '0' ≤ c && c ≤ '9' then some (n - 0x30 + 52)
  else if c = '+' then some 62
  else if c = '/' then some 63
  else none

/-- Decodes from within a group: how many of its characters were read, the bits that they leave over, and
the padding since the last of them. -/
def base64Rest : List Char → (read left pads : Nat) → Option (List UInt8)
  | [], read, _, _ => if read = 0 then some [] else none
  | c :: cs, read, left, pads =>
    if c = '=' then
      if 2 ≤ read then
        if 4 ≤ read + pads + 1 then some [] else base64Rest cs read left (pads + 1)
      else base64Rest cs read left pads
    else
      match base64Digit? c with
      | none => base64Rest cs read left pads
      | some d =>
        match read with
        | 0 => base64Rest cs 1 d 0
        | 1 => (base64Rest cs 2 (d % 16) 0).map (UInt8.ofNat (left * 4 + d / 16) :: ·)
        | 2 => (base64Rest cs 3 (d % 4) 0).map (UInt8.ofNat (left * 16 + d / 4) :: ·)
        | _ => (base64Rest cs 0 0 0).map (UInt8.ofNat (left * 64 + d) :: ·)

def decodeBase64 (cs : List Char) : Option (List UInt8) :=
  base64Rest cs 0 0 0

end Conform.Text
