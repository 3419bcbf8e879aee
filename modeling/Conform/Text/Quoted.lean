import Conform.Text.Printable

/-! Quoted text. A string stands between apostrophes, or between double quotes if it holds an apostrophe
and no double quote. The backslash, the quote in use and every character that is not printable are
escaped: the common controls by a letter, the others by two, four or eight hexadecimal digits. Byte
strings are quoted alike, with two digits for every byte outside printable ASCII. -/

namespace Conform.Text

def hexDigits (width n : Nat) : List Char :=
  let ds := Nat.toDigits 16 n
  List.replicate (width - ds.length) '0' ++ ds

def quoteMark (hasApostrophe hasDouble : Bool) : Char :=
  if hasApostrophe && !hasDouble then '\x22' else '\x27'

def escapeChar (mark c : Char) : List Char :=
  if c = mark || c = '\x5c' then ['\x5c', c]
  else if c = '\t' then ['\x5c', 't']
  else if c = '\n' then ['\x5c', 'n']
  else if c = '\r' then ['\x5c', 'r']
  else if isPrintable c then [c]
  else if c.toNat < 0x100 then '\x5c' :: 'x' :: hexDigits 2 c.toNat
  else if c.toNat < 0x10000 then '\x5c' :: 'u' :: hexDigits 4 c.toNat
  else '\x5c' :: 'U' :: hexDigits 8 c.toNat

def quote (cs : List Char) : List Char :=
  let mark := quoteMark (cs.contains '\x27') (cs.contains '\x22')
  mark :: (cs.flatMap (escapeChar mark) ++ [mark])

def escapeByte (mark : Char) (b : UInt8) : List Char :=
  let c := Char.ofNat b.toNat
  if c = mark || c = '\x5c' then ['\x5c', c]
  else if c = '\t' then ['\x5c', 't']
  else if c = '\n' then ['\x5c', 'n']
  else if c = '\r' then ['\x5c', 'r']
  else if 0x20 ≤ b.toNat && b.toNat < 0x7F then [c]
  else '\x5c' :: 'x' :: hexDigits 2 b.toNat

def byteMark (bs : List UInt8) : Char :=
  quoteMark (bs.contains 0x27) (bs.contains 0x22)

def quoteBytes (bs : List UInt8) : List Char :=
  let mark := byteMark bs
  'b' :: mark :: (bs.flatMap (escapeByte mark) ++ [mark])

/-- As `quoteBytes`, but an apostrophe is escaped between double quotes too. -/
def quoteBuffer (bs : List UInt8) : List Char :=
  let mark := byteMark bs
  'b' :: mark :: (bs.flatMap (escapeByte '\x27') ++ [mark])

def quoted (s : String) : String :=
  String.ofList (quote s.toList)

end Conform.Text
