import Conform.Text.Table

/-! Blank characters: the Unicode white space, with the four ASCII separators `U+001C` to `U+001F`.
Zero-width characters are not blank. -/

namespace Conform.Text

def blanks : Ranges :=
  [(0x09, 0x0D), (0x1C, 0x20), (0x85, 0x85), (0xA0, 0xA0), (0x1680, 0x1680), (0x2000, 0x200A),
   (0x2028, 0x2029), (0x202F, 0x202F), (0x205F, 0x205F), (0x3000, 0x3000)]

def isBlank (c : Char) : Bool :=
  blanks.has c.toNat

/-- Text without the blank characters at its two ends. -/
def strip (cs : List Char) : List Char :=
  ((cs.dropWhile isBlank).reverse.dropWhile isBlank).reverse

end Conform.Text
