import Conform.Proofs.Path.Pointer
import Conform.Value.Equality

/-! The dotted text of a path. Dots and opening brackets are its marks: an index is behind a bracket, and a name is
behind a dot, if it does not come first. Where the names have no marks themselves, the first character of what is left
tells what kind of token comes next, and the next mark or the closing bracket tells where it ends. So the path can be
read off its text. -/

namespace Conform

namespace Path

def isMark (c : Char) : Bool := c == '.' || c == '['

/-- Whether a token is an index, or a name that is not empty and is written without marks. A kind is written with
a dot. -/
def isOrdinary : Value → Bool
  | .int _ => true
  | token => token.string?.isSome && !token.text.isEmpty && token.text.all (!isMark ·)

end Path

end Conform
