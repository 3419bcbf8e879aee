/-! Tables of code points. A character property is a list of inclusive ranges, in increasing order;
a table is searched from its front, and the searches are short because text is mostly ASCII. -/

namespace Conform.Text

abbrev Ranges := List (Nat × Nat)

def Ranges.has (ranges : Ranges) (n : Nat) : Bool :=
  ranges.any fun r => r.1 ≤ n && n ≤ r.2

end Conform.Text
