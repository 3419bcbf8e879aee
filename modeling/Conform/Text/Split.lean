/-! Text split at a separator. There is one field more than there are separators. -/

namespace Conform.Text

def splitAt (separator : Char) : List Char → List (List Char)
  | [] => [[]]
  | c :: cs =>
    if c = separator then [] :: splitAt separator cs
    else
      match splitAt separator cs with
      | [] => [[c]]
      | field :: fields => (c :: field) :: fields

end Conform.Text
