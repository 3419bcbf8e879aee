import Conform.Value.Basic

/-! The values in a value: elements of stored sequences, members of sets, keys and values of mappings. -/

namespace Conform.Value

def parts : Value → List Value
  | .seq _ xs => xs
  | .set _ xs => xs
  | .map _ es => es.map (·.1) ++ es.map (·.2)
  | _ => []

mutual

def everywhere (p : Value → Bool) : Value → Bool
  | .seq form xs => p (.seq form xs) && everywhereIn p xs
  | .set frozen xs => p (.set frozen xs) && everywhereIn p xs
  | .map form es => p (.map form es) && everywhereAmong p es
  | v => p v
termination_by structural v => v

def everywhereIn (p : Value → Bool) : List Value → Bool
  | [] => true
  | x :: xs => x.everywhere p && everywhereIn p xs
termination_by structural xs => xs

def everywhereAmong (p : Value → Bool) : List (Value × Value) → Bool
  | [] => true
  | (k, v) :: es => k.everywhere p && v.everywhere p && everywhereAmong p es
termination_by structural es => es

end

end Conform.Value
