import Conform.Number.Shortest
import Conform.Text.Quoted

/-! Text that should be a number and is none, or that has more digits than are read. -/

namespace Conform.Number

inductive Misread where
  | integer (base : Nat) (text : String)
  | tooLong (digits : Nat)
  | float (text : String)
  deriving DecidableEq, Repr

def limitText : String :=
  "Exceeds the limit (" ++ String.ofList (digitsText digitLimit) ++ " digits) for integer string conversion"

def remedyText : String := "; use sys.set_int_max_str_digits() to increase the limit"

/-- What is said of an integer that has too many digits to be written. -/
def unwritableText : String := limitText ++ remedyText

/-- The text is quoted; of one that is no integer at most 200 characters are shown. -/
def Misread.message : Misread → String
  | .integer base text =>
    "invalid literal for int() with base " ++ String.ofList (digitsText base) ++ ": " ++
      String.ofList ((Text.quote text.toList).take 200)
  | .tooLong digits =>
    limitText ++ ": value has " ++ String.ofList (digitsText digits) ++ " digits" ++ remedyText
  | .float text => "could not convert string to float: " ++ Text.quoted text

/-- Digits in base ten are counted before anything behind them is looked at. -/
def readInteger (base : Nat) (cs : List Char) : Except Misread Int :=
  let digits := digitCount base cs
  if base = 10 && digitLimit < digits then .error (.tooLong digits)
  else match integer? base cs with
    | some n => .ok n
    | none => .error (.integer base (String.ofList cs))

def readFloat (cs : List Char) : Except Misread Binary64 :=
  match Binary64.ofText? cs with
  | some x => .ok x
  | none => .error (.float (String.ofList cs))

end Conform.Number
