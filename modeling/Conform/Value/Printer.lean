import Conform.Text.Quoted
import Conform.Value.Parts

/-! The two texts of a value. The literal tells values of different types apart: strings are quoted and
numbers other than integers, floats and complex ones name their type. The plain text is for path tokens
and messages: a string stands for itself, numbers and dates are written without their type, and a view is
written as the dictionary that it shows. A value in which an integer has too many digits has neither. -/

namespace Conform

open Number Calendar

/-- Quoted text of a string, as a string. -/
def quoted (s : String) : List Char := Text.quote s.toList

def enclose (left : String) (parts : List (List Char)) (right : String) : List Char :=
  left.toList ++ (parts.intersperse [',', ' ']).flatten ++ right.toList

def complexText (re im : Binary64) : List Char :=
  let i := Layout.part.text im
  match re with
  | .finite false 0 _ => i ++ ['j']
  | _ =>
    let sign := match im with
      | .nan => ['+']
      | _ => if im.isNegative then [] else ['+']
    '(' :: Layout.part.text re ++ sign ++ i ++ ['j', ')']

def fractionText (q : Rat) : List Char :=
  if q.den = 1 then intText q.num else intText q.num ++ '/' :: digitsText q.den

def Callable.literal : Callable → List Char
  | .function n => "<built-in function ".toList ++ n.toList ++ ['>']
  | .type n => "<class ".toList ++ quoted n ++ ['>']

def Kind.literal (k : Kind) : List Char :=
  '<' :: k.constant ++ ": ".toList ++ quoted k.name ++ ['>']

namespace Value

def boolText (b : Bool) : List Char := if b then "True".toList else "False".toList

def seqLiteral : SeqForm → List (List Char) → List Char
  | .list, parts => enclose "[" parts "]"
  | .tuple, [part] => enclose "(" [part] ",)"
  | .tuple, parts => enclose "(" parts ")"
  | .deque, parts => enclose "deque([" parts "])"

def setLiteral : Bool → List (List Char) → List Char
  | false, [] => "set()".toList
  | true, [] => "frozenset()".toList
  | false, parts => enclose "\x7b" parts "\x7d"
  | true, parts => enclose "frozenset(\x7b" parts "\x7d)"

def mapLiteral : MapForm → List (List Char × List Char) → List Char
  | .dict, es => enclose "\x7b" (es.map fun e => e.1 ++ ':' :: ' ' :: e.2) "\x7d"
  | .view, es => enclose "mappingproxy(\x7b" (es.map fun e => e.1 ++ ':' :: ' ' :: e.2) "\x7d)"
  | .ordered, [] => "OrderedDict()".toList
  | .ordered, es => enclose "OrderedDict([" (es.map fun e => enclose "(" [e.1, e.2] ")") "])"

def rangeLiteral (start stop step : Int) : List Char :=
  enclose "range(" ((if step = 1 then [start, stop] else [start, stop, step]).map intText) ")"

mutual

def literal : Value → List Char
  | .null => "None".toList
  | .bool b => boolText b
  | .int n => intText n
  | .float x => Layout.alone.text x
  | .decimal d => "Decimal('".toList ++ d.text ++ "')".toList
  | .fraction q => enclose "Fraction(" [intText q.num, digitsText q.den] ")"
  | .complex re im => complexText re im
  | .str s => quoted s
  | .kind k => k.literal
  | .bytes false bs => Text.quoteBytes bs
  | .bytes true bs => "bytearray(".toList ++ Text.quoteBuffer bs ++ [')']
  | .seq form xs => seqLiteral form (literals xs)
  | .range a b c => rangeLiteral a b c
  | .set frozen xs => setLiteral frozen (literals xs)
  | .map form es => mapLiteral form (entryLiterals es)
  | .date d => d.literal
  | .moment t => t.literal
  | .callable c => c.literal
  | .ellipsis => "Ellipsis".toList
termination_by structural v => v

def literals : List Value → List (List Char)
  | [] => []
  | x :: xs => literal x :: literals xs
termination_by structural xs => xs

def entryLiterals : List (Value × Value) → List (List Char × List Char)
  | [] => []
  | (k, v) :: es => (literal k, literal v) :: entryLiterals es
termination_by structural es => es

end

def text : Value → List Char
  | .str s => s.toList
  | .kind k => k.constant
  | .decimal d => d.text
  | .fraction q => fractionText q
  | .date d => d.text
  | .moment t => t.text ' '
  | .map .view es => (Value.map .dict es).literal
  | v => v.literal

/-- Whether the integers that a value itself is written with are short enough. -/
def hasShortDigits : Value → Bool
  | .int n => Number.isWritable n
  | .fraction q => Number.isWritable q.num && Number.isWritable q.den
  | .range a b c => Number.isWritable a && Number.isWritable b && Number.isWritable c
  | _ => true

/-- Whether a value can be written, as literal or as text. -/
def isWritable (v : Value) : Bool := v.everywhere hasShortDigits

end Value

end Conform
