import Conform.Number.Binary64
import Conform.Proofs.Basic
import Conform.Value.Basic
import Conform.Yaml.Cursor

/-! JSON texts (RFC 8259) as trees that keep how a text is written: the white space between its tokens, the
notation of its numbers and the escapes in its strings. Every JSON text without surrogates is the text of such a
tree, and the value of the tree is what the text says.

Documents are read as YAML, which does not take in all JSON texts. A text is regular if it has no tab between its
tokens, if names and their colons stand on one line with at most 1024 characters from the first quote to the
colon, if a number with an exponent has a fraction and a sign on the exponent, if an integer has no more digits
than are read, if strings have no characters as they are that a document may not hold or that break lines, and if
values are not nested deeper than there is room for on the stack. -/

namespace Conform

namespace Json

/-! White space. -/

inductive Blank where
  | space
  | tab
  | lineFeed
  | carriageReturn
  deriving DecidableEq, Repr

def Blank.char : Blank → Char
  | space => ' '
  | tab => '\t'
  | lineFeed => '\n'
  | carriageReturn => '\r'

def blankText (bs : List Blank) : List Char := bs.map Blank.char

def haveNoTab (bs : List Blank) : Bool := bs.all fun b => b ≠ .tab

/-! Numbers. -/

abbrev Digit := Fin 10

def Digit.char (d : Digit) : Char := Nat.digitChar d

def digitText (ds : List Digit) : List Char := ds.map Digit.char

/-- Reads digits behind a number that is read. -/
def numberOf (n : Nat) (ds : List Digit) : Nat := ds.foldl (fun n d => n * 10 + d.val) n

/-- The whole part of a number, which has no leading zero. -/
inductive Whole where
  | zero
  | digits (first : Fin 9) (rest : List Digit)
  deriving DecidableEq, Repr

def Whole.list : Whole → List Digit
  | zero => [0]
  | digits first rest => first.succ :: rest

/-- Digits, at least one. -/
structure Digits where
  first : Digit
  rest : List Digit
  deriving DecidableEq, Repr

def Digits.list (ds : Digits) : List Digit := ds.first :: ds.rest

inductive Sign where
  | plus
  | minus
  deriving DecidableEq, Repr

def Sign.char : Sign → Char
  | plus => '+'
  | minus => '-'

structure Exponent where
  capital : Bool
  sign : Option Sign
  digits : Digits
  deriving DecidableEq, Repr

namespace Exponent

def letter (e : Exponent) : Char := if e.capital then 'E' else 'e'

def text (e : Exponent) : List Char :=
  e.letter :: ((e.sign.map Sign.char).toList ++ digitText e.digits.list)

def value (e : Exponent) : Int :=
  let n : Int := numberOf 0 e.digits.list
  if e.sign = some .minus then -n else n

end Exponent

structure Numeral where
  negative : Bool
  whole : Whole
  fraction : Option Digits
  exponent : Option Exponent
  deriving DecidableEq, Repr

namespace Numeral

def fractionText : Option Digits → List Char
  | some ds => '.' :: digitText ds.list
  | none => []

def exponentText : Option Exponent → List Char
  | some e => e.text
  | none => []

/-- A number without its sign. -/
def body (n : Numeral) : List Char :=
  digitText n.whole.list ++ fractionText n.fraction ++ exponentText n.exponent

def text (n : Numeral) : List Char := (if n.negative then ['-'] else []) ++ n.body

def fractionList (n : Numeral) : List Digit := (n.fraction.map Digits.list).getD []

/-- A number without its sign, as a coefficient and a power of ten. -/
def scientific (n : Numeral) : Number.Scientific :=
  ⟨numberOf 0 (n.whole.list ++ n.fractionList), (n.exponent.map Exponent.value).getD 0 - n.fractionList.length⟩

/-- A number with a fraction or an exponent is a double, any other an integer. -/
def value (n : Numeral) : Value :=
  if n.fraction.isNone && n.exponent.isNone then
    let k : Int := numberOf 0 n.whole.list
    .int (if n.negative then -k else k)
  else .float (Number.Binary64.ofDecimal n.negative n.scientific)

def isRegular (n : Numeral) : Bool :=
  (n.exponent.all fun e => n.fraction.isSome && e.sign.isSome) &&
    (n.fraction.isSome || decide (n.whole.list.length ≤ Number.digitLimit))

end Numeral

/-- What is written without quotes or brackets. -/
inductive Word where
  | null
  | truth (b : Bool)
  | number (n : Numeral)
  deriving DecidableEq, Repr

namespace Word

def text : Word → List Char
  | null => "null".toList
  | truth true => "true".toList
  | truth false => "false".toList
  | number n => n.text

def value : Word → Value
  | null => .null
  | truth b => .bool b
  | number n => n.value

def isRegular : Word → Bool
  | number n => n.isRegular
  | _ => true

end Word

/-! Strings. -/

structure HexDigit where
  value : Fin 16
  capital : Bool
  deriving DecidableEq, Repr

def HexDigit.char (d : HexDigit) : Char :=
  if d.capital then (Nat.digitChar d.value).toUpper else Nat.digitChar d.value

def hexNumber (ds : List HexDigit) : Nat := ds.foldl (fun n d => n * 16 + d.value.val) 0

inductive Short where
  | quote
  | backslash
  | slash
  | backspace
  | formFeed
  | lineFeed
  | carriageReturn
  | tab
  deriving DecidableEq, Repr

namespace Short

def letter : Short → Char
  | quote => '\x22'
  | backslash => '\x5c'
  | slash => '/'
  | backspace => 'b'
  | formFeed => 'f'
  | lineFeed => 'n'
  | carriageReturn => 'r'
  | tab => 't'

def char : Short → Char
  | quote => '\x22'
  | backslash => '\x5c'
  | slash => '/'
  | backspace => '\x08'
  | formFeed => '\x0c'
  | lineFeed => '\n'
  | carriageReturn => '\r'
  | tab => '\t'

end Short

/-- Whether a string may have a character as it is. -/
def isUnescaped (c : Char) : Bool := 0x20 ≤ c.toNat && c ≠ '\x22' && c ≠ '\x5c'

def isSurrogate (code : Nat) : Bool := 0xD800 ≤ code && code ≤ 0xDFFF

/-- A character of a string: as it is, with a letter behind a backslash, or by its number. -/
inductive Symbol where
  | plain (c : Char) (h : isUnescaped c = true)
  | short (e : Short)
  | code (a b c d : HexDigit) (h : isSurrogate (hexNumber [a, b, c, d]) = false)

namespace Symbol

def text : Symbol → List Char
  | plain c _ => [c]
  | short e => ['\x5c', e.letter]
  | code a b c d _ => ['\x5c', 'u', a.char, b.char, c.char, d.char]

def char : Symbol → Char
  | plain c _ => c
  | short e => e.char
  | code a b c d _ => Char.ofNat (hexNumber [a, b, c, d])

def isRegular : Symbol → Bool
  | plain c _ => Yaml.isAllowed c && !Yaml.isBreak c
  | _ => true

end Symbol

abbrev Symbols := List Symbol

namespace Symbols

/-- What stands between the quotes of a string. -/
def text (ss : Symbols) : List Char := ss.flatMap Symbol.text

def quoted (ss : Symbols) : List Char := '\x22' :: (ss.text ++ ['\x22'])

def chars (ss : Symbols) : List Char := ss.map Symbol.char

def isRegular (ss : Symbols) : Bool := ss.all Symbol.isRegular

end Symbols

/-- The name of a member of an object, with the white space around it. -/
structure Name where
  before : List Blank
  symbols : Symbols
  after : List Blank

namespace Name

def text (n : Name) : List Char := blankText n.before ++ n.symbols.quoted ++ blankText n.after

def string (n : Name) : String := String.ofList n.symbols.chars

def isRegular (n : Name) : Bool :=
  haveNoTab n.before && n.symbols.isRegular && n.after.all (fun b => b = .space) &&
    decide (n.symbols.quoted.length + n.after.length ≤ 1024)

end Name

end Json

open Json in
/-- A JSON value as it is written. An item of an array and the value of a member have white space around them;
`blanks` is what stands behind an opening bracket. -/
inductive Json where
  | word (w : Word)
  | string (ss : Symbols)
  | array (blanks : List Blank) (items : List (List Blank × Json × List Blank))
  | object (blanks : List Blank) (members : List (Name × List Blank × Json × List Blank))

namespace Json

abbrev Item := List Blank × Json × List Blank

abbrev Member := Name × List Blank × Json × List Blank

/-- What stands in front of an item. -/
def separator (first : Bool) : List Char := if first then [] else [',']

mutual

def text : Json → List Char
  | .word w => w.text
  | .string ss => ss.quoted
  | .array blanks items => '[' :: (blankText blanks ++ itemText true items ++ [']'])
  | .object blanks members => '\x7b' :: (blankText blanks ++ memberText true members ++ ['\x7d'])
termination_by structural j => j

def itemText (first : Bool) : List (List Blank × Json × List Blank) → List Char
  | [] => []
  | (before, j, after) :: items =>
    separator first ++ blankText before ++ j.text ++ blankText after ++ itemText false items
termination_by structural items => items

def memberText (first : Bool) : List (Name × List Blank × Json × List Blank) → List Char
  | [] => []
  | (name, before, j, after) :: members =>
    separator first ++ name.text ++ ':' :: (blankText before ++ j.text ++ blankText after) ++
      memberText false members
termination_by structural members => members

end

mutual

def value : Json → Value
  | .word w => w.value
  | .string ss => .str (String.ofList ss.chars)
  | .array _ items => .list (itemValues items)
  | .object _ members => .dict (memberEntries members)
termination_by structural j => j

def itemValues : List (List Blank × Json × List Blank) → List Value
  | [] => []
  | (_, j, _) :: items => j.value :: itemValues items
termination_by structural items => items

def memberEntries : List (Name × List Blank × Json × List Blank) → Entries
  | [] => []
  | (name, _, j, _) :: members => (.str name.string, j.value) :: memberEntries members
termination_by structural members => members

end

mutual

/-- How deep a value is nested. -/
def height : Json → Nat
  | .word _ => 0
  | .string _ => 0
  | .array _ items => itemHeight items + 1
  | .object _ members => memberHeight members + 1
termination_by structural j => j

def itemHeight : List (List Blank × Json × List Blank) → Nat
  | [] => 0
  | (_, j, _) :: items => max j.height (itemHeight items)
termination_by structural items => items

def memberHeight : List (Name × List Blank × Json × List Blank) → Nat
  | [] => 0
  | (_, _, j, _) :: members => max j.height (memberHeight members)
termination_by structural members => members

end

/-! Values by their parts. -/

mutual

def everywhere (p : Json → Bool) : Json → Bool
  | .word w => p (.word w)
  | .string ss => p (.string ss)
  | .array blanks items => p (.array blanks items) && everywhereIn p items
  | .object blanks members => p (.object blanks members) && everywhereAmong p members
termination_by structural j => j

def everywhereIn (p : Json → Bool) : List (List Blank × Json × List Blank) → Bool
  | [] => true
  | (_, j, _) :: items => j.everywhere p && everywhereIn p items
termination_by structural items => items

def everywhereAmong (p : Json → Bool) : List (Name × List Blank × Json × List Blank) → Bool
  | [] => true
  | (_, _, j, _) :: members => j.everywhere p && everywhereAmong p members
termination_by structural members => members

end

/-- Whether the names in each object are distinct. -/
def hasDistinctNames (j : Json) : Bool :=
  j.everywhere fun
    | .object _ members => decide (members.map (·.1.string)).Nodup
    | _ => true

def isRegular (j : Json) : Bool :=
  j.everywhere fun
    | .word w => w.isRegular
    | .string ss => ss.isRegular
    | .array blanks items =>
      haveNoTab blanks && items.all fun e => haveNoTab e.1 && haveNoTab e.2.2
    | .object blanks members =>
      haveNoTab blanks && members.all fun m => m.1.isRegular && haveNoTab m.2.1 && haveNoTab m.2.2.2

theorem memberEntries_eq (members : List Member) :
    memberEntries members = members.map fun m => (.str m.1.string, m.2.2.1.value) := by
  induction members with
  | nil => rfl
  | cons m members ih => rw [memberEntries, ih, List.map_cons]

theorem itemValues_eq (items : List Item) : itemValues items = items.map (·.2.1.value) := by
  induction items with
  | nil => rfl
  | cons e items ih => rw [itemValues, ih, List.map_cons]

theorem everywhereIn_iff (p : Json → Bool) (items : List Item) :
    everywhereIn p items = true ↔ ∀ e ∈ items, e.2.1.everywhere p = true := by
  induction items with
  | nil => simp [everywhereIn]
  | cons e items ih => simp [everywhereIn, ih]

theorem everywhereAmong_iff (p : Json → Bool) (members : List Member) :
    everywhereAmong p members = true ↔ ∀ m ∈ members, m.2.2.1.everywhere p = true := by
  induction members with
  | nil => simp [everywhereAmong]
  | cons m members ih => simp [everywhereAmong, ih]

theorem isRegular_array {blanks : List Blank} {items : List Item} : (array blanks items).isRegular = true ↔
    haveNoTab blanks = true ∧
      ∀ e ∈ items, haveNoTab e.1 = true ∧ haveNoTab e.2.2 = true ∧ e.2.1.isRegular = true := by
  simp only [isRegular, everywhere, Bool.and_eq_true, List.all_eq_true, everywhereIn_iff]
  grind

theorem isRegular_object {blanks : List Blank} {members : List Member} :
    (object blanks members).isRegular = true ↔ haveNoTab blanks = true ∧ ∀ m ∈ members,
      m.1.isRegular = true ∧ haveNoTab m.2.1 = true ∧ haveNoTab m.2.2.2 = true ∧
        m.2.2.1.isRegular = true := by
  simp only [isRegular, everywhere, Bool.and_eq_true, List.all_eq_true, everywhereAmong_iff]
  grind

theorem hasDistinctNames_array {blanks : List Blank} {items : List Item} :
    (array blanks items).hasDistinctNames = true ↔ ∀ e ∈ items, e.2.1.hasDistinctNames = true := by
  rw [hasDistinctNames, everywhere, Bool.true_and]
  exact everywhereIn_iff _ items

theorem hasDistinctNames_object {blanks : List Blank} {members : List Member} :
    (object blanks members).hasDistinctNames = true ↔ (members.map (·.1.string)).Nodup ∧
      ∀ m ∈ members, m.2.2.1.hasDistinctNames = true := by
  rw [hasDistinctNames, everywhere, Bool.and_eq_true, decide_eq_true_eq]
  exact and_congr_right' (everywhereAmong_iff _ members)

/-- Induction over the values in a value. -/
@[elab_as_elim]
theorem induction {motive : Json → Prop} (word : ∀ w, motive (.word w)) (string : ∀ ss, motive (.string ss))
    (array : ∀ blanks items, (∀ e ∈ items, motive e.2.1) → motive (.array blanks items))
    (object : ∀ blanks members, (∀ m ∈ members, motive m.2.2.1) → motive (.object blanks members)) :
    ∀ j, motive j
  | .word w => word w
  | .string ss => string ss
  | .array blanks items => array blanks items fun e _ => induction word string array object e.2.1
  | .object blanks members => object blanks members fun m _ => induction word string array object m.2.2.1
termination_by j => sizeOf j
decreasing_by
  · have := List.sizeOf_lt_of_mem ‹e ∈ items›
    have := sizeOf_snd_lt e
    have := sizeOf_fst_lt e.2
    simp only [Json.array.sizeOf_spec]
    omega
  · have := List.sizeOf_lt_of_mem ‹m ∈ members›
    have := sizeOf_snd_lt m
    have := sizeOf_snd_lt m.2
    have := sizeOf_fst_lt m.2.2
    simp only [Json.object.sizeOf_spec]
    omega

end Json

/-- A JSON text: one value with white space around it. -/
structure JsonText where
  before : List Json.Blank
  root : Json
  after : List Json.Blank

namespace JsonText

open Json

def text (t : JsonText) : List Char := blankText t.before ++ t.root.text ++ blankText t.after

/-- A depth for which a stack has room. Each level takes two calls, of which there may be a thousand. -/
def nestingLimit : Nat := 400

def isRegular (t : JsonText) : Bool :=
  haveNoTab t.before && t.root.isRegular && haveNoTab t.after && decide (t.root.height ≤ nestingLimit)

end JsonText

end Conform
