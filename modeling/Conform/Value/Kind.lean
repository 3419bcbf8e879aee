import Conform.Value.Equality
import Conform.Value.Printer

/-! Which kinds a value is of. A boolean is no number. An integer is any finite number that is whole, of
whichever type: `3.0` is one. -/

namespace Conform

/-- A decimal is whole if rounding it leaves what it counts. Only a finite one is compared with what it is
rounded to; to compare a signaling number would have no answer. -/
def Number.Decimal.isWhole? (d : Number.Decimal) : Option Bool :=
  if d.isFinite then (Amount.decimal d).equal? (.decimal d.toIntegral) else some false

namespace Value

def isNumber : Value → Bool
  | .int _ => true
  | .float _ => true
  | .decimal _ => true
  | .fraction _ => true
  | _ => false

def isInteger : Value → Bool
  | .int _ => true
  | .float x => x.isWhole
  | .decimal d => d.isWhole? == some true
  | .fraction q => q.den == 1
  | _ => false

end Value

namespace Kind

def admits : Kind → Value → Bool
  | .integer, v => v.isInteger
  | .number, v => v.isNumber
  | .string, v => v.string?.isSome
  | .boolean, v => v.type == .bool
  | .null, v => v.isNull
  | .function, v => v.type == .function || v.type == .type
  | .any, _ => true
  | .unknown, _ => true

/-- The kind that a value names. -/
def ofValue? : Value → Option Kind
  | .null => none
  | .kind k => some k
  | v => ofName? v.text

/-- Whether a value is of a kind that is itself given as a value. The strings that equal the two kinds of
every value serve as these kinds; nothing else that is no kind does. -/
def admits? (kind : Value) (v : Value) : Option Bool :=
  match kind with
  | .kind k => some (k.admits v)
  | .str s => if s = any.name || s = unknown.name then some true else none
  | _ => none

end Kind

/-- The message for a value that should be a kind. -/
def unknownKindMessage (kind : Value) : String :=
  "Unknown kind: " ++ String.ofList kind.text

end Conform
