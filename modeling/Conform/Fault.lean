import Conform.Source
import Conform.Value.Abridged

/-! Faults: what a value lacks to conform to a schema. A fault has a cause, the path from the validated
root to the offending value, and, for documents, a place. Its message is made from the cause, once and for
all; its text is put together from the message, the path and the place as they are by now. -/

namespace Conform

/-- The classes of faults. -/
inductive FaultClass where
  | validation
  | kindMismatch
  | notAContainer
  | missingField
  | missingElement
  | extraElement
  | unionExhausted
  | literalMismatch
  | depthLimit
  deriving DecidableEq, Repr

namespace FaultClass

def name : FaultClass → String
  | .validation => "ValidationError"
  | .kindMismatch => "KindMismatchError"
  | .notAContainer => "NotAContainerError"
  | .missingField => "MissingFieldError"
  | .missingElement => "MissingTupleElementError"
  | .extraElement => "ExtraTupleElementError"
  | .unionExhausted => "UnionExhaustedError"
  | .literalMismatch => "LiteralMismatchError"
  | .depthLimit => "DepthLimitError"

def tag : FaultClass → String
  | .validation => "validation"
  | .kindMismatch => "kind_mismatch"
  | .notAContainer => "not_a_container"
  | .missingField => "missing_field"
  | .missingElement => "missing_tuple_element"
  | .extraElement => "extra_tuple_element"
  | .unionExhausted => "union_exhausted"
  | .literalMismatch => "literal_mismatch"
  | .depthLimit => "depth_limit"

end FaultClass

/-- What an object, table, array or tuple schema expects of a value as a whole. -/
inductive Container where
  | object
  | table
  | array
  | tuple
  deriving DecidableEq, Repr

def Container.name : Container → String
  | .object => "object"
  | .table => "table"
  | .array => "array"
  | .tuple => "tuple"

mutual

/-- Why a value is refused. A fault may also be stated in words of the caller, as one of the classes that
carry nothing but a message. -/
inductive Cause where
  | stated (plain : FaultClass) (message : String)
  | wrongKind (expected : Kind) (shown : String)
  | unhashableKey (label : String)
  | wrongContainer (expected : Container) (label : String)
  | missingField (field : Value)
  | missingElement (index : Int)
  | extraElement (index : Int)
  | exhausted (rejections : List (Int × Fault))
  | notLiteral (expected : Value) (shownExpected shown : String)
  | statedLiteral (expected : Value) (message : String)
  | tooDeep (limit : Int)

/-- The message is kept as it was when the fault was made. -/
inductive Fault where
  | told (cause : Cause) (message : String) (path : Path) (location : Option Location)

end

namespace Cause

def faultClass : Cause → FaultClass
  | .stated c _ => c
  | .wrongKind _ _ => .kindMismatch
  | .unhashableKey _ => .kindMismatch
  | .wrongContainer _ _ => .notAContainer
  | .missingField _ => .missingField
  | .missingElement _ => .missingElement
  | .extraElement _ => .extraElement
  | .exhausted _ => .unionExhausted
  | .notLiteral _ _ _ => .literalMismatch
  | .statedLiteral _ _ => .literalMismatch
  | .tooDeep _ => .depthLimit

end Cause

/-- A message with the path in front and the place behind it. -/
def withPlace (message : String) (path : Path) (location : Option Location) : String :=
  let text := if path.isEmpty then message else path.dotted ++ ": " ++ message
  match location with
  | some l => text ++ l.text
  | none => text

namespace Fault

def cause : Fault → Cause
  | told c _ _ _ => c

def message : Fault → String
  | told _ m _ _ => m

def path : Fault → Path
  | told _ _ p _ => p

def location : Fault → Option Location
  | told _ _ _ l => l

def text (f : Fault) : String := withPlace f.message f.path f.location

/-- Whether a fault has a text. Its message is there already. -/
def isWritable (f : Fault) : Bool := Path.isWritable f.path

end Fault

def optionTexts (rs : List (Int × Fault)) : List String :=
  rs.map fun r => "Option " ++ intString r.1 ++ ": " ++ r.2.text

/-- The message for a cause. -/
def Cause.message : Cause → String
  | .stated _ m => m
  | .wrongKind k shown => "Expected " ++ k.name ++ ", got: " ++ shown
  | .unhashableKey label => "Validated key must be hashable, got: " ++ label
  | .wrongContainer c label => "Expected " ++ c.name ++ ", got: " ++ label
  | .missingField field => "Missing required field: " ++ String.ofList field.text
  | .missingElement i => "Missing tuple element at index " ++ intString i
  | .extraElement i => "Unexpected extra element at index " ++ intString i
  | .exhausted rs => "Union validation failed. Errors: " ++ String.intercalate "; " (optionTexts rs)
  | .notLiteral _ expected shown => "Expected literal value " ++ expected ++ ", got: " ++ shown
  | .statedLiteral _ m => m
  | .tooDeep limit => "Schema nesting exceeds depth limit " ++ intString limit

namespace Fault

/-- Makes a fault. -/
def mk (c : Cause) (p : Path) (l : Option Location) : Fault := told c c.message p l

/-- A fault of the value under validation itself. -/
def here (c : Cause) : Fault := mk c [] none

/-- A fault of the part at a token. -/
def atToken (token : Value) (c : Cause) : Fault := mk c [token] none

/-- The fault as seen from one level up, where the value stands at `token`. -/
def under (token : Value) : Fault → Fault
  | told c m p l => told c m (token :: p) l

def locate (l : Option Location) : Fault → Fault
  | told c m p _ => told c m p l

def faultClass (f : Fault) : FaultClass := f.cause.faultClass

/-- The fault as a constructor call: its class, its message and its path. -/
def literal (f : Fault) : String :=
  f.faultClass.name ++ "(" ++ String.ofList (quoted f.message) ++ ", path=" ++
    String.ofList (Value.seq .tuple f.path).literal ++ ")"

end Fault

end Conform
