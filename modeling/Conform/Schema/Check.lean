import Conform.Fault
import Conform.Schema.Basic
import Conform.Settings
import Conform.Value.Kind

/-! The walk of a schema along a value. It accepts the value, with its containers rebuilt, or rejects it
with a fault. Each step into a child schema costs one level of depth, and a step beyond the limit rejects.
An object reports a field that is there but null, and that its schema rejects for any reason but depth, as
missing. A union takes the first option that accepts.

Three inputs leave the walk without a verdict: a literal that has to compare a signaling number, a tuple
schema over a range too long to have a length, and an integer with too many digits to be written. The last
one matters where a leaf or a literal shows the value that it refuses, and where a union writes the fault of
an option that rejects, with its path. The limit itself is taken to be a number that can be written, and values
to have no identity, by which a comparison could pass over a signaling number. -/

namespace Conform

inductive Breakdown where
  | signaling
  | oversized
  | unwritable
  deriving DecidableEq, Repr

inductive Outcome (α : Type) where
  | accepted (result : α)
  | rejected (fault : Fault)
  | broken (cause : Breakdown)

abbrev Verdict := Outcome Value

namespace Outcome

def map {α β : Type} (f : α → β) : Outcome α → Outcome β
  | accepted a => accepted (f a)
  | rejected e => rejected e
  | broken b => broken b

def isAccepted {α : Type} : Outcome α → Bool
  | accepted _ => true
  | _ => false

/-- The outcome for a part as seen from the whole, where the part stands at a token. -/
def under {α : Type} (token : Value) : Outcome α → Outcome α
  | rejected f => rejected (f.under token)
  | o => o

end Outcome

/-- The length of the longest progression that has a length. -/
def lengthLimit : Nat := Nat.pow 2 63 - 1

/-- Whether a sequence has a length. What is stored always has one. -/
def Elements.hasLength : Elements → Bool
  | .stored _ => true
  | .spaced _ _ n => n ≤ lengthLimit

/-- A step into a child schema, from the given depth. -/
def enter (c : Settings) (depth : Nat) (child : Value → Verdict) (v : Value) : Verdict :=
  if c.depthLimit ≤ depth then .rejected (.here (.tooDeep c.depthLimit)) else child v

def checkItems (f : Value → Verdict) : Nat → List Value → Outcome (List Value)
  | _, [] => .accepted []
  | i, v :: vs =>
    match f v with
    | .accepted w => (checkItems f (i + 1) vs).map (w :: ·)
    | .rejected e => .rejected (e.under (.int i))
    | .broken b => .broken b

/-- As `checkItems`, over the terms of a progression as they come. -/
def checkSpaced (f : Value → Verdict) (step : Int) : Nat → Int → Nat → Outcome (List Value)
  | _, _, 0 => .accepted []
  | i, start, n + 1 =>
    match f (.int start) with
    | .accepted w => (checkSpaced f step (i + 1) (start + step) n).map (w :: ·)
    | .rejected e => .rejected (e.under (.int i))
    | .broken b => .broken b

def checkElements (f : Value → Verdict) : Elements → Outcome (List Value)
  | .stored xs => checkItems f 0 xs
  | .spaced start step n => checkSpaced f step 0 start n

theorem checkSpaced_eq (f : Value → Verdict) (step : Int) (n : Nat) :
    ∀ (i : Nat) (start : Int),
      checkSpaced f step i start n = checkItems f i (Elements.spacedList step start n) := by
  induction n with
  | zero => intro i start; rfl
  | succ n ih =>
    intro i start
    simp only [checkSpaced, Elements.spacedList, checkItems, ih]

theorem checkElements_eq (f : Value → Verdict) (e : Elements) :
    checkElements f e = checkItems f 0 e.toList := by
  cases e with
  | stored xs => rfl
  | spaced start step n => exact checkSpaced_eq f step n 0 start

/-- The entries of a table, rebuilt with their checked keys and values. -/
def checkEntries (key value : Value → Verdict) : Entries → Entries → Outcome Entries
  | done, [] => .accepted done
  | done, (k, v) :: es =>
    match key k with
    | .accepted k' =>
      match value v with
      | .accepted v' =>
        if k'.isHashable then checkEntries key value (done.put k' v') es
        else .rejected (.atToken k (.unhashableKey k'.label))
      | .rejected e => .rejected (e.under k)
      | .broken b => .broken b
    | .rejected e => .rejected (e.under k)
    | .broken b => .broken b

def missing (name : FieldName) : Fault :=
  .atToken name.value (.missingField name.value)

/-- What the rejection of a present field becomes. -/
def fieldFault (name : FieldName) (v : Value) (e : Fault) : Fault :=
  if v.isNull && e.faultClass ≠ .depthLimit then missing name else e.under name.value

def undeclared (fields : List (FieldName × Schema)) (es : Entries) : Entries :=
  es.filter fun e => !fields.any fun f => e.1.same f.1.value

/-- Refuses a value for a cause, if its message can be written. -/
def refuse : Option Cause → Verdict
  | some cause => .rejected (.here cause)
  | none => .broken .unwritable

def leafCause (c : Settings) (k : Kind) (v : Value) : Option Cause :=
  (if k = .function then some v.label else describe v c.reprLimit).map (.wrongKind k)

def literalCause (c : Settings) (expected v : Value) : Option Cause := do
  return .notLiteral expected (← describe expected c.reprLimit) (← describe v c.reprLimit)

def Leaf.check (own : Leaf) (v : Value) : Verdict :=
  if own.takes v then .accepted v else .rejected (.here (.stated .validation (own.refusal v)))

mutual

def Schema.check (c : Settings) : Schema → Nat → Value → Verdict
  | .leaf k, _, v => if k.admits v then .accepted v else refuse (leafCause c k v)
  | .object fields, d, v =>
    match v.entries? with
    | some es => (checkFields c fields d es).map fun done => .dict (done ++ undeclared fields es)
    | none => .rejected (.here (.wrongContainer .object v.label))
  | .array item, d, v =>
    match v.elements? with
    | some e => (checkElements (enter c d (item.check c (d + 1))) e).map .list
    | none => .rejected (.here (.wrongContainer .array v.label))
  | .tuple items, d, v =>
    match v.elements? with
    | some e =>
      if e.hasLength then (checkPositions c items d 0 (e.take (items.length + 1))).map .list
      else .broken .oversized
    | none => .rejected (.here (.wrongContainer .tuple v.label))
  | .union options, d, v => checkOptions c options d v 0 []
  | .optional inner, d, v =>
    if v.isNull then .accepted .null else enter c d (inner.check c (d + 1)) v
  | .table key value, d, v =>
    match v.entries? with
    | some es =>
      if key.isNone && value.isNone then .accepted v
      else (checkEntries (checkPart c key d) (checkPart c value d) [] es).map .dict
    | none => .rejected (.here (.wrongContainer .table v.label))
  | .literal expected, _, v =>
    if v.type = expected.type then
      match v.equal? expected with
      | some true => .accepted v
      | some false => refuse (literalCause c expected v)
      | none => .broken .signaling
    else refuse (literalCause c expected v)
  | .custom own, _, v => own.check v
termination_by structural s => s

/-- The declared fields with their checked values, in the order of declaration. -/
def checkFields (c : Settings) :
    List (FieldName × Schema) → Nat → Entries → Outcome Entries
  | [], _, _ => .accepted []
  | (name, s) :: rest, d, es =>
    match es.get? name.value with
    | none => .rejected (missing name)
    | some v =>
      match enter c d (s.check c (d + 1)) v with
      | .accepted w => (checkFields c rest d es).map ((name.value, w) :: ·)
      | .rejected e => .rejected (fieldFault name v e)
      | .broken b => .broken b
termination_by structural fields => fields

/-- The elements of a tuple against their schemas; one element more than there are schemas is enough to
see that there are too many. -/
def checkPositions (c : Settings) : List Schema → Nat → Nat → List Value → Outcome (List Value)
  | [], _, _, [] => .accepted []
  | [], _, i, _ :: _ => .rejected (.atToken (.int i) (.extraElement i))
  | _ :: _, _, i, [] => .rejected (.atToken (.int i) (.missingElement i))
  | s :: ss, d, i, v :: vs =>
    match enter c d (s.check c (d + 1)) v with
    | .accepted w => (checkPositions c ss d (i + 1) vs).map (w :: ·)
    | .rejected e => .rejected (e.under (.int i))
    | .broken b => .broken b
termination_by structural items => items

/-- The options from the `i`-th on; `before` holds the rejections by the options before. Each rejection is
written when it is met. -/
def checkOptions (c : Settings) : List Schema → Nat → Value → Nat → List (Int × Fault) → Verdict
  | [], _, _, _, before => .rejected (.here (.exhausted before))
  | s :: ss, d, v, i, before =>
    match enter c d (s.check c (d + 1)) v with
    | .accepted w => .accepted w
    | .rejected e =>
      if e.isWritable then checkOptions c ss d v (i + 1) (before ++ [((i : Int), e)])
      else .broken .unwritable
    | .broken b => .broken b
termination_by structural options => options

/-- A key or a value of a table; without a schema it is accepted as it is. -/
def checkPart (c : Settings) : Option Schema → Nat → Value → Verdict
  | none, _, v => .accepted v
  | some s, d, v => enter c d (s.check c (d + 1)) v
termination_by structural part => part

end

/-- Validates a value from the top. -/
def Schema.validate (s : Schema) (c : Settings) (v : Value) : Verdict :=
  s.check c 0 v

end Conform
