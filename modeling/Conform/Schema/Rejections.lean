import Conform.Schema.Check

/-! The rejections by options of unions that a walk meets, in the order in which it meets them, also where
a later option accepts. They are what a validation reports to the log. A part that the walk does not reach
adds none. -/

namespace Conform

/-- Rejections inside a child schema, if the step into it is within the limit. -/
def enterRejections (c : Settings) (depth : Nat) (child : Value → List (Nat × Fault)) (v : Value) :
    List (Nat × Fault) :=
  if c.depthLimit ≤ depth then [] else child v

/-- Goes through parts until one is not accepted. -/
def rejectionsUntil (f : Value → Verdict) (g : Value → List (Nat × Fault)) :
    List Value → List (Nat × Fault)
  | [] => []
  | v :: vs => g v ++ if (f v).isAccepted then rejectionsUntil f g vs else []

def rejectionsSpaced (f : Value → Verdict) (g : Value → List (Nat × Fault)) (step : Int) :
    Int → Nat → List (Nat × Fault)
  | _, 0 => []
  | start, n + 1 =>
    g (.int start) ++
      if (f (.int start)).isAccepted then rejectionsSpaced f g step (start + step) n else []

def rejectionsElements (f : Value → Verdict) (g : Value → List (Nat × Fault)) :
    Elements → List (Nat × Fault)
  | .stored xs => rejectionsUntil f g xs
  | .spaced start step n => rejectionsSpaced f g step start n

def rejectionsEntries (key value : Value → Verdict) (keyRejections valueRejections : Value → List (Nat × Fault)) :
    Entries → List (Nat × Fault)
  | [] => []
  | (k, v) :: es =>
    keyRejections k ++
      match key k with
      | .accepted k' =>
        valueRejections v ++
          if (value v).isAccepted && k'.isHashable then
            rejectionsEntries key value keyRejections valueRejections es
          else []
      | _ => []

mutual

def Schema.rejections (c : Settings) : Schema → Nat → Value → List (Nat × Fault)
  | .object fields, d, v =>
    match v.entries? with
    | some es => fieldRejections c fields d es
    | none => []
  | .array item, d, v =>
    match v.elements? with
    | some e =>
      rejectionsElements (enter c d (item.check c (d + 1)))
        (enterRejections c d (item.rejections c (d + 1))) e
    | none => []
  | .tuple items, d, v =>
    match v.elements? with
    | some e =>
      if e.hasLength then positionRejections c items d (e.take items.length) else []
    | none => []
  | .union options, d, v => optionRejections c options d v 0
  | .optional inner, d, v =>
    if v.isNull then [] else enterRejections c d (inner.rejections c (d + 1)) v
  | .table key value, d, v =>
    match v.entries? with
    | some es =>
      if key.isNone && value.isNone then []
      else rejectionsEntries (checkPart c key d) (checkPart c value d)
        (partRejections c key d) (partRejections c value d) es
    | none => []
  | .leaf _, _, _ => []
  | .literal _, _, _ => []
  | .custom _, _, _ => []
termination_by structural s => s

def fieldRejections (c : Settings) :
    List (FieldName × Schema) → Nat → Entries → List (Nat × Fault)
  | [], _, _ => []
  | (name, s) :: rest, d, es =>
    match es.get? name.value with
    | none => []
    | some v =>
      enterRejections c d (s.rejections c (d + 1)) v ++
        if (enter c d (s.check c (d + 1)) v).isAccepted then fieldRejections c rest d es else []
termination_by structural fields => fields

def positionRejections (c : Settings) : List Schema → Nat → List Value → List (Nat × Fault)
  | s :: ss, d, v :: vs =>
    enterRejections c d (s.rejections c (d + 1)) v ++
      if (enter c d (s.check c (d + 1)) v).isAccepted then positionRejections c ss d vs else []
  | _, _, _ => []
termination_by structural items => items

def optionRejections (c : Settings) : List Schema → Nat → Value → Nat → List (Nat × Fault)
  | [], _, _, _ => []
  | s :: ss, d, v, i =>
    enterRejections c d (s.rejections c (d + 1)) v ++
      match enter c d (s.check c (d + 1)) v with
      | .rejected e => if e.isWritable then (i, e) :: optionRejections c ss d v (i + 1) else []
      | _ => []
termination_by structural options => options

def partRejections (c : Settings) : Option Schema → Nat → Value → List (Nat × Fault)
  | none, _, _ => []
  | some s, d, v => enterRejections c d (s.rejections c (d + 1)) v
termination_by structural part => part

end

end Conform
