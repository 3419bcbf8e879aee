import Conform.Proofs.Schema.Construction
import Conform.Proofs.Value.Digits
import Conform.Session

/-! Which trees of calls make a schema. Every call in such a tree has a requirement of its own: that its arguments
are schemas, that a list of them is not empty, that the names of fields are strings. The calls are evaluated
arguments first, so the first call whose requirement is not met is the one that stops the evaluation; where all are
met, there is a schema. Of an argument the requirements ask no more than whether it is a schema and, if it is a plain
value, which one. That is known before the evaluation, since a call makes nothing but schemas.

A call that is stopped shows the name that is at fault, and one that cannot be written takes the place of the
error. -/

namespace Conform

/-- The plain value that an argument is, if it is no schema. -/
def Part.plain? : Part → Option Value
  | .schema _ => none
  | .value v => some v

/-- The elements of a sequence other than a string. Those of bytes are numbers. -/
def Value.terms? : Value → Option (List Value)
  | .bytes _ bs => some (bs.map fun b => .int b.toNat)
  | v => v.elements?.map (·.toList)

/-! The requirements of the calls. -/

namespace Construction

/-- The plain value that stands in place of a call, if there is one. -/
def plain? : Construction → Option Value
  | .part p => p.plain?
  | _ => none

def isSchema (e : Construction) : Bool := e.plain?.isNone

/-- The elements, if a plain sequence stands where a list of schemas is expected. -/
def elements? (e : Construction) : Option (List Construction) :=
  (e.plain?.bind Value.terms?).map fun xs => xs.map fun x => .part (.value x)

/-- The entries, if a plain mapping stands where the fields of an object are expected. -/
def entries? (e : Construction) : Option (KeyTable Construction) :=
  (e.plain?.bind Value.entries?).map fun es => es.map fun f => (f.1, .part (.value f.2))

def areSchemas (es : List Construction) : Bool := !es.isEmpty && es.all isSchema

def areFields (t : KeyTable Construction) : Bool := t.all fun f => f.1.string?.isSome && f.2.isSchema

/-- The name of the first field at fault, if it cannot be written. -/
def unwritableField? (t : KeyTable Construction) : Option Value :=
  ((t.find? fun f => !(f.1.string?.isSome && f.2.isSchema)).map (·.1)).filter fun name => !name.isWritable

/-- Whether something may be a part of a table: the null value stands for none. -/
def isTablePart (e : Construction) : Bool := e.plain?.all Value.isNull

/-- Whether the requirement of the call at the root of a tree is met. What cannot be written names no kind. -/
def isProper : Construction → Bool
  | .part _ => true
  | .primitive name => name.isWritable && (Kind.ofValue? name).isSome
  | .object fields => areFields (KeyTable.ofList fields)
  | .objectOf fields => fields.entries?.any areFields
  | .array item => item.isSchema
  | .tuple items => areSchemas items
  | .tupleOf items => items.elements?.any areSchemas
  | .union options => areSchemas options
  | .unionOf options => options.elements?.any areSchemas
  | .optional inner => inner.isSchema
  | .table key value => key.all isTablePart && value.all isTablePart
  | .literal _ => true

/-- The name that the call at the root of a tree would show but cannot write. -/
def unwritable? : Construction → Option Value
  | .primitive name => if name.isWritable then none else some name
  | .object fields => unwritableField? (KeyTable.ofList fields)
  | .objectOf fields => fields.entries?.bind unwritableField?
  | _ => none

mutual

/-- The trees in a tree, each after its arguments. -/
def nodes : Construction → List Construction
  | .part p => [.part p]
  | .primitive name => [.primitive name]
  | .object fields => nodesAmong fields ++ [.object fields]
  | .objectOf fields => nodes fields ++ [.objectOf fields]
  | .array item => nodes item ++ [.array item]
  | .tuple items => nodesIn items ++ [.tuple items]
  | .tupleOf items => nodes items ++ [.tupleOf items]
  | .union options => nodesIn options ++ [.union options]
  | .unionOf options => nodes options ++ [.unionOf options]
  | .optional inner => nodes inner ++ [.optional inner]
  | .table key value => nodesAt key ++ (nodesAt value ++ [.table key value])
  | .literal expected => [.literal expected]
termination_by structural e => e

def nodesIn : List Construction → List Construction
  | [] => []
  | e :: es => nodes e ++ nodesIn es
termination_by structural es => es

def nodesAmong : List (Value × Construction) → List Construction
  | [] => []
  | (_, e) :: es => nodes e ++ nodesAmong es
termination_by structural es => es

def nodesAt : Option Construction → List Construction
  | none => []
  | some e => nodes e
termination_by structural e => e

end

/-- The first tree whose requirement is not met. -/
def firstImproper? (ns : List Construction) : Option Construction := ns.find? fun n => !n.isProper

end Construction

namespace KeyTable

variable {α β : Type}

/-- The keys of a table, each with what is known of its value. -/
def mapValues (f : α → β) (t : KeyTable α) : KeyTable β := t.map fun e => (e.1, f e.2)

theorem mapValues_put {f : α → β} {t : KeyTable α} {key : Value} {a : α} :
    (t.put key a).mapValues f = (t.mapValues f).put key (f a) := by
  induction t with
  | nil => rfl
  | cons e t ih =>
    simp only [mapValues, List.map_cons, put] at ih ⊢
    split
    · rfl
    · rw [List.map_cons, ih]

end KeyTable

/-- The name that could not be written. -/
def DefinitionFailure.name? : DefinitionFailure → Option Value
  | refused _ => none
  | unwritable name => some name

/-- Whether a definition comes to something exactly if the requirement of a call is met, and otherwise fails over the
name that the call cannot write, if there is one. -/
def Definition.Meets {α : Type} (x : Definition α) (e : Construction) : Prop :=
  x.isOk = e.isProper ∧ ∀ f, x = .error f → f.name? = e.unwritable?

/-! When requirements let through what the arguments come to. -/

section

variable {α β γ : Type} {x : Definition α} {y : Definition β} {place : Place} {entry : Nat → Place} {p : Part}
  {e : Construction} {f : DefinitionFailure}

theorem isOk_map {f : α → β} : (x.map f).isOk = x.isOk := by
  cases x <;> rfl

theorem isOk_bind_pure {f : α → β} : (x >>= fun a => pure (f a)).isOk = x.isOk := by
  cases x <;> rfl

theorem isOk_bind_bind_pure {f : α → β → γ} :
    (x >>= fun a => y >>= fun b => pure (f a b)).isOk = (x.isOk && y.isOk) := by
  cases x with
  | error err => rfl
  | ok a => exact isOk_bind_pure

theorem isOk_requireSchema (h : p.plain? = e.plain?) : (requireSchema place p).isOk = e.isSchema := by
  rw [Construction.isSchema, ← h]
  cases p <;> rfl

theorem isOk_requireEntries {i : Nat} {ps : List Part} :
    (requireEntries entry i ps).isOk = (ps.map Part.plain?).all Option.isNone := by
  induction ps generalizing i with
  | nil => rfl
  | cons p ps ih =>
    rw [requireEntries, List.map_cons, List.all_cons, ← ih]
    cases p with
    | schema s => exact isOk_bind_pure
    | value v => rfl

theorem isOk_requireSchemas {ps : List Part} {es : List Construction}
    (h : ps.map Part.plain? = es.map Construction.plain?) :
    (requireSchemas place entry ps).isOk = Construction.areSchemas es := by
  have ha : (es.map Construction.plain?).all Option.isNone = es.all Construction.isSchema := List.all_map
  rw [Construction.areSchemas, ← ha, ← h, ← List.isEmpty_map (f := Construction.plain?), ← h]
  cases ps with
  | nil => rfl
  | cons p ps => exact isOk_requireEntries

theorem isOk_requireFields {t : KeyTable Part} {u : KeyTable Construction}
    (h : t.mapValues Part.plain? = u.mapValues Construction.plain?) :
    (requireFields t).isOk = Construction.areFields u := by
  have isSome_ofValue? (k : Value) : (FieldName.ofValue? k).isSome = k.string?.isSome := by
    cases k <;> rfl
  have hu : Construction.areFields u =
      (u.mapValues Construction.plain?).all fun f => f.1.string?.isSome && f.2.isNone := by
    rw [KeyTable.mapValues, List.all_map]
    rfl
  rw [hu, ← h]
  clear hu h
  induction t with
  | nil => rfl
  | cons f t ih =>
    obtain ⟨k, p⟩ := f
    rw [requireFields, KeyTable.mapValues, List.map_cons, List.all_cons, ← KeyTable.mapValues, ← ih,
      ← isSome_ofValue?]
    cases FieldName.ofValue? k with
    | none =>
      dsimp only
      split <;> rfl
    | some name =>
      cases p with
      | schema s => exact isOk_bind_pure
      | value v => rfl

theorem isOk_requireMapping (h : p.plain? = e.plain?) :
    (requireMapping p).isOk = e.entries?.any Construction.areFields := by
  unfold Construction.entries?
  rw [← h]
  cases p with
  | schema s => rfl
  | value v =>
    rw [requireMapping, Part.plain?, Option.bind_some]
    cases v.entries? with
    | none => rfl
    | some es =>
      rw [Option.map_some, Option.any_some]
      refine isOk_requireFields ?_
      simp only [KeyTable.mapValues, List.map_map]
      rfl

/-- A sequence of plain values is no list of schemas. -/
theorem areSchemas_plain (xs : List Value) :
    Construction.areSchemas (xs.map fun x => .part (.value x)) = false := by
  cases xs <;> rfl

theorem isOk_requireList : (requireList place entry p).isOk = e.elements?.any Construction.areSchemas := by
  have hl : (requireList place entry p).isOk = false := by
    cases h : requireList place entry p with
    | error err => rfl
    | ok ss => exact absurd h requireList_ne_ok
  rw [hl, Construction.elements?]
  cases e.plain?.bind Value.terms? with
  | none => rfl
  | some xs => exact (areSchemas_plain xs).symm

theorem isOk_requireOption {q : Option Part} {o : Option Construction}
    (h : q.map Part.plain? = o.map Construction.plain?) :
    (requireOption place q).isOk = o.all Construction.isTablePart := by
  have ho : o.all Construction.isTablePart = (o.map Construction.plain?).all (Option.all Value.isNull) := by
    cases o <;> rfl
  rw [ho, ← h]
  unfold requireOption
  split
  · rfl
  · rfl
  · next p hp =>
    rw [isOk_map, Option.map_some, Option.all_some]
    cases p with
    | schema s => rfl
    | value v => exact (Bool.eq_false_iff.2 fun hn => hp (by rw [Value.isNull_iff.1 hn])).symm

/-! Which name cannot be written when they do not. -/

theorem name?_of_requireSchema (h : requireSchema place p = .error f) : f.name? = none := by
  cases p with
  | schema s => cases h
  | value v =>
    cases h
    rfl

theorem name?_of_requireEntries {i : Nat} {ps : List Part} (h : requireEntries entry i ps = .error f) :
    f.name? = none := by
  induction ps generalizing i with
  | nil => cases h
  | cons p ps ih =>
    rw [requireEntries] at h
    rcases bind_eq_error.1 h with h | ⟨s, -, h⟩
    · exact name?_of_requireSchema h
    · rcases bind_eq_error.1 h with h | ⟨ss, -, h⟩
      · exact ih h
      · cases h

theorem name?_of_requireSchemas {ps : List Part} (h : requireSchemas place entry ps = .error f) :
    f.name? = none := by
  unfold requireSchemas at h
  split at h
  · cases h
    rfl
  · exact name?_of_requireEntries h

theorem name?_of_requireList (h : requireList place entry p = .error f) : f.name? = none := by
  cases p with
  | schema s =>
    cases h
    rfl
  | value v =>
    rw [requireList] at h
    split at h
    · exact name?_of_requireSchemas h
    · cases h
      rfl

theorem name?_of_requireOption {q : Option Part} (h : requireOption place q = .error f) : f.name? = none := by
  unfold requireOption at h
  split at h
  · cases h
  · cases h
  · exact name?_of_requireSchema (map_eq_error.1 h)

theorem name?_of_requireFields {t : KeyTable Part} {u : KeyTable Construction}
    (h : t.mapValues Part.plain? = u.mapValues Construction.plain?) (hf : requireFields t = .error f) :
    f.name? = Construction.unwritableField? u := by
  have string?_of_ofValue?_eq_none {k : Value} (hk : FieldName.ofValue? k = none) : k.string? = none := by
    cases k <;> first | rfl | cases hk
  have isWritable_of_ofValue? {k : Value} {name : FieldName} (hk : FieldName.ofValue? k = some name) :
      (∃ s, k.string? = some s) ∧ k.isWritable = true := by
    cases k <;> cases hk <;> exact ⟨⟨_, rfl⟩, rfl⟩
  have hu : Construction.unwritableField? u =
      (((u.mapValues Construction.plain?).find? fun f => !(f.1.string?.isSome && f.2.isNone)).map (·.1)).filter
        fun name => !name.isWritable := by
    rw [Construction.unwritableField?, KeyTable.mapValues, List.find?_map, Option.map_map]
    rfl
  rw [hu, ← h]
  clear hu h
  induction t with
  | nil => cases hf
  | cons e t ih =>
    obtain ⟨k, p⟩ := e
    rw [requireFields] at hf
    rw [KeyTable.mapValues, List.map_cons, ← KeyTable.mapValues]
    cases hk : FieldName.ofValue? k with
    | none =>
      -- The name itself is at fault.
      have hs : k.string? = none := string?_of_ofValue?_eq_none hk
      simp only [hk] at hf
      cases hw : k.isWritable with
      | true =>
        rw [if_pos hw] at hf
        cases hf
        simp [hs, hw, DefinitionFailure.name?, Option.filter_some]
      | false =>
        rw [if_neg (by simp [hw])] at hf
        cases hf
        simp [hs, hw, DefinitionFailure.name?, Option.filter_some]
    | some name =>
      obtain ⟨⟨s, hs⟩, hw⟩ := isWritable_of_ofValue? hk
      simp only [hk] at hf
      rcases bind_eq_error.1 hf with hp | ⟨s', hp, hr⟩
      · rw [name?_of_requireSchema hp]
        cases p with
        | schema s => cases hp
        | value v => simp [hw, Part.plain?, Option.filter_some]
      · obtain rfl := requireSchema_eq_ok hp
        rcases bind_eq_error.1 hr with hr | ⟨rest, -, hr⟩
        · simpa [hs, Part.plain?] using ih hr
        · cases hr

theorem name?_of_requireMapping (h : p.plain? = e.plain?) (hf : requireMapping p = .error f) :
    f.name? = e.entries?.bind Construction.unwritableField? := by
  unfold Construction.entries?
  rw [← h]
  cases p with
  | schema s =>
    cases hf
    rfl
  | value v =>
    rw [requireMapping] at hf
    rw [Part.plain?, Option.bind_some]
    cases he : v.entries? with
    | none =>
      rw [he] at hf
      cases hf
      rfl
    | some es =>
      simp only [he] at hf
      rw [Option.map_some, Option.bind_some]
      refine name?_of_requireFields ?_ hf
      simp only [KeyTable.mapValues, List.map_map]
      rfl

end

/-! The evaluation of a tree. -/

namespace Construction

variable {α β : Type} {x : Definition α} {e : Construction} {ms ns : List Construction}

/-- A call makes a schema, and a plain value stays what it is. -/
theorem plain?_of_eval {p : Part} (h : e.eval = .ok p) : p.plain? = e.plain? := by
  cases e with
  | part q =>
    rw [eval, Except.ok.injEq] at h
    rw [← h, plain?]
  | literal expected =>
    rw [eval, Except.ok.injEq] at h
    exact h ▸ rfl
  | primitive name =>
    rw [eval] at h
    obtain ⟨s, -, rfl⟩ := map_eq_ok.1 h
    rfl
  | object _ | objectOf _ | array _ | tuple _ | tupleOf _ | union _ | unionOf _ | optional _ =>
    rw [eval] at h
    obtain ⟨a, -, h⟩ := bind_eq_ok.1 h
    obtain ⟨b, -, h⟩ := bind_eq_ok.1 h
    exact pure_eq_ok.1 h ▸ rfl
  | table key value =>
    rw [eval] at h
    obtain ⟨k, -, h⟩ := bind_eq_ok.1 h
    obtain ⟨v, -, h⟩ := bind_eq_ok.1 h
    obtain ⟨k', -, h⟩ := bind_eq_ok.1 h
    obtain ⟨v', -, h⟩ := bind_eq_ok.1 h
    exact pure_eq_ok.1 h ▸ rfl

theorem plain?_of_evalList : ∀ {es : List Construction} {ps : List Part}, evalList es = .ok ps →
    ps.map Part.plain? = es.map plain?
  | [], ps, h => by
    rw [evalList, Except.ok.injEq] at h
    exact h ▸ rfl
  | e :: es, ps, h => by
    rw [evalList] at h
    obtain ⟨p, hp, h⟩ := bind_eq_ok.1 h
    obtain ⟨rest, hr, h⟩ := bind_eq_ok.1 h
    rw [← pure_eq_ok.1 h, List.map_cons, List.map_cons, plain?_of_eval hp, plain?_of_evalList hr]

theorem plain?_of_evalOption {o : Option Construction} {q : Option Part} (h : evalOption o = .ok q) :
    q.map Part.plain? = o.map plain? := by
  cases o with
  | none =>
    rw [evalOption, Except.ok.injEq] at h
    exact h ▸ rfl
  | some e =>
    rw [evalOption] at h
    obtain ⟨p, hp, h⟩ := bind_eq_ok.1 h
    rw [← pure_eq_ok.1 h, Option.map_some, Option.map_some, plain?_of_eval hp]

theorem plain?_of_evalFields {es : List (Value × Construction)} : ∀ {done t : KeyTable Part}
    {u : KeyTable Construction}, done.mapValues Part.plain? = u.mapValues plain? →
    evalFields done es = .ok t →
    t.mapValues Part.plain? = KeyTable.mapValues plain? (es.foldl (fun u f => KeyTable.put u f.1 f.2) u) := by
  induction es with
  | nil =>
    intro done t u hd h
    rw [evalFields, Except.ok.injEq] at h
    exact h ▸ hd
  | cons f es ih =>
    intro done t u hd h
    rw [evalFields] at h
    obtain ⟨p, hp, h⟩ := bind_eq_ok.1 h
    rw [List.foldl_cons]
    refine ih ?_ h
    rw [KeyTable.mapValues_put, KeyTable.mapValues_put, hd, plain?_of_eval hp]

/-- Whether an evaluation comes to something if the trees that it evaluates are proper, and otherwise fails as the first
that is not. -/
def Follows (x : Definition α) (ns : List Construction) : Prop :=
  match firstImproper? ns with
  | none => x.isOk = true
  | some n => ∃ f, n.eval = .error f ∧ f.name? = n.unwritable? ∧ x = .error f

theorem Follows.bind {f : α → Definition β} (hx : Follows x ms) (hf : ∀ a, x = .ok a → Follows (f a) ns) :
    Follows (x >>= f) (ms ++ ns) := by
  unfold Follows firstImproper? at *
  rw [List.find?_append]
  cases hm : ms.find? fun n => !n.isProper with
  | some n =>
    rw [hm] at hx
    obtain ⟨err, hn, hu, rfl⟩ := hx
    exact ⟨err, hn, hu, rfl⟩
  | none =>
    rw [hm] at hx
    cases x with
    | error err => cases hx
    | ok a => exact hf a rfl

/-- What is left of an evaluation after the arguments is the requirement of the call itself. -/
theorem follows_self {x : Definition Part} (he : e.eval = x) (hx : x.Meets e) : Follows x [e] := by
  obtain ⟨hx, hf⟩ := hx
  unfold Follows firstImproper?
  cases hp : e.isProper with
  | true => simpa [hp] using hx
  | false =>
    cases x with
    | error err => simpa [hp, he] using hf err rfl
    | ok p => cases hx.trans hp

/-- A call whose requirement asks for what its arguments come to goes as they do and then as itself. -/
theorem Follows.call {r : α → Definition β} {f : β → Schema} (hx : Follows x ms)
    (he : e.eval = x >>= fun a => r a >>= fun b => pure (.schema (f b)))
    (hr : ∀ a, x = .ok a → (r a).Meets e) : Follows e.eval (ms ++ [e]) := by
  rw [he]
  refine hx.bind fun a ha => follows_self (by rw [he, ha]; rfl) ⟨?_, fun err h => ?_⟩
  · rw [isOk_bind_pure]
    exact (hr a ha).1
  · rcases bind_eq_error.1 h with h | ⟨b, -, h⟩
    · exact (hr a ha).2 err h
    · cases h

theorem meets_primitive (name : Value) : (primitive name).eval.Meets (.primitive name) := by
  rw [eval, Schema.ofKindName, Definition.Meets, isOk_map, isProper, unwritable?]
  cases name.isWritable with
  | false =>
    refine ⟨rfl, fun f h => ?_⟩
    obtain rfl := Except.error.inj (map_eq_error.1 h)
    rfl
  | true =>
    rw [if_pos rfl, if_pos rfl]
    cases Kind.ofValue? name with
    | none =>
      refine ⟨rfl, fun f h => ?_⟩
      obtain rfl := Except.error.inj (map_eq_error.1 h)
      rfl
    | some k => exact ⟨rfl, fun f h => by cases map_eq_error.1 h⟩

mutual

theorem follows_eval : ∀ e : Construction, Follows e.eval e.nodes
  | .part p => follows_self rfl ⟨by rw [eval]; rfl, fun f h => by rw [eval] at h; cases h⟩
  | .literal expected => follows_self rfl ⟨by rw [eval]; rfl, fun f h => by rw [eval] at h; cases h⟩
  | .primitive name => follows_self rfl (meets_primitive name)
  | .object fields => by
    rw [nodes]
    refine (follows_evalFields fields []).call rfl fun t ht => ?_
    have hp := plain?_of_evalFields (u := []) rfl ht
    exact ⟨isOk_requireFields hp, fun f hf => name?_of_requireFields hp hf⟩
  | .objectOf fields => by
    rw [nodes]
    refine (follows_eval fields).call rfl fun p hp => ?_
    have hp := plain?_of_eval hp
    exact ⟨isOk_requireMapping hp, fun f hf => name?_of_requireMapping hp hf⟩
  | .array item => by
    rw [nodes]
    exact (follows_eval item).call rfl fun p hp =>
      ⟨isOk_requireSchema (plain?_of_eval hp), fun f hf => name?_of_requireSchema hf⟩
  | .tuple items => by
    rw [nodes]
    exact (follows_evalList items).call rfl fun ps hps =>
      ⟨isOk_requireSchemas (plain?_of_evalList hps), fun f hf => name?_of_requireSchemas hf⟩
  | .tupleOf items => by
    rw [nodes]
    exact (follows_eval items).call rfl fun p _ => ⟨isOk_requireList, fun f hf => name?_of_requireList hf⟩
  | .union options => by
    rw [nodes]
    exact (follows_evalList options).call rfl fun ps hps =>
      ⟨isOk_requireSchemas (plain?_of_evalList hps), fun f hf => name?_of_requireSchemas hf⟩
  | .unionOf options => by
    rw [nodes]
    exact (follows_eval options).call rfl fun p _ => ⟨isOk_requireList, fun f hf => name?_of_requireList hf⟩
  | .optional inner => by
    rw [nodes]
    exact (follows_eval inner).call rfl fun p hp =>
      ⟨isOk_requireSchema (plain?_of_eval hp), fun f hf => name?_of_requireSchema hf⟩
  | .table key value => by
    rw [eval, nodes]
    refine (follows_evalOption key).bind fun k hk => (follows_evalOption value).bind fun v hv =>
      follows_self (by rw [eval, hk, hv]; rfl) ⟨?_, fun f h => ?_⟩
    · rw [isOk_bind_bind_pure, isOk_requireOption (plain?_of_evalOption hk),
        isOk_requireOption (plain?_of_evalOption hv), isProper]
    · rcases bind_eq_error.1 h with h | ⟨k', -, h⟩
      · exact name?_of_requireOption h
      · rcases bind_eq_error.1 h with h | ⟨v', -, h⟩
        · exact name?_of_requireOption h
        · cases h

theorem follows_evalList : ∀ es : List Construction, Follows (evalList es) (nodesIn es)
  | [] => rfl
  | e :: es => by
    rw [evalList, nodesIn]
    refine (follows_eval e).bind fun p _ => ?_
    rw [← List.append_nil (nodesIn es)]
    exact (follows_evalList es).bind fun _ _ => rfl

theorem follows_evalFields : ∀ (es : List (Value × Construction)) (done : KeyTable Part),
    Follows (evalFields done es) (nodesAmong es)
  | [], _ => rfl
  | (k, e) :: es, done => by
    rw [evalFields, nodesAmong]
    exact (follows_eval e).bind fun p _ => follows_evalFields es (done.put k p)

theorem follows_evalOption : ∀ o : Option Construction, Follows (evalOption o) (nodesAt o)
  | none => rfl
  | some e => by
    rw [evalOption, nodesAt, ← List.append_nil (nodes e)]
    exact (follows_eval e).bind fun _ _ => rfl

end

theorem isOk_eval_iff : e.eval.isOk = true ↔ ∀ n ∈ e.nodes, n.isProper = true := by
  have h := follows_eval e
  unfold Follows firstImproper? at h
  split at h
  · next hn => simpa [h] using hn
  · next n hn =>
    obtain ⟨err, -, he⟩ := h
    have hm := List.mem_of_find?_eq_some hn
    have hp := List.find?_some hn
    simp only [he, Except.isOk, Except.toBool, Bool.false_eq_true, false_iff]
    intro hall
    simp [hall n hm] at hp

theorem eval_eq_error_iff {f : DefinitionFailure} :
    e.eval = .error f ↔
      ∃ n, firstImproper? e.nodes = some n ∧ n.eval = .error f ∧ f.name? = n.unwritable? := by
  have h := follows_eval e
  unfold Follows at h
  split at h
  · next hn =>
    cases he : e.eval with
    | ok p => simp [hn]
    | error err => simp [he, Except.isOk, Except.toBool] at h
  · next n hn =>
    obtain ⟨f', hn', hu, he⟩ := h
    simp only [he, hn, Option.some.injEq, exists_eq_left', hn', Except.error.injEq]
    exact ⟨fun hf => ⟨hf, hf ▸ hu⟩, And.left⟩

/-- A tree of calls makes a schema exactly if every call in it is given what it requires. If not, the first call that
is not stops the evaluation with its own error, and with no other problem unless there is a name that this call cannot
write. What calls make of schemas that calls have made, is well-formed at every depth. -/
theorem definition_spec (e : Construction) :
    ((∃ p, e.eval = .ok p ∧ p.plain? = e.plain?) ↔ ∀ n ∈ e.nodes, n.isProper = true) ∧
    (∀ (s : Session) (q : Problem), s.item (.made e) = .error q ↔ ∃ n, firstImproper? e.nodes = some n ∧
      match n.unwritable? with
      | none => ∃ err, n.eval = .error (.refused err) ∧ q = .definition err
      | some name => n.eval = .error (.unwritable name) ∧ q = .broken .unwritable) ∧
    ∀ s, (∀ t ∈ e.given, t.Built) → e.eval = .ok (.schema s) → s.isWellFormed = true := by
  refine ⟨?_, fun s q => ?_, fun s hg h => Schema.isWellFormed_of_built (.made hg h)⟩
  · rw [← isOk_eval_iff]
    cases h : e.eval with
    | ok p => exact ⟨fun _ => rfl, fun _ => ⟨p, rfl, plain?_of_eval h⟩⟩
    | error err => simp [Except.isOk, Except.toBool]
  · have hq : s.item (.made e) = .error q ↔ ∃ f, e.eval = .error f ∧ q = .ofDefinition f := by
      rw [Session.item]
      cases e.eval <;> simp [Except.map, Except.mapError, eq_comm]
    rw [hq]
    constructor
    · rintro ⟨f, he, rfl⟩
      obtain ⟨n, hn, hne, hu⟩ := eval_eq_error_iff.1 he
      refine ⟨n, hn, ?_⟩
      rw [← hu]
      cases f with
      | refused err => exact ⟨err, hne, rfl⟩
      | unwritable name => exact ⟨hne, rfl⟩
    · rintro ⟨n, hn, h⟩
      cases hu : n.unwritable? with
      | none =>
        rw [hu] at h
        obtain ⟨err, hne, rfl⟩ := h
        exact ⟨_, eval_eq_error_iff.2 ⟨n, hn, hne, hu.symm⟩, rfl⟩
      | some name =>
        rw [hu] at h
        obtain ⟨hne, rfl⟩ := h
        exact ⟨_, eval_eq_error_iff.2 ⟨n, hn, hne, hu.symm⟩, rfl⟩

/-- A union of an integer and a leaf of the user's own, under a name that is declared twice, is well-formed. The bytes
that stand for the schemas of a tuple are refused before the name of its field is. -/
theorem definition_spec_object :
    let own : Leaf := ⟨"EvenSchema", fun v => v.isInteger, fun v => "Expected a number, got: " ++ v.label⟩
    let made : Construction := .object [(.str "a", .part (.value .null)),
      (.str "a", .union [.primitive (.kind .integer), .part (.schema (.custom own))])]
    let refused : Construction := .object [(.int 1, .array (.tupleOf (.part (.value (.bytes false [7])))))]
    (∃ s, made.eval = .ok (.schema s) ∧ s.isWellFormed = true) ∧
      ∀ s : Session, s.item (.made refused) =
        .error (.definition (.notASchema (.tupleEntry 0) "int")) := by
  intro own made refused
  constructor
  · have hg : ∀ t ∈ made.given, t.Built := by
      intro t ht
      obtain rfl : t = .custom own := by simpa [made, given, givenFields, givenList] using ht
      exact .custom own
    obtain ⟨p, hp, hn⟩ := (definition_spec made).1.2 (by decide)
    cases p with
    | schema s => exact ⟨s, hp, (definition_spec made).2.2 s hg hp⟩
    | value v => cases hn
  · intro s
    exact ((definition_spec refused).2.1 s _).2 ⟨_, rfl, _, rfl, rfl⟩

theorem eval_long_name {n : Int} (hn : 10 ^ Number.digitLimit ≤ n.natAbs) :
    (object [(.int n, .primitive (.kind .integer))]).eval = .error (.unwritable (.int n)) := by
  have hw : ¬ (Value.int n).isWritable = true := by
    rw [Value.isWritable_int, Number.isWritable_iff]
    exact Nat.not_lt.2 hn
  have hf (p : Part) : requireFields [(.int n, p)] = .error (.unwritable (.int n)) := by
    simp only [requireFields, FieldName.ofValue?, if_neg hw]
  have he : evalFields [] [(.int n, .primitive (.kind .integer))] =
      .ok [(.int n, .schema (.leaf .integer))] := rfl
  rw [eval, he]
  exact bind_eq_error.2 (.inr ⟨_, rfl, bind_eq_error.2 (.inl (hf _))⟩)

/-- A number is no name of a field, but one with too many digits is not refused: the error would show it. -/
theorem definition_long_name :
    let e : Construction := .object [(.int (10 ^ Number.digitLimit), .primitive (.kind .integer))]
    e.isProper = false ∧ ∀ s : Session, s.item (.made e) = .error (.broken .unwritable) := by
  intro e
  refine ⟨rfl, fun s => ?_⟩
  rw [Session.item, eval_long_name (by simp)]
  simp [Except.map, Except.mapError, Problem.ofDefinition]

end Construction

end Conform
