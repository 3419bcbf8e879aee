import Conform.Proofs.Schema.Calls
import Conform.Proofs.Schema.Faults

/-! Only what remains of the depth matters. Two walks that have equally many levels left come to the same, but for the
limit that the faults quote which tell of it. So a schema gives inside another one what it gives by itself under a
limit that is smaller by its level.

At a schema two walks come to the same if their steps into the parts do. This holds also for two schemas of the same
form, whatever their parts are. -/

namespace Conform

/-- Whether two faults tell the same, but for the limits `l` and `l'` that they quote where they tell of the limit:
they stand at the same path and have the same cause, but the limit, and the faults of the options of a union tell the
same in step. The messages are those of the causes. -/
inductive Fault.Alike (l l' : Int) : Fault → Fault → Prop
  | same {cause : Cause} {path : Path} : cause.faultClass ≠ .depthLimit → cause.faultClass ≠ .unionExhausted →
      Alike l l' (.mk cause path none) (.mk cause path none)
  | tooDeep {path : Path} : Alike l l' (.mk (.tooDeep l) path none) (.mk (.tooDeep l') path none)
  | exhausted {rs rs' : List (Int × Fault)} {path : Path} : rs.map (·.1) = rs'.map (·.1) →
      (∀ p ∈ rs.zip rs', Alike l l' p.1.2 p.2.2) →
      Alike l l' (.mk (.exhausted rs) path none) (.mk (.exhausted rs') path none)

/-- Whether two outcomes are the same, but for the limits that their faults quote. -/
inductive Outcome.Alike {α : Type} (l l' : Int) : Outcome α → Outcome α → Prop
  | accepted (a : α) : Alike l l' (.accepted a) (.accepted a)
  | rejected {f f' : Fault} : f.Alike l l' f' → Alike l l' (.rejected f) (.rejected f')
  | broken (b : Breakdown) : Alike l l' (.broken b) (.broken b)

variable {l l' : Int}

namespace Fault.Alike

variable {f f' : Fault}

/-- A fault that tells neither of the limit nor of options is like itself. -/
theorem plain {cause : Cause} {path : Path} (hd : (cause.faultClass == .depthLimit) = false)
    (hu : (cause.faultClass == .unionExhausted) = false) :
    Alike l l' (.mk cause path none) (.mk cause path none) :=
  .same (ne_of_beq_false hd) (ne_of_beq_false hu)

theorem under (h : f.Alike l l' f') (token : Value) : (f.under token).Alike l l' (f'.under token) := by
  cases h with
  | same hd hu => exact .same hd hu
  | tooDeep => exact .tooDeep
  | exhausted hn hs => exact .exhausted hn hs

theorem faultClass_eq (h : f.Alike l l' f') : f.faultClass = f'.faultClass := by
  cases h <;> rfl

theorem isWritable_eq (h : f.Alike l l' f') : f.isWritable = f'.isWritable := by
  cases h <;> rfl

theorem fieldFault (h : f.Alike l l' f') (name : FieldName) (v : Value) :
    (Conform.fieldFault name v f).Alike l l' (Conform.fieldFault name v f') := by
  unfold Conform.fieldFault
  rw [← h.faultClass_eq]
  split
  · exact .plain rfl rfl
  · exact h.under name.value

/-- With the same limit they are the same. -/
theorem eq (h : f.Alike l l f') : f = f' := by
  induction h with
  | same => rfl
  | tooDeep => rfl
  | @exhausted rs rs' _ hn _ ih =>
    have hn := map_eq_map_iff_forall₂.1 hn
    have hs : List.Forall₂ (fun r r' => r.2 = r'.2) rs rs' :=
      List.forall₂_iff_zip.2 ⟨hn.length_eq, fun hm => ih _ hm⟩
    have hr := (forall₂_and hn hs).imp fun _ _ h => Prod.ext h.1 h.2
    rw [List.forall₂_eq_eq_eq] at hr
    rw [hr]

/-- The faults of unions whose options reject in step. -/
theorem here_exhausted {rs rs' : List (Int × Fault)}
    (h : List.Forall₂ (fun r r' => r.1 = r'.1 ∧ r.2.Alike l l' r'.2) rs rs') :
    (Fault.here (.exhausted rs)).Alike l l' (.here (.exhausted rs')) := by
  have hn := map_eq_map_iff_forall₂.2 (h.imp fun _ _ hr => hr.1)
  exact .exhausted hn fun p hp => (List.forall₂_zip h hp).2

end Fault.Alike

namespace Outcome.Alike

variable {α β : Type} {o o' : Outcome α}

theorem cases (h : o.Alike l l' o') : (∃ a, o = .accepted a ∧ o' = .accepted a) ∨
    (∃ f f', o = .rejected f ∧ o' = .rejected f' ∧ f.Alike l l' f') ∨
    ∃ b, o = .broken b ∧ o' = .broken b := by
  cases h with
  | accepted a => exact .inl ⟨a, rfl, rfl⟩
  | rejected hf => exact .inr (.inl ⟨_, _, rfl, rfl, hf⟩)
  | broken b => exact .inr (.inr ⟨b, rfl, rfl⟩)

theorem map (h : o.Alike l l' o') (g : α → β) : (o.map g).Alike l l' (o'.map g) := by
  cases h with
  | accepted a => exact .accepted (g a)
  | rejected hf => exact .rejected hf
  | broken b => exact .broken b

theorem eq (h : o.Alike l l o') : o = o' := by
  cases h with
  | accepted => rfl
  | rejected hf => rw [hf.eq]
  | broken => rfl

end Outcome.Alike

/-! The loops of a walk. -/

theorem alike_checkItems {g g' : Value → Verdict} (h : ∀ v, (g v).Alike l l' (g' v)) {i : Nat} {vs : List Value} :
    (checkItems g i vs).Alike l l' (checkItems g' i vs) := by
  induction vs generalizing i with
  | nil => exact .accepted []
  | cons v vs ih =>
    rw [checkItems, checkItems]
    rcases (h v).cases with ⟨w, hw, hw'⟩ | ⟨f, f', hf, hf', ha⟩ | ⟨b, hb, hb'⟩
    · simp only [hw, hw']
      exact ih.map (w :: ·)
    · simp only [hf, hf']
      exact .rejected (ha.under _)
    · simp only [hb, hb']
      exact .broken b

theorem alike_checkEntries {key key' value value' : Value → Verdict} (hk : ∀ v, (key v).Alike l l' (key' v))
    (hv : ∀ v, (value v).Alike l l' (value' v)) {done es : Entries} :
    (checkEntries key value done es).Alike l l' (checkEntries key' value' done es) := by
  induction es generalizing done with
  | nil => exact .accepted done
  | cons e es ih =>
    obtain ⟨k, v⟩ := e
    rw [checkEntries, checkEntries]
    rcases (hk k).cases with ⟨x, hx, hx'⟩ | ⟨f, f', hf, hf', ha⟩ | ⟨b, hb, hb'⟩
    · simp only [hx, hx']
      rcases (hv v).cases with ⟨w, hw, hw'⟩ | ⟨f, f', hf, hf', ha⟩ | ⟨b, hb, hb'⟩
      · simp only [hw, hw']
        split
        · exact ih
        · exact .rejected (.plain rfl rfl)
      · simp only [hf, hf']
        exact .rejected (ha.under k)
      · simp only [hb, hb']
        exact .broken b
    · simp only [hf, hf']
      exact .rejected (ha.under k)
    · simp only [hb, hb']
      exact .broken b

namespace Schema

variable {c c' : Settings} {d d' : Nat}

/-- Whether the steps from one schema and from the other come to the same with every value. -/
def ChildrenAlike (l l' : Int) (c c' : Settings) (d d' : Nat) (t t' : Schema) : Prop :=
  ∀ x, (t.child c d x).Alike l l' (t'.child c' d' x)

theorem alike_checkFields {fields fields' : List (FieldName × Schema)}
    (h : List.Forall₂ (fun f f' => f.1 = f'.1 ∧ ChildrenAlike l l' c c' d d' f.2 f'.2) fields fields')
    (es : Entries) : (checkFields c fields d es).Alike l l' (checkFields c' fields' d' es) := by
  induction h with
  | nil =>
    rw [checkFields, checkFields]
    exact .accepted []
  | @cons g g' fields fields' hg _ ih =>
    obtain ⟨name, t⟩ := g
    obtain ⟨name', t'⟩ := g'
    obtain ⟨rfl, hg⟩ := hg
    rw [checkFields, checkFields]
    cases hx : es.get? name.value with
    | none => exact .rejected (.plain rfl rfl)
    | some x =>
      rcases (hg x).cases with ⟨w, hw, hw'⟩ | ⟨f, f', hf, hf', ha⟩ | ⟨b, hb, hb'⟩
      · simp only [hw, hw']
        exact ih.map ((name.value, w) :: ·)
      · simp only [hf, hf']
        exact .rejected (ha.fieldFault name x)
      · simp only [hb, hb']
        exact .broken b

theorem alike_checkPositions {items items' : List Schema}
    (h : List.Forall₂ (ChildrenAlike l l' c c' d d') items items') {i : Nat} {vs : List Value} :
    (checkPositions c items d i vs).Alike l l' (checkPositions c' items' d' i vs) := by
  induction h generalizing i vs with
  | nil =>
    cases vs with
    | nil =>
      rw [checkPositions, checkPositions]
      exact .accepted []
    | cons v vs =>
      rw [checkPositions, checkPositions]
      exact .rejected (.plain rfl rfl)
  | cons ht _ ih =>
    cases vs with
    | nil =>
      rw [checkPositions, checkPositions]
      exact .rejected (.plain rfl rfl)
    | cons v vs =>
      rw [checkPositions, checkPositions]
      rcases (ht v).cases with ⟨w, hw, hw'⟩ | ⟨f, f', hf, hf', ha⟩ | ⟨b, hb, hb'⟩
      · simp only [hw, hw']
        exact ih.map (w :: ·)
      · simp only [hf, hf']
        exact .rejected (ha.under _)
      · simp only [hb, hb']
        exact .broken b

theorem alike_checkOptions {options options' : List Schema}
    (h : List.Forall₂ (ChildrenAlike l l' c c' d d') options options') {v : Value} {i : Nat}
    {rs rs' : List (Int × Fault)}
    (hr : List.Forall₂ (fun r r' => r.1 = r'.1 ∧ r.2.Alike l l' r'.2) rs rs') :
    (checkOptions c options d v i rs).Alike l l' (checkOptions c' options' d' v i rs') := by
  induction h generalizing i rs rs' with
  | nil =>
    rw [checkOptions, checkOptions]
    exact .rejected (.here_exhausted hr)
  | cons ht _ ih =>
    rw [checkOptions, checkOptions]
    rcases (ht v).cases with ⟨w, hw, hw'⟩ | ⟨f, f', hf, hf', ha⟩ | ⟨b, hb, hb'⟩
    · simp only [hw, hw']
      exact .accepted w
    · simp only [hf, hf', ← ha.isWritable_eq]
      split
      · exact ih (List.rel_append hr (.cons ⟨rfl, ha⟩ .nil))
      · exact .broken .unwritable
    · simp only [hb, hb']
      exact .broken b

theorem alike_checkPart {part part' : Option Schema} (h : Option.Rel (ChildrenAlike l l' c c' d d') part part')
    (x : Value) : (checkPart c part d x).Alike l l' (checkPart c' part' d' x) := by
  cases h with
  | none =>
    rw [checkPart_none, checkPart_none]
    exact .accepted x
  | some ht =>
    rw [checkPart_some, checkPart_some]
    exact ht x

/-- Whether two schemas have the same form, and their parts are related in step. -/
inductive SameForm (R : Schema → Schema → Prop) : Schema → Schema → Prop
  | leaf (kind : Kind) : SameForm R (.leaf kind) (.leaf kind)
  | literal (expected : Value) : SameForm R (.literal expected) (.literal expected)
  | custom (own : Leaf) : SameForm R (.custom own) (.custom own)
  | array {item item' : Schema} : R item item' → SameForm R (.array item) (.array item')
  | tuple {items items' : List Schema} : List.Forall₂ R items items' → SameForm R (.tuple items) (.tuple items')
  | object {fields fields' : List (FieldName × Schema)} :
      List.Forall₂ (fun f f' => f.1 = f'.1 ∧ R f.2 f'.2) fields fields' →
      SameForm R (.object fields) (.object fields')
  | union {options options' : List Schema} : List.Forall₂ R options options' →
      SameForm R (.union options) (.union options')
  | optional {inner inner' : Schema} : R inner inner' → SameForm R (.optional inner) (.optional inner')
  | table {key key' value value' : Option Schema} : Option.Rel R key key' → Option.Rel R value value' →
      SameForm R (.table key value) (.table key' value')

theorem SameForm.refl {R : Schema → Schema → Prop} {s : Schema} (h : ∀ t ∈ s.parts, R t t) : SameForm R s s := by
  cases s with
  | leaf kind => exact .leaf kind
  | literal expected => exact .literal expected
  | custom own => exact .custom own
  | array item => exact .array (h item item_mem_parts)
  | tuple items => exact .tuple (List.forall₂_same.2 h)
  | object fields => exact .object (List.forall₂_same.2 fun f hf => ⟨rfl, h f.2 (field_mem_parts hf)⟩)
  | union options => exact .union (List.forall₂_same.2 h)
  | optional inner => exact .optional (h inner inner_mem_parts)
  | table key value =>
    have part_rel {part : Option Schema} (hp : ∀ t ∈ part, R t t) : Option.Rel R part part := by
      cases part with
      | none => exact .none
      | some t => exact .some (hp t rfl)
    exact .table (part_rel fun t ht => h t (key_mem_parts ht)) (part_rel fun t ht => h t (value_mem_parts ht))

theorem undeclared_congr {fields fields' : List (FieldName × Schema)}
    (h : List.Forall₂ (fun f f' => f.1 = f'.1) fields fields') (es : Entries) :
    undeclared fields es = undeclared fields' es := by
  have any_eq (k : Value) : (fields.any fun f => k.same f.1.value) = fields'.any fun f => k.same f.1.value := by
    induction h with
    | nil => rfl
    | cons hf _ ih => rw [List.any_cons, List.any_cons, ih, hf]
  unfold undeclared
  simp only [any_eq]

theorem alike_refuse {cause : Option Cause}
    (h : ∀ a, cause = some a → a.faultClass ≠ .depthLimit ∧ a.faultClass ≠ .unionExhausted) :
    (refuse cause).Alike l l' (refuse cause) := by
  cases cause with
  | none => exact .broken .unwritable
  | some a => exact .rejected (.same (h a rfl).1 (h a rfl).2)

theorem alike_refuse_leaf (hr : c'.reprLimit = c.reprLimit) (kind : Kind) (v : Value) :
    (refuse (leafCause c kind v)).Alike l l' (refuse (leafCause c' kind v)) := by
  rw [show leafCause c' kind v = leafCause c kind v by rw [leafCause, leafCause, hr]]
  refine alike_refuse fun a ha => ?_
  obtain ⟨shown, -, rfl⟩ := leafCause_eq_some_iff.1 ha
  exact ⟨by simp [Cause.faultClass], by simp [Cause.faultClass]⟩

theorem alike_refuse_literal (hr : c'.reprLimit = c.reprLimit) (expected v : Value) :
    (refuse (literalCause c expected v)).Alike l l' (refuse (literalCause c' expected v)) := by
  rw [show literalCause c' expected v = literalCause c expected v by rw [literalCause, literalCause, hr]]
  refine alike_refuse fun a ha => ?_
  obtain ⟨shownExpected, shown, -, -, rfl⟩ := literalCause_eq_some_iff.1 ha
  exact ⟨by simp [Cause.faultClass], by simp [Cause.faultClass]⟩

/-- Two schemas of the same form come to the same if the steps into their parts do. -/
theorem alike_check (hr : c'.reprLimit = c.reprLimit) {s s' : Schema}
    (h : SameForm (ChildrenAlike l l' c c' d d') s s') (v : Value) :
    (s.check c d v).Alike l l' (s'.check c' d' v) := by
  cases h with
  | leaf kind =>
    rw [check_leaf, check_leaf]
    split
    · exact .accepted v
    · exact alike_refuse_leaf hr kind v
  | literal expected =>
    rw [check_literal, check_literal]
    split
    · cases v.equal? expected with
      | none => exact .broken .signaling
      | some b => cases b with
        | true => exact .accepted v
        | false => exact alike_refuse_literal hr expected v
    · exact alike_refuse_literal hr expected v
  | custom own =>
    rw [check_custom, check_custom, Leaf.check]
    split
    · exact .accepted v
    · exact .rejected (.plain rfl rfl)
  | array ht =>
    rw [check_array, check_array]
    cases v.elements? with
    | none => exact .rejected (.plain rfl rfl)
    | some e =>
      simp only [checkElements_eq]
      exact (alike_checkItems ht).map _
  | tuple hs =>
    rw [check_tuple, check_tuple]
    cases v.elements? with
    | none => exact .rejected (.plain rfl rfl)
    | some e =>
      simp only [hs.length_eq]
      split
      · exact (alike_checkPositions hs).map _
      · exact .broken .oversized
  | object hs =>
    rw [check_object, check_object]
    cases v.entries? with
    | none => exact .rejected (.plain rfl rfl)
    | some es =>
      simp only [undeclared_congr (hs.imp fun _ _ h => h.1)]
      exact (alike_checkFields hs es).map _
  | union hs =>
    rw [check_union, check_union]
    exact alike_checkOptions hs .nil
  | optional ht =>
    rw [check_optional, check_optional]
    split
    · exact .accepted _
    · exact ht v
  | @table key key' value value' hk hv =>
    have isNone_eq {part part' : Option Schema} (hp : Option.Rel (ChildrenAlike l l' c c' d d') part part') :
        part.isNone = part'.isNone := by
      cases hp <;> rfl
    rw [check_table, check_table]
    cases v.entries? with
    | none => exact .rejected (.plain rfl rfl)
    | some es =>
      simp only [isNone_eq hk, isNone_eq hv]
      split
      · exact .accepted v
      · exact (alike_checkEntries (alike_checkPart hk) (alike_checkPart hv)).map _

/-- Two walks of a schema that have equally many levels left come to the same. -/
theorem alike_check_of_remaining (s : Schema) (c c' : Settings) {d d' : Nat} (hr : c'.reprLimit = c.reprLimit)
    (hd : c'.depthLimit - d' = c.depthLimit - d) (v : Value) :
    (s.check c d v).Alike c.depthLimit c'.depthLimit (s.check c' d' v) := by
  induction s using parts_induction generalizing d d' v with
  | step s ih =>
    refine alike_check hr (.refl fun t ht x => ?_) v
    unfold child enter
    by_cases h : c.depthLimit ≤ d
    · rw [if_pos h, if_pos (by omega)]
      exact .rejected .tooDeep
    · rw [if_neg h, if_neg (by omega)]
      exact ih t ht (by omega) x

end Schema

end Conform
