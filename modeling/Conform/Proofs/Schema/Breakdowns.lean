import Conform.Proofs.Schema.Calls
import Conform.Proofs.Value.Abridged
import Conform.Proofs.Value.Equality

/-! When a walk breaks off. It does so for a signaling number, for a progression without a length, and for an integer
with too many digits, and there is always one in the schema or in the value. The calls of a walk lead from a value
without any of them to values without any, and the path of a fault in a short value can be written: its tokens are
names of fields, keys in the value and numbers of elements. -/

namespace Conform

/-- Whether the literals of a schema are free of signaling numbers. -/
def Schema.isQuiet (s : Schema) : Bool :=
  s.everywhere fun
    | .literal expected => expected.isQuiet
    | _ => true

/-- Whether the literals of a schema can be written. -/
def Schema.isShort (s : Schema) : Bool :=
  s.everywhere fun
    | .literal expected => expected.isWritable
    | _ => true

/-- Whether all progressions in a value have a length. -/
def Value.isMeasurable (v : Value) : Bool :=
  v.everywhere fun
    | .range start stop step => rangeLength start stop step ≤ lengthLimit
    | _ => true

theorem Value.hasLength_of_isMeasurable {v : Value} {e : Elements} (hv : v.isMeasurable = true)
    (he : v.elements? = some e) : e.hasLength = true := by
  cases v with
  | seq form xs =>
    obtain rfl := Option.some.inj he
    rfl
  | range start stop step =>
    obtain rfl := Option.some.inj he
    exact here_of_everywhere hv
  | _ => simp [elements?] at he

/-- A value that keeps no walk from a verdict. -/
structure Value.Walkable (v : Value) : Prop where
  quiet : v.isQuiet = true
  measurable : v.isMeasurable = true
  short : v.isShort = true

namespace Value.Walkable

variable {v : Value}

theorem of_mem_elements (h : v.Walkable) {e : Elements} (he : v.elements? = some e) {x : Value}
    (hx : x ∈ e.toList) : x.Walkable :=
  ⟨everywhere_of_mem_elements h.quiet (fun _ => rfl) he x hx,
    everywhere_of_mem_elements h.measurable (fun _ => rfl) he x hx, isShort_of_mem_elements h.short he hx⟩

theorem of_mem_entries (h : v.Walkable) {es : Entries} (he : v.entries? = some es) {e : Value × Value}
    (hm : e ∈ es) : e.1.Walkable ∧ e.2.Walkable :=
  have hq := everywhere_of_mem_entries h.quiet he hm
  have hl := everywhere_of_mem_entries h.measurable he hm
  have hs := everywhere_of_mem_entries h.short he hm
  ⟨⟨hq.1, hl.1, hs.1⟩, hq.2, hl.2, hs.2⟩

theorem of_get? (h : v.Walkable) {es : Entries} (he : v.entries? = some es) {key x : Value}
    (hx : es.get? key = some x) : x.Walkable := by
  obtain ⟨e, hm, -, rfl⟩ := mem_of_get? hx
  exact (h.of_mem_entries he hm).2

end Value.Walkable

/-! Faults that can be written. -/

namespace Fault

@[simp] theorem isWritable_atToken (token : Value) (cause : Cause) :
    (atToken token cause).isWritable = token.isWritable := by
  simp [atToken, mk, isWritable, path, Path.isWritable]

@[simp] theorem isWritable_under (token : Value) (f : Fault) :
    (f.under token).isWritable = (token.isWritable && f.isWritable) := by
  cases f
  simp [under, isWritable, path, Path.isWritable]

end Fault

@[simp] theorem FieldName.isWritable_value (name : FieldName) : name.value.isWritable = true := by
  cases name <;> rfl

/-- The elements of a short sequence have numbers that can be written. -/
theorem Value.isWritable_index {v : Value} {e : Elements} {i : Nat} (hv : v.isShort = true)
    (he : v.elements? = some e) (hi : i ≤ e.toList.length) : (Value.int i).isWritable = true :=
  Number.isWritable_of_le (isWritable_length hv he) (by simpa using hi)

namespace Schema

variable {c : Settings} {d : Nat} {s t : Schema} {v x : Value} {f : Fault} {b : Breakdown}

theorem isWritable_of_child (h : t.child c d x = .rejected f)
    (ih : t.check c (d + 1) x = .rejected f → f.isWritable = true) : f.isWritable = true := by
  rcases enter_eq_rejected_iff.1 h with ⟨-, rfl⟩ | ⟨-, h⟩
  · rfl
  · exact ih h

theorem isWritable_of_rejected : ∀ {d : Nat} {v : Value} {f : Fault}, v.isShort = true →
    s.check c d v = .rejected f → f.isWritable = true := by
  induction s using induction with
  | leaf kind =>
    intro d v f _ h
    obtain ⟨-, shown, -, rfl⟩ := rejected_of_check_leaf h
    rfl
  | literal expected =>
    intro d v f _ h
    obtain ⟨-, shownExpected, shown, -, rfl⟩ := rejected_of_check_literal h
    rfl
  | custom own =>
    intro d v f _ h
    obtain ⟨-, rfl⟩ := rejected_of_check_custom h
    rfl
  | array item ih =>
    intro d v f hv h
    rcases rejected_of_check_array h with ⟨-, rfl⟩ | ⟨e, before, x, after, f', he, hx, -, hf, rfl⟩
    · rfl
    have hi := Value.isWritable_index (i := before.length) hv he (by simp [hx])
    have hx := Value.isShort_of_mem_elements hv he (show x ∈ e.toList by simp [hx])
    rw [Fault.isWritable_under, hi, isWritable_of_child hf (ih hx)]
    rfl
  | tuple items ih =>
    intro d v f hv h
    rcases rejected_of_check_tuple h with
      ⟨-, rfl⟩ | ⟨e, he, ⟨-, -, rfl⟩ | ⟨before, p, after, f', hp, -, hf, rfl⟩⟩
    · rfl
    · rcases Nat.lt_or_ge items.length e.toList.length with hl | hl
      · rw [lengthFault_of_lt hl, Fault.isWritable_atToken]
        exact Value.isWritable_index hv he (Nat.le_of_lt hl)
      · rw [lengthFault_of_le hl, Fault.isWritable_atToken]
        exact Value.isWritable_index hv he (Nat.le_refl _)
    · have hz : (items.zip e.toList).length = before.length + (after.length + 1) := by simp [hp]
      rw [List.length_zip] at hz
      have hi := Value.isWritable_index (i := before.length) hv he (by omega)
      obtain ⟨hm, hx⟩ := List.of_mem_zip (show p ∈ items.zip e.toList by simp [hp])
      rw [Fault.isWritable_under, hi,
        isWritable_of_child hf (ih p.1 hm (Value.isShort_of_mem_elements hv he hx))]
      rfl
  | object fields ih =>
    intro d v f hv h
    rcases rejected_of_check_object h with ⟨-, rfl⟩ | ⟨es, before, g, after, he, hg, -, h⟩
    · rfl
    rcases h with ⟨-, rfl⟩ | ⟨x, f', hx, hf, rfl⟩
    · simp [missing]
    · have hw := isWritable_of_child hf (ih g (by simp [hg]) (Value.everywhere_of_get? hv he hx))
      unfold fieldFault
      split
      · simp [missing]
      · simp [hw]
  | union options ih =>
    intro d v f _ h
    obtain ⟨fs, -, rfl⟩ := rejected_of_check_union h
    rfl
  | optional inner ih =>
    intro d v f hv h
    exact isWritable_of_child (rejected_of_check_optional h).2 (ih hv)
  | table key value ihk ihv =>
    intro d v f hv h
    rcases rejected_of_check_table h with ⟨-, rfl⟩ | ⟨es, before, e, after, he, hes, -, h⟩
    · rfl
    obtain ⟨hk, hx⟩ := Value.everywhere_of_mem_entries hv he (show e ∈ es by simp [hes])
    have hw := Value.isWritable_of_isShort hk
    rcases h with ⟨f', hf, rfl⟩ | ⟨k, -, ⟨f', hf, rfl⟩ | ⟨-, -, rfl⟩⟩
    · cases key with
      | none => simp [checkPart_none] at hf
      | some t =>
        rw [checkPart_some] at hf
        rw [Fault.isWritable_under, hw, isWritable_of_child hf (ihk t rfl hk)]
        rfl
    · cases value with
      | none => simp [checkPart_none] at hf
      | some t =>
        rw [checkPart_some] at hf
        rw [Fault.isWritable_under, hw, isWritable_of_child hf (ihv t rfl hx)]
        rfl
    · rw [Fault.isWritable_atToken, hw]

/-! What the calls lead to. -/

theorem Calls.isQuiet (h : s.Calls c d v t x) (hv : v.isQuiet = true) : x.isQuiet = true :=
  h.everywhere (fun _ => rfl) hv

theorem Calls.isMeasurable (h : s.Calls c d v t x) (hv : v.isMeasurable = true) : x.isMeasurable = true :=
  h.everywhere (fun _ => rfl) hv

theorem Calls.isShort (h : s.Calls c d v t x) (hv : v.isShort = true) : x.isShort = true := by
  cases h with
  | item he hx => exact Value.isShort_of_mem_elements hv he (mem_of_comesTo hx)
  | position he _ hx =>
    exact Value.isShort_of_mem_elements hv he (List.of_mem_zip (mem_of_comesTo hx)).2
  | field he _ hx => exact Value.everywhere_of_get? hv he hx
  | option => exact hv
  | inner => exact hv
  | key he hm => exact (Value.everywhere_of_mem_entries hv he (mem_of_comesTo hm)).1
  | value he hm _ => exact (Value.everywhere_of_mem_entries hv he (mem_of_comesTo hm)).2

/-! The causes. -/

/-- What keeps a walk from breaking off for a cause, in the schema and in the value. -/
def Avoids (s : Schema) (v : Value) : Breakdown → Prop
  | .signaling => s.isQuiet = true ∧ v.isQuiet = true
  | .oversized => v.isMeasurable = true
  | .unwritable => s.isShort = true ∧ v.isShort = true

theorem Calls.avoids (h : s.Calls c d v t x) (ha : s.Avoids v b) : t.Avoids x b := by
  cases b with
  | signaling => exact ⟨everywhere_of_mem_parts ha.1 h.mem_parts, h.isQuiet ha.2⟩
  | oversized => exact h.isMeasurable ha
  | unwritable => exact ⟨everywhere_of_mem_parts ha.1 h.mem_parts, h.isShort ha.2⟩

theorem exists_describe (hv : v.isWritable = true) (limit : Int) : ∃ shown, describe v limit = some shown :=
  Option.isSome_iff_exists.1 (isSome_describe hv)

theorem leafCause_ne_none {kind : Kind} (hv : v.isWritable = true) : leafCause c kind v ≠ none := by
  obtain ⟨shown, hs⟩ := exists_describe hv c.reprLimit
  unfold leafCause
  split <;> simp [hs]

theorem literalCause_ne_none {expected : Value} (he : expected.isWritable = true)
    (hv : v.isWritable = true) : literalCause c expected v ≠ none := by
  obtain ⟨shown, hs⟩ := exists_describe hv c.reprLimit
  obtain ⟨shownExpected, hse⟩ := exists_describe he c.reprLimit
  simp [literalCause, hs, hse]

theorem not_breaks (ha : s.Avoids v b) : ¬ s.Breaks c d v b := by
  intro h
  cases h with
  | signaling _ he =>
    have hsome := Value.isSome_equal? ha.2 (here_of_everywhere ha.1)
    simp [he] at hsome
  | oversized he hl => simp [Value.hasLength_of_isMeasurable ha he] at hl
  | leaf _ hc => exact leafCause_ne_none (Value.isWritable_of_isShort ha.2) hc
  | literal _ hc =>
    exact literalCause_ne_none (here_of_everywhere ha.1) (Value.isWritable_of_isShort ha.2) hc
  | option _ hf hw =>
    simp [isWritable_of_child hf (isWritable_of_rejected ha.2)] at hw

theorem check_ne_broken : ∀ {d : Nat} {v : Value}, s.Avoids v b → s.check c d v ≠ .broken b := by
  induction s using parts_induction with
  | step s ih =>
    intro d v ha h
    rcases check_eq_broken_iff.1 h with hb | ⟨t, x, hc, hb⟩
    · exact not_breaks ha hb
    · exact ih t hc.mem_parts (hc.avoids ha) (enter_eq_broken_iff.1 hb).2

/-- Without signaling numbers and progressions without a length, only an integer with too many digits is left. -/
theorem eq_unwritable_of_broken (hs : s.isQuiet = true) (hv : v.isQuiet = true) (hm : v.isMeasurable = true)
    (h : s.check c d v = .broken b) : b = .unwritable := by
  cases b with
  | signaling => exact absurd h (check_ne_broken (b := .signaling) ⟨hs, hv⟩)
  | oversized => exact absurd h (check_ne_broken (b := .oversized) hm)
  | unwritable => rfl

theorem check_ne_unwritable (hs : s.isShort = true) (hv : v.isShort = true) :
    s.check c d v ≠ .broken .unwritable :=
  check_ne_broken (b := .unwritable) ⟨hs, hv⟩

/-- A leaf cannot show a long integer that it refuses. -/
theorem check_string_long {n : Int} (hn : 10 ^ Number.digitLimit ≤ n.natAbs) :
    (leaf .string).check c d (.int n) = .broken .unwritable :=
  check_leaf_eq_broken_iff.2 ⟨rfl, by simp [leafCause, describe_int_eq_none_iff.2 hn], rfl⟩

/-- A union does not get past an option that would have to show a long integer. -/
theorem validate_union_long {n : Int} (hn : 10 ^ Number.digitLimit ≤ n.natAbs) {options : List Schema} :
    (union (leaf .string :: options)).validate {} (.int n) = .broken .unwritable := by
  have h : (leaf .string).child {} 0 (.int n) = .broken .unwritable := by
    rw [child_eq_check (by decide)]
    exact check_string_long hn
  exact check_eq_broken_iff.2 (.inr ⟨.leaf .string, _, .option (.inl rfl), h⟩)

/-- A schema that keeps no walk from a verdict. -/
structure Walkable (s : Schema) : Prop where
  quiet : s.isQuiet = true
  short : s.isShort = true

theorem Walkable.of_mem_parts (h : s.Walkable) (ht : t ∈ s.parts) : t.Walkable :=
  ⟨everywhere_of_mem_parts h.quiet ht, everywhere_of_mem_parts h.short ht⟩

theorem check_ne_broken_of_walkable (hs : s.Walkable) (hv : v.Walkable) : s.check c d v ≠ .broken b :=
  check_ne_broken <| match b with
    | .signaling => ⟨hs.quiet, hv.quiet⟩
    | .oversized => hv.measurable
    | .unwritable => ⟨hs.short, hv.short⟩

/-- Validation gives a verdict, or it breaks off for a cause that is there: a signaling number in a literal of the
schema or in the value, a progression in the value that has no length, or an integer with too many digits. -/
theorem validate_cases (s : Schema) (c : Settings) (v : Value) :
    (∃ w, s.validate c v = .accepted w) ∨ (∃ f, s.validate c v = .rejected f) ∨
      (s.validate c v = .broken .signaling ∧ ¬ (s.isQuiet = true ∧ v.isQuiet = true)) ∨
      (s.validate c v = .broken .oversized ∧ ¬ v.isMeasurable = true) ∨
      (s.validate c v = .broken .unwritable ∧ ¬ (s.isShort = true ∧ v.isShort = true)) := by
  cases h : s.validate c v with
  | accepted w => exact .inl ⟨w, rfl⟩
  | rejected f => exact .inr (.inl ⟨f, rfl⟩)
  | broken b =>
    have ha : ¬ s.Avoids v b := fun ha => check_ne_broken ha h
    cases b with
    | signaling => exact .inr (.inr (.inl ⟨rfl, ha⟩))
    | oversized => exact .inr (.inr (.inr (.inl ⟨rfl, ha⟩)))
    | unwritable => exact .inr (.inr (.inr (.inr ⟨rfl, ha⟩)))

theorem validate_without_verdict :
    let s : Schema := .union [.literal (.decimal (.nan false true none)), .leaf .any]
    let t : Schema := .union [.tuple [.leaf .integer], .leaf .any]
    s.validate {} (.decimal (.nan false true none)) = .broken .signaling ∧
      t.validate {} (.range 0 (2 ^ 63) 1) = .broken .oversized ∧
      (leaf .string).validate {} (.int (10 ^ Number.digitLimit)) = .broken .unwritable := by
  intro s t
  exact ⟨by rfl, by rfl, check_string_long (by simp)⟩

end Schema

end Conform
