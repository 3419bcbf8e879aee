import Conform.Proofs.Schema.Walk

/-! The forms of schema, one by one: when the walk accepts, rejects and breaks off, by what its steps into
the parts do. Where no option of a union breaks off, what a schema accepts depends on what its parts accept,
in no order. -/

namespace Conform.Schema

variable {c : Settings} {d : Nat} {v w : Value} {f : Fault} {b : Breakdown}

/-! The equation of each form, through which alone the walk is unfolded in what follows. -/

theorem check_leaf {kind : Kind} :
    (leaf kind).check c d v = if kind.admits v then .accepted v else refuse (leafCause c kind v) := rfl

theorem check_custom {own : Leaf} : (custom own).check c d v = own.check v := rfl

theorem check_literal {expected : Value} :
    (literal expected).check c d v =
      if v.type = expected.type then
        match v.equal? expected with
        | some true => .accepted v
        | some false => refuse (literalCause c expected v)
        | none => .broken .signaling
      else refuse (literalCause c expected v) := rfl

theorem check_array {item : Schema} :
    (array item).check c d v =
      match v.elements? with
      | some e => (checkElements (item.child c d) e).map .list
      | none => .rejected (.here (.wrongContainer .array v.label)) := rfl

theorem check_tuple {items : List Schema} :
    (tuple items).check c d v =
      match v.elements? with
      | some e =>
        if e.hasLength then (checkPositions c items d 0 (e.take (items.length + 1))).map .list
        else .broken .oversized
      | none => .rejected (.here (.wrongContainer .tuple v.label)) := rfl

theorem check_object {fields : List (FieldName × Schema)} :
    (object fields).check c d v =
      match v.entries? with
      | some es => (checkFields c fields d es).map fun done => .dict (done ++ undeclared fields es)
      | none => .rejected (.here (.wrongContainer .object v.label)) := rfl

theorem check_union {options : List Schema} :
    (union options).check c d v = checkOptions c options d v 0 [] := rfl

theorem check_optional {inner : Schema} :
    (optional inner).check c d v = if v.isNull then .accepted .null else inner.child c d v := rfl

theorem check_table {key value : Option Schema} :
    (table key value).check c d v =
      match v.entries? with
      | some es =>
        if key.isNone && value.isNone then .accepted v
        else (checkEntries (checkPart c key d) (checkPart c value d) [] es).map .dict
      | none => .rejected (.here (.wrongContainer .table v.label)) := rfl

/-! Leaves. -/

theorem check_leaf_eq_accepted_iff {kind : Kind} :
    (leaf kind).check c d v = .accepted w ↔ kind.admits v = true ∧ w = v := by
  rw [check_leaf]
  split <;> simp [*, eq_comm]

theorem isAccepted_check_leaf_iff {kind : Kind} :
    ((leaf kind).check c d v).isAccepted = true ↔ kind.admits v = true := by
  simp only [Outcome.isAccepted_iff, check_leaf_eq_accepted_iff, exists_and_left, exists_eq, and_true]

theorem rejected_of_check_leaf {kind : Kind} (h : (leaf kind).check c d v = .rejected f) :
    kind.admits v = false ∧
      ∃ shown, leafCause c kind v = some (.wrongKind kind shown) ∧ f = .here (.wrongKind kind shown) := by
  rw [check_leaf] at h
  split at h
  · cases h
  · next hk =>
    obtain ⟨cause, hc, rfl⟩ := refuse_eq_rejected_iff.1 h
    obtain ⟨shown, -, rfl⟩ := leafCause_eq_some_iff.1 hc
    exact ⟨Bool.eq_false_iff.2 hk, shown, hc, rfl⟩

theorem check_leaf_eq_broken_iff {kind : Kind} :
    (leaf kind).check c d v = .broken b ↔
      kind.admits v = false ∧ leafCause c kind v = none ∧ b = .unwritable := by
  rw [check_leaf]
  split <;> simp [*]

/-! Leaves of the user's own. -/

theorem check_custom_eq_accepted_iff {own : Leaf} :
    (custom own).check c d v = .accepted w ↔ own.takes v = true ∧ w = v := by
  rw [check_custom, Leaf.check]
  split <;> simp [*, eq_comm]

theorem isAccepted_check_custom_iff {own : Leaf} :
    ((custom own).check c d v).isAccepted = true ↔ own.takes v = true := by
  simp only [Outcome.isAccepted_iff, check_custom_eq_accepted_iff, exists_and_left, exists_eq, and_true]

theorem rejected_of_check_custom {own : Leaf} (h : (custom own).check c d v = .rejected f) :
    own.takes v = false ∧ f = .here (.stated .validation (own.refusal v)) := by
  rw [check_custom, Leaf.check] at h
  split at h
  · cases h
  · next ht => exact ⟨Bool.eq_false_iff.2 ht, (Outcome.rejected.inj h).symm⟩

theorem check_custom_ne_broken {own : Leaf} : (custom own).check c d v ≠ .broken b := by
  rw [check_custom, Leaf.check]
  split <;> simp

/-! Literals. -/

theorem check_literal_eq_accepted_iff {expected : Value} :
    (literal expected).check c d v = .accepted w ↔
      v.type = expected.type ∧ v.equal? expected = some true ∧ w = v := by
  rw [check_literal]
  split
  · next ht =>
    cases he : v.equal? expected with
    | none => simp
    | some b => cases b <;> simp [ht, eq_comm]
  · next ht => simp [ht]

theorem isAccepted_check_literal_iff {expected : Value} :
    ((literal expected).check c d v).isAccepted = true ↔
      v.type = expected.type ∧ v.equal? expected = some true := by
  simp only [Outcome.isAccepted_iff, check_literal_eq_accepted_iff, exists_and_left, exists_eq, and_true]

theorem rejected_of_check_literal {expected : Value}
    (h : (literal expected).check c d v = .rejected f) :
    (v.type = expected.type → v.equal? expected = some false) ∧
      ∃ shownExpected shown, literalCause c expected v = some (.notLiteral expected shownExpected shown) ∧
        f = .here (.notLiteral expected shownExpected shown) := by
  have refused (hr : refuse (literalCause c expected v) = .rejected f) :
      ∃ shownExpected shown, literalCause c expected v = some (.notLiteral expected shownExpected shown) ∧
        f = .here (.notLiteral expected shownExpected shown) := by
    obtain ⟨cause, hc, rfl⟩ := refuse_eq_rejected_iff.1 hr
    obtain ⟨shownExpected, shown, -, -, rfl⟩ := literalCause_eq_some_iff.1 hc
    exact ⟨shownExpected, shown, hc, rfl⟩
  rw [check_literal] at h
  split at h
  · split at h
    · cases h
    · next he => exact ⟨fun _ => he, refused h⟩
    · cases h
  · next ht => exact ⟨fun hv => absurd hv ht, refused h⟩

theorem check_literal_eq_broken_iff {expected : Value} :
    (literal expected).check c d v = .broken b ↔
      (v.type = expected.type ∧ v.equal? expected = none ∧ b = .signaling) ∨
        ((v.type = expected.type → v.equal? expected = some false) ∧
          literalCause c expected v = none ∧ b = .unwritable) := by
  rw [check_literal]
  split
  · next ht =>
    cases he : v.equal? expected with
    | none => simp [ht, eq_comm]
    | some same => cases same <;> simp [ht]
  · next ht => simp [ht]

/-! Arrays. -/

theorem check_array_eq_accepted_iff {item : Schema} :
    (array item).check c d v = .accepted w ↔
      ∃ e ws, v.elements? = some e ∧
        List.Forall₂ (fun x y => item.child c d x = .accepted y) e.toList ws ∧ w = .list ws := by
  rw [check_array]
  cases he : v.elements? with
  | none => simp
  | some e => simp [checkElements_eq, checkItems_eq_accepted_iff, @eq_comm _ w]

theorem isAccepted_check_array_iff {item : Schema} :
    ((array item).check c d v).isAccepted = true ↔
      ∃ e, v.elements? = some e ∧ ∀ x ∈ e.toList, (item.child c d x).isAccepted = true := by
  simp only [Outcome.isAccepted_iff, check_array_eq_accepted_iff, ← exists_forall₂_iff]
  refine ⟨fun h => ?_, fun h => ?_⟩
  · obtain ⟨_, e, ws, he, hws, -⟩ := h
    exact ⟨e, he, ws, hws⟩
  · obtain ⟨e, he, ws, hws⟩ := h
    exact ⟨_, e, ws, he, hws, rfl⟩

theorem rejected_of_check_array {item : Schema} (h : (array item).check c d v = .rejected f) :
    (v.elements? = none ∧ f = .here (.wrongContainer .array v.label)) ∨
      ∃ e before x after f', v.elements? = some e ∧ e.toList = before ++ x :: after ∧
        (∀ y ∈ before, (item.child c d y).isAccepted = true) ∧ item.child c d x = .rejected f' ∧
        f = f'.under (.int ↑before.length) := by
  rw [check_array] at h
  cases he : v.elements? with
  | none =>
    simp only [he, Outcome.rejected.injEq] at h
    exact .inl ⟨rfl, h.symm⟩
  | some e =>
    simp only [he, Outcome.map_eq_rejected_iff, checkElements_eq] at h
    obtain ⟨before, x, after, f', hx, hb, hr, rfl⟩ := rejected_of_checkItems h
    exact .inr ⟨e, before, x, after, f', rfl, hx, hb, hr, by rw [Nat.zero_add]⟩

theorem check_array_eq_broken_iff {item : Schema} :
    (array item).check c d v = .broken b ↔
      ∃ e x, v.elements? = some e ∧
        ComesTo (fun y => (item.child c d y).isAccepted = true) e.toList x ∧
        item.child c d x = .broken b := by
  rw [check_array]
  cases he : v.elements? with
  | none => simp
  | some e => simp [checkElements_eq, checkItems_eq_broken_iff]

/-! Tuples. -/

/-- The elements looked at, one more than there are schemas, stand for all of them. -/
theorem zip_take_eq {items : List Schema} {xs : List Value} :
    items.zip (xs.take (items.length + 1)) = items.zip xs := by
  induction items generalizing xs with
  | nil => simp
  | cons s items ih => cases xs <;> simp [ih]

theorem check_tuple_eq_accepted_iff {items : List Schema} :
    (tuple items).check c d v = .accepted w ↔
      ∃ e ws, v.elements? = some e ∧ e.hasLength = true ∧ items.length = e.toList.length ∧
        List.Forall₂ (fun p y => p.1.child c d p.2 = .accepted y) (items.zip e.toList) ws ∧
        w = .list ws := by
  rw [check_tuple]
  cases he : v.elements? with
  | none => simp
  | some e =>
    simp only [← Elements.take_toList]
    have hl : items.length = (e.toList.take (items.length + 1)).length ↔
        items.length = e.toList.length := by
      rw [List.length_take]
      omega
    cases hh : e.hasLength with
    | false => simp [hh]
    | true =>
      simp only [if_true, Outcome.map_eq_accepted_iff, checkPositions_eq_accepted_iff, hl, zip_take_eq,
        Option.some.injEq, exists_and_left, exists_eq_left', hh, true_and]
      refine ⟨fun h => ?_, fun h => ?_⟩
      · obtain ⟨ws, ⟨hn, hw⟩, rfl⟩ := h
        exact ⟨hn, ws, hw, rfl⟩
      · obtain ⟨hn, ws, hw, rfl⟩ := h
        exact ⟨ws, ⟨hn, hw⟩, rfl⟩

theorem isAccepted_check_tuple_iff {items : List Schema} :
    ((tuple items).check c d v).isAccepted = true ↔
      ∃ e, v.elements? = some e ∧ e.hasLength = true ∧ items.length = e.toList.length ∧
        ∀ p ∈ items.zip e.toList, (p.1.child c d p.2).isAccepted = true := by
  simp only [Outcome.isAccepted_iff, check_tuple_eq_accepted_iff, ← exists_forall₂_iff]
  refine ⟨fun h => ?_, fun h => ?_⟩
  · obtain ⟨_, e, ws, he, hh, hl, hws, -⟩ := h
    exact ⟨e, he, hh, hl, ws, hws⟩
  · obtain ⟨e, he, hh, hl, ws, hws⟩ := h
    exact ⟨_, e, ws, he, hh, hl, hws, rfl⟩

theorem rejected_of_check_tuple {items : List Schema} (h : (tuple items).check c d v = .rejected f) :
    (v.elements? = none ∧ f = .here (.wrongContainer .tuple v.label)) ∨
      ∃ e, v.elements? = some e ∧ ((items.length ≠ e.toList.length ∧
          (∀ p ∈ items.zip e.toList, (p.1.child c d p.2).isAccepted = true) ∧
          f = lengthFault items.length e.toList.length) ∨
        ∃ before p after f', items.zip e.toList = before ++ p :: after ∧
          (∀ q ∈ before, (q.1.child c d q.2).isAccepted = true) ∧ p.1.child c d p.2 = .rejected f' ∧
          f = f'.under (.int ↑before.length)) := by
  rw [check_tuple] at h
  cases he : v.elements? with
  | none =>
    simp only [he, Outcome.rejected.injEq] at h
    exact .inl ⟨rfl, h.symm⟩
  | some e =>
    simp only [he] at h
    split at h
    · rw [Outcome.map_eq_rejected_iff, ← Elements.take_toList] at h
      refine .inr ⟨e, rfl, ?_⟩
      rcases rejected_of_checkPositions h with ⟨hl, hz, rfl⟩ | ⟨before, p, after, f', hp, hb, hr, rfl⟩
      · rw [zip_take_eq] at hz
        rw [List.length_take] at hl ⊢
        refine .inl ⟨by omega, hz, ?_⟩
        rw [Nat.zero_add, Nat.zero_add]
        exact lengthFault_min _ _
      · rw [zip_take_eq] at hp
        exact .inr ⟨before, p, after, f', hp, hb, hr, by rw [Nat.zero_add]⟩
    · cases h

theorem check_tuple_eq_broken_iff {items : List Schema} :
    (tuple items).check c d v = .broken b ↔
      ∃ e, v.elements? = some e ∧ ((e.hasLength = false ∧ b = .oversized) ∨
        (e.hasLength = true ∧
          ∃ p, ComesTo (fun q => (q.1.child c d q.2).isAccepted = true) (items.zip e.toList) p ∧
            p.1.child c d p.2 = .broken b)) := by
  rw [check_tuple]
  cases he : v.elements? with
  | none => simp
  | some e =>
    cases hl : e.hasLength with
    | false => simp [hl, @eq_comm _ b]
    | true => simp [hl, ← Elements.take_toList, checkPositions_eq_broken_iff, zip_take_eq]

/-! Objects. -/

theorem check_object_eq_accepted_iff {fields : List (FieldName × Schema)} :
    (object fields).check c d v = .accepted w ↔
      ∃ es done, v.entries? = some es ∧
        List.Forall₂ (fun f e => e.1 = f.1.value ∧
          ∃ x, es.get? f.1.value = some x ∧ f.2.child c d x = .accepted e.2) fields done ∧
        w = .dict (done ++ undeclared fields es) := by
  rw [check_object]
  cases he : v.entries? with
  | none => simp
  | some es => simp [checkFields_eq_accepted_iff, @eq_comm _ w]

theorem isAccepted_check_object_iff {fields : List (FieldName × Schema)} :
    ((object fields).check c d v).isAccepted = true ↔
      ∃ es, v.entries? = some es ∧ ∀ f ∈ fields, FieldPasses c d es f := by
  simp only [Outcome.isAccepted_iff, check_object_eq_accepted_iff]
  refine ⟨fun h => ?_, fun h => ?_⟩
  · obtain ⟨_, es, done, he, hdone, -⟩ := h
    refine ⟨es, he, fun f hf => ?_⟩
    obtain ⟨e, -, x, hx, hy⟩ := exists_forall₂_iff.1 ⟨done, hdone⟩ f hf
    exact ⟨x, hx, Outcome.isAccepted_iff.2 ⟨e.2, hy⟩⟩
  · obtain ⟨es, he, h⟩ := h
    obtain ⟨done, hdone⟩ := exists_forall₂_iff.2 fun f hf => by
      obtain ⟨x, hx, ha⟩ := h f hf
      obtain ⟨y, hy⟩ := Outcome.isAccepted_iff.1 ha
      exact (⟨(f.1.value, y), rfl, x, hx, hy⟩ : ∃ e : Value × Value, e.1 = f.1.value ∧
        ∃ x, es.get? f.1.value = some x ∧ f.2.child c d x = .accepted e.2)
    exact ⟨_, es, done, he, hdone, rfl⟩

theorem rejected_of_check_object {fields : List (FieldName × Schema)}
    (h : (object fields).check c d v = .rejected f) :
    (v.entries? = none ∧ f = .here (.wrongContainer .object v.label)) ∨
      ∃ es before g after, v.entries? = some es ∧ fields = before ++ g :: after ∧
        (∀ g ∈ before, ∃ x, es.get? g.1.value = some x ∧ (g.2.child c d x).isAccepted = true) ∧
        ((es.get? g.1.value = none ∧ f = missing g.1) ∨
          ∃ x f', es.get? g.1.value = some x ∧ g.2.child c d x = .rejected f' ∧
            f = fieldFault g.1 x f') := by
  rw [check_object] at h
  cases he : v.entries? with
  | none =>
    simp only [he, Outcome.rejected.injEq] at h
    exact .inl ⟨rfl, h.symm⟩
  | some es =>
    simp only [he, Outcome.map_eq_rejected_iff] at h
    obtain ⟨before, g, after, hg, hb, h⟩ := rejected_of_checkFields h
    exact .inr ⟨es, before, g, after, rfl, hg, hb, h⟩

theorem check_object_eq_broken_iff {fields : List (FieldName × Schema)} :
    (object fields).check c d v = .broken b ↔
      ∃ es f x, v.entries? = some es ∧ ComesTo (FieldPasses c d es) fields f ∧
        es.get? f.1.value = some x ∧ f.2.child c d x = .broken b := by
  rw [check_object]
  cases he : v.entries? with
  | none => simp
  | some es => simp [checkFields_eq_broken_iff]

/-! Unions. -/

theorem check_union_eq_accepted_iff {options : List Schema} :
    (union options).check c d v = .accepted w ↔
      ∃ before s after, options = before ++ s :: after ∧
        (∀ t ∈ before, Declines c d v t) ∧ s.child c d v = .accepted w := by
  rw [check_union, checkOptions_eq_accepted_iff]

theorem rejected_of_check_union {options : List Schema}
    (h : (union options).check c d v = .rejected f) :
    ∃ fs, List.Forall₂ (fun s f => s.child c d v = .rejected f) options fs ∧
      f = .here (.exhausted (fs.zipIdx.map fun p => ((p.2 : Int), p.1))) := by
  rw [check_union] at h
  obtain ⟨fs, hfs, rfl⟩ := rejected_of_checkOptions h
  exact ⟨fs, hfs, by rw [List.nil_append]⟩

theorem declines_of_check_union {options : List Schema} (h : (union options).check c d v = .rejected f) :
    ∀ t ∈ options, Declines c d v t := by
  rw [check_union] at h
  exact declines_of_checkOptions h

theorem check_union_eq_broken_iff {options : List Schema} :
    (union options).check c d v = .broken b ↔
      ∃ s, ComesTo (Declines c d v) options s ∧
        (s.child c d v = .broken b ∨
          b = .unwritable ∧ ∃ e, s.child c d v = .rejected e ∧ e.isWritable = false) := by
  rw [check_union, checkOptions_eq_broken_iff]

theorem isAccepted_of_check_union {options : List Schema}
    (h : ((union options).check c d v).isAccepted = true) :
    ∃ t ∈ options, (t.child c d v).isAccepted = true := by
  obtain ⟨w, h⟩ := Outcome.isAccepted_iff.1 h
  obtain ⟨before, t, after, rfl, -, ht⟩ := check_union_eq_accepted_iff.1 h
  exact ⟨t, by simp, Outcome.isAccepted_iff.2 ⟨w, ht⟩⟩

/-- A union that has an option which accepts does not reject. -/
theorem check_union_ne_rejected {options : List Schema} {t : Schema} (ht : t ∈ options)
    (ha : (t.child c d v).isAccepted = true) : (union options).check c d v ≠ .rejected f := by
  intro h
  obtain ⟨fs, hfs, -⟩ := rejected_of_check_union h
  obtain ⟨g, hg⟩ := exists_forall₂_iff.1 ⟨fs, hfs⟩ t ht
  simp [hg, Outcome.isAccepted] at ha

theorem isAccepted_check_union_iff {options : List Schema}
    (hb : ∀ b, (union options).check c d v ≠ .broken b) :
    ((union options).check c d v).isAccepted = true ↔
      ∃ t ∈ options, (t.child c d v).isAccepted = true := by
  refine ⟨isAccepted_of_check_union, fun h => ?_⟩
  obtain ⟨t, ht, ha⟩ := h
  cases hu : (union options).check c d v with
  | accepted w => rfl
  | rejected f => exact absurd hu (check_union_ne_rejected ht ha)
  | broken b => exact absurd hu (hb b)

/-! Optional schemas. -/

theorem check_optional_eq_accepted_iff {inner : Schema} :
    (optional inner).check c d v = .accepted w ↔
      (v = .null ∧ w = .null) ∨ (v.isNull = false ∧ inner.child c d v = .accepted w) := by
  rw [check_optional]
  cases v <;> simp [Value.isNull, eq_comm]

theorem isAccepted_check_optional_iff {inner : Schema} :
    ((optional inner).check c d v).isAccepted = true ↔
      v.isNull = true ∨ (inner.child c d v).isAccepted = true := by
  rw [check_optional]
  cases hn : v.isNull with
  | true => simp [Outcome.isAccepted]
  | false => simp

theorem rejected_of_check_optional {inner : Schema}
    (h : (optional inner).check c d v = .rejected f) :
    v.isNull = false ∧ inner.child c d v = .rejected f := by
  rw [check_optional] at h
  split at h
  · cases h
  · next hn => exact ⟨Bool.eq_false_iff.2 hn, h⟩

theorem check_optional_eq_broken_iff {inner : Schema} :
    (optional inner).check c d v = .broken b ↔ v.isNull = false ∧ inner.child c d v = .broken b := by
  rw [check_optional]
  cases v <;> simp [Value.isNull]

/-! Tables. -/

theorem check_table_eq_accepted_iff {key value : Option Schema} :
    (table key value).check c d v = .accepted w ↔
      ∃ es, v.entries? = some es ∧
        ((key = none ∧ value = none ∧ w = v) ∨
          (¬ (key = none ∧ value = none) ∧ ∃ fs : Entries,
            List.Forall₂ (fun e f => checkPart c key d e.1 = .accepted f.1 ∧
              checkPart c value d e.2 = .accepted f.2 ∧ f.1.isHashable = true) es fs ∧
            w = .dict (KeyTable.ofList fs))) := by
  rw [check_table]
  cases he : v.entries? with
  | none => simp
  | some es =>
    by_cases hn : key = none ∧ value = none
    · obtain ⟨rfl, rfl⟩ := hn
      simp [@eq_comm _ w]
    · have hb : (key.isNone && value.isNone) = false := by
        cases key <;> cases value <;> simp_all
      simp only [hb, Bool.false_eq_true, if_false, Outcome.map_eq_accepted_iff,
        checkEntries_eq_accepted_iff, Option.some.injEq, exists_eq_left']
      refine ⟨fun h => ?_, fun h => ?_⟩
      · obtain ⟨_, ⟨fs, hfs, rfl⟩, rfl⟩ := h
        exact .inr ⟨hn, fs, hfs, rfl⟩
      · rcases h with ⟨hk, hv, -⟩ | ⟨-, fs, hfs, rfl⟩
        · exact absurd ⟨hk, hv⟩ hn
        · exact ⟨_, ⟨fs, hfs, rfl⟩, rfl⟩

theorem isAccepted_check_table_iff {key value : Option Schema} :
    ((table key value).check c d v).isAccepted = true ↔
      ∃ es, v.entries? = some es ∧ ((key = none ∧ value = none) ∨
        ∀ e ∈ es, EntryPasses (checkPart c key d) (checkPart c value d) e) := by
  simp only [Outcome.isAccepted_iff, check_table_eq_accepted_iff]
  refine ⟨fun h => ?_, fun h => ?_⟩
  · obtain ⟨_, es, he, ⟨hk, hv, -⟩ | ⟨-, fs, hfs, -⟩⟩ := h
    · exact ⟨es, he, .inl ⟨hk, hv⟩⟩
    · refine ⟨es, he, .inr fun e hm => ?_⟩
      obtain ⟨f, hk, hv, hh⟩ := exists_forall₂_iff.1 ⟨fs, hfs⟩ e hm
      exact ⟨f.1, hk, hh, Outcome.isAccepted_iff.2 ⟨f.2, hv⟩⟩
  · obtain ⟨es, he, h⟩ := h
    by_cases hn : key = none ∧ value = none
    · exact ⟨v, es, he, .inl ⟨hn.1, hn.2, rfl⟩⟩
    · obtain ⟨fs, hfs⟩ := exists_forall₂_iff.2 fun e hm => by
        obtain ⟨k, hk, hh, ha⟩ := h.resolve_left hn e hm
        obtain ⟨x, hx⟩ := Outcome.isAccepted_iff.1 ha
        exact (⟨(k, x), hk, hx, hh⟩ : ∃ f : Value × Value, checkPart c key d e.1 = .accepted f.1 ∧
          checkPart c value d e.2 = .accepted f.2 ∧ f.1.isHashable = true)
      exact ⟨_, es, he, .inr ⟨hn, fs, hfs, rfl⟩⟩

theorem rejected_of_check_table {key value : Option Schema}
    (h : (table key value).check c d v = .rejected f) :
    (v.entries? = none ∧ f = .here (.wrongContainer .table v.label)) ∨
      ∃ es before e after, v.entries? = some es ∧ es = before ++ e :: after ∧
        (∀ g ∈ before, ∃ k, checkPart c key d g.1 = .accepted k ∧ k.isHashable = true ∧
          (checkPart c value d g.2).isAccepted = true) ∧
        ((∃ f', checkPart c key d e.1 = .rejected f' ∧ f = f'.under e.1) ∨
          ∃ k, checkPart c key d e.1 = .accepted k ∧
            ((∃ f', checkPart c value d e.2 = .rejected f' ∧ f = f'.under e.1) ∨
              ((checkPart c value d e.2).isAccepted = true ∧ k.isHashable = false ∧
                f = .atToken e.1 (.unhashableKey k.label)))) := by
  rw [check_table] at h
  cases he : v.entries? with
  | none =>
    simp only [he, Outcome.rejected.injEq] at h
    exact .inl ⟨rfl, h.symm⟩
  | some es =>
    simp only [he] at h
    split at h
    · cases h
    · rw [Outcome.map_eq_rejected_iff] at h
      obtain ⟨before, e, after, hes, hb, h⟩ := rejected_of_checkEntries h
      exact .inr ⟨es, before, e, after, rfl, hes, hb, h⟩

theorem check_table_eq_broken_iff {key value : Option Schema} :
    (table key value).check c d v = .broken b ↔
      ∃ es e, v.entries? = some es ∧
        ComesTo (EntryPasses (checkPart c key d) (checkPart c value d)) es e ∧
        (checkPart c key d e.1 = .broken b ∨
          ((checkPart c key d e.1).isAccepted = true ∧ checkPart c value d e.2 = .broken b)) := by
  rw [check_table]
  cases he : v.entries? with
  | none => simp
  | some es =>
    by_cases hn : key = none ∧ value = none
    · obtain ⟨rfl, rfl⟩ := hn
      simp [checkPart_none]
    · have hb : (key.isNone && value.isNone) = false := by
        cases key <;> cases value <;> simp_all
      simp [hb, checkEntries_eq_broken_iff]

end Conform.Schema
