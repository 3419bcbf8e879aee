import Conform.Proofs.Schema.Breakdowns
import Conform.Proofs.Schema.DepthLimit

/-! Missing fields. A field that is there but null is reported as missing where its schema rejects the null value,
unless the limit refuses the step into that schema. Which schemas take the null value does not depend on the limit,
but a union that takes it rejects it where the limit refuses all of its options that do. Its fault then is not the
one of the limit, though that one is in it, and the object reports the field as missing. In all other cases the
schema of the field rejects the null value under every limit, or breaks off at a literal that it cannot show. -/

namespace Conform.Schema

variable {c : Settings} {d n : Nat} {s t : Schema} {v : Value} {f g : Fault} {b : Breakdown}

/-! The null value. -/

/-- Whether a schema takes the null value, if the limit allows for its height. -/
inductive TakesNull : Schema → Prop
  | leaf {kind : Kind} : kind.admits .null = true → TakesNull (.leaf kind)
  | literal : TakesNull (.literal .null)
  | optional {inner : Schema} : TakesNull (.optional inner)
  | custom {own : Leaf} : own.takes .null = true → TakesNull (.custom own)
  | union {options : List Schema} {t : Schema} : t ∈ options → TakesNull t → TakesNull (.union options)

/-- The null value has no parts to call with. -/
theorem Calls.eq_null (h : s.Calls c d .null t v) : v = .null := by
  cases h with
  | item he _ => cases he
  | position he _ _ => cases he
  | field he _ _ => cases he
  | option _ => rfl
  | inner hn => cases hn
  | key he _ => cases he
  | value he _ _ => cases he

/-- On the null value a walk breaks off only where it meets a literal that it cannot show. -/
theorem eq_unwritable_of_check_null (h : s.check c d .null = .broken b) :
    b = .unwritable ∧ s.isShort = false := by
  induction s using parts_induction generalizing d with
  | step s ih =>
    rcases check_eq_broken_iff.1 h with hb | ⟨t, x, hc, hb⟩
    · cases hb with
      | signaling ht he =>
        rw [Value.eq_null_of_type ht.symm] at he
        cases he
      | oversized he _ => cases he
      | leaf _ hc => exact absurd hc (leafCause_ne_none rfl)
      | literal _ hc =>
        refine ⟨rfl, Bool.eq_false_iff.2 fun hs => ?_⟩
        exact literalCause_ne_none (here_of_everywhere hs) rfl hc
      | option _ hf hw => simp [isWritable_of_child hf (isWritable_of_rejected rfl)] at hw
    · obtain rfl := hc.eq_null
      obtain ⟨hb, hs⟩ := ih t hc.mem_parts (enter_eq_broken_iff.1 hb).2
      exact ⟨hb, Bool.eq_false_iff.2 fun h => by simp [everywhere_of_mem_parts h hc.mem_parts, isShort] at hs⟩

theorem takesNull_of_isAccepted (h : (s.check c d .null).isAccepted = true) : s.TakesNull := by
  induction s using induction generalizing d with
  | leaf kind => exact .leaf (isAccepted_check_leaf_iff.1 h)
  | custom own => exact .custom (isAccepted_check_custom_iff.1 h)
  | literal expected =>
    rw [Value.eq_null_of_type (isAccepted_check_literal_iff.1 h).1.symm]
    exact .literal
  | array item ih =>
    obtain ⟨e, he, -⟩ := isAccepted_check_array_iff.1 h
    cases he
  | tuple items ih =>
    obtain ⟨e, he, -⟩ := isAccepted_check_tuple_iff.1 h
    cases he
  | object fields ih =>
    obtain ⟨es, he, -⟩ := isAccepted_check_object_iff.1 h
    cases he
  | table key value ihk ihv =>
    obtain ⟨es, he, -⟩ := isAccepted_check_table_iff.1 h
    cases he
  | union options ih =>
    obtain ⟨t, ht, ha⟩ := isAccepted_of_check_union h
    exact .union ht (ih t ht (isAccepted_enter_iff.1 ha).2)
  | optional inner ih => exact .optional

/-- A schema that takes the null value rejects it as a union only, and because of the limit. -/
theorem contains_of_takesNull (hs : s.TakesNull) (h : s.check c d .null = .rejected f) :
    f.faultClass = .unionExhausted ∧ ∃ g, f.Contains g ∧ g.faultClass = .depthLimit := by
  induction hs generalizing d f with
  | leaf hk => simp [(rejected_of_check_leaf h).1] at hk
  | literal => cases (rejected_of_check_literal h).1 rfl
  | optional => cases (rejected_of_check_optional h).1
  | custom ht => simp [(rejected_of_check_custom h).1] at ht
  | @union options t ht _ ih =>
    obtain ⟨fs, hfs, rfl⟩ := rejected_of_check_union h
    obtain ⟨e, he, hr⟩ := exists_mem_of_forall₂ hfs ht
    obtain ⟨i, hi⟩ := List.mem_iff_getElem?.1 he
    have hm := List.mem_of_getElem? (getElem?_numbered hi)
    refine ⟨rfl, ?_⟩
    rcases enter_eq_rejected_iff.1 hr with ⟨-, rfl⟩ | ⟨-, hr⟩
    · exact ⟨_, .rejection hm (.self _), rfl⟩
    · obtain ⟨-, g, hg, hl⟩ := ih hr
      exact ⟨g, .rejection hm hg, hl⟩

theorem isAccepted_of_takesNull (hs : s.TakesNull) (hh : s.height ≤ c.depthLimit) :
    (s.validate c .null).isAccepted = true ∨ (s.isShort = false ∧ s.validate c .null = .broken .unwritable) := by
  cases h : s.validate c .null with
  | accepted w => exact .inl rfl
  | rejected f =>
    obtain ⟨-, g, hg, hl⟩ := contains_of_takesNull hs h
    exact absurd (isCut_of_contains h hg hl) (not_isCut_of_height_le (by omega))
  | broken b =>
    obtain ⟨rfl, hn⟩ := eq_unwritable_of_check_null h
    exact .inr ⟨hn, rfl⟩

theorem rejected_of_not_takesNull (hs : ¬ s.TakesNull) :
    (∃ f, s.validate c .null = .rejected f) ∨ (s.isShort = false ∧ s.validate c .null = .broken .unwritable) := by
  cases h : s.validate c .null with
  | accepted w => exact absurd (takesNull_of_isAccepted (Outcome.isAccepted_iff.2 ⟨w, h⟩)) hs
  | rejected f => exact .inl ⟨f, rfl⟩
  | broken b =>
    obtain ⟨rfl, hn⟩ := eq_unwritable_of_check_null h
    exact .inr ⟨hn, rfl⟩

/-! Reports. -/

/-- Whether the walk comes to an object, at depth `n` and of the entries `es`, which reports a declared field, the
first that does not pass, as missing. -/
def ReportsMissing (c : Settings) (s : Schema) (d : Nat) (v : Value) (field : FieldName × Schema) (n : Nat)
    (es : Entries) : Prop :=
  ∃ fields x, s.Visits c d v (.object fields) n x ∧ x.entries? = some es ∧
    ComesTo (FieldPasses c n es) fields field ∧ ¬ FieldPasses c n es field ∧
    (object fields).check c n x = .rejected (missing field.1)

/-- A fault that tells of a missing field is reported by an object, maybe of a part. -/
theorem reportsMissing_of_rejected : ∀ {d : Nat} {v : Value} {f : Fault}, s.check c d v = .rejected f →
    f.faultClass = .missingField →
    ∃ field n es, s.ReportsMissing c d v field n es ∧ f.cause = .missingField field.1.value := by
  induction s using parts_induction with
  | step s ih =>
    intro d v f h hf
    rcases origin_of_rejected h with
      ⟨-, -, -, hm⟩ | ⟨options, fs, rfl, -, rfl⟩ | ⟨t, x, f', hc, hf', heq⟩
    · obtain ⟨fields, field, es, rfl, he, hc, hn, rfl⟩ := hm hf
      exact ⟨field, d, es, ⟨fields, v, .here _ d v, he, hc, hn, h⟩, rfl⟩
    · cases hf
    · have hcause : f.cause = f'.cause := by
        rcases heq with rfl | ⟨token, rfl⟩
        · rfl
        · exact Fault.cause_under token f'
      rw [Fault.faultClass, hcause] at hf
      rcases enter_eq_rejected_iff.1 hf' with ⟨-, rfl⟩ | ⟨hd, hf'⟩
      · cases hf
      · obtain ⟨field, n, es, ⟨fields, y, hv, hr⟩, hcause'⟩ := ih t hc.mem_parts hf' hf
        exact ⟨field, n, es, ⟨fields, y, .call hc hd hv, hr⟩, hcause.trans hcause'⟩

theorem exists_reportsMissing (h : s.check c d v = .rejected f) (hf : f.Contains g)
    (hg : g.faultClass = .missingField) :
    ∃ field n es, s.ReportsMissing c d v field n es ∧ g.cause = .missingField field.1.value := by
  obtain ⟨t, n, x, e, hv, hm, hcause, -⟩ := raises_of_rejected h hf
  rw [Fault.faultClass, hcause] at hg
  cases hm with
  | single hr _ _ =>
    obtain ⟨field, m, es, ⟨fields, y, hv', hr⟩, hcause'⟩ := reportsMissing_of_rejected hr hg
    exact ⟨field, m, es, ⟨fields, y, hv.trans hv', hr⟩, hcause.trans hcause'⟩
  | union _ => cases hg
  | refusal _ _ => cases hg

theorem checkFields_of_comesTo {fields : List (FieldName × Schema)} {field : FieldName × Schema} {es : Entries}
    {x : Value} (hc : ComesTo (FieldPasses c d es) fields field) (hx : es.get? field.1.value = some x)
    (h : field.2.child c d x = .rejected f) :
    checkFields c fields d es = .rejected (fieldFault field.1 x f) := by
  induction fields with
  | nil => exact hc.elim
  | cons first fields ih =>
    obtain ⟨name, t⟩ := first
    rw [checkFields]
    rcases hc with rfl | ⟨⟨y, hy, ha⟩, hc⟩
    · simp only [hx, h]
    · obtain ⟨w, hw⟩ := Outcome.isAccepted_iff.1 ha
      simp only [hy, hw, ih hc, Outcome.map]

/-- Where a field that is null is reported as missing, its schema rejected the null value, and not because the
limit refused the step into it. -/
theorem rejected_of_reportsMissing {field : FieldName × Schema} {es : Entries}
    (h : s.ReportsMissing c d v field n es) (hx : es.get? field.1.value = some .null) :
    ∃ e, field.2.child c n .null = .rejected e ∧ e.faultClass ≠ .depthLimit := by
  obtain ⟨fields, x, -, he, hc, hn, hr⟩ := h
  cases hv : field.2.child c n .null with
  | accepted w => exact absurd ⟨.null, hx, Outcome.isAccepted_iff.2 ⟨w, hv⟩⟩ hn
  | broken b =>
    rw [check_object_eq_broken_iff.2 ⟨es, field, .null, he, hc, hx, hv⟩] at hr
    cases hr
  | rejected e =>
    refine ⟨e, rfl, fun hl => ?_⟩
    rw [check_object, he] at hr
    simp only [checkFields_of_comesTo hc hx hv, Outcome.map, Outcome.rejected.injEq] at hr
    -- a fault of the limit is passed on unchanged, so it is not the one of a missing field
    have hu : fieldFault field.1 .null e = e.under field.1.value := if_neg (by simp [hl])
    have hm := congrArg Fault.faultClass hr
    rw [hu, Fault.faultClass, Fault.cause_under, ← Fault.faultClass, hl] at hm
    cases hm

/-- A missing field, wherever it is in the fault of a validation, is reported by an object that the walk came to. If
the field is there but null, the fault of its schema was not the limit's own, and either that schema rejects the null
value under every limit, or it is a union that takes it and has the limit's fault among those of its options. Where
the schema has a literal that cannot be shown, it may also break off. -/
theorem missing_of_validate (h : s.validate c v = .rejected f) (hf : f.Contains g)
    (hg : g.faultClass = .missingField) :
    (∃ field n es, s.ReportsMissing c 0 v field n es ∧ g.cause = .missingField field.1.value) ∧
      ∀ name t n es, s.ReportsMissing c 0 v (name, t) n es → es.get? name.value = some .null →
        ∃ e, t.child c n .null = .rejected e ∧ e.faultClass ≠ .depthLimit ∧
          ((∀ limit, (∃ e', t.validate { c with depthLimit := limit } .null = .rejected e') ∨
              (t.isShort = false ∧ t.validate { c with depthLimit := limit } .null = .broken .unwritable)) ∨
            (e.faultClass = .unionExhausted ∧ (∃ e', e.Contains e' ∧ e'.faultClass = .depthLimit) ∧
              ((t.validate { c with depthLimit := t.height } .null).isAccepted = true ∨
                (t.isShort = false ∧ t.validate { c with depthLimit := t.height } .null = .broken .unwritable)))) := by
  refine ⟨exists_reportsMissing h hf hg, fun name t n es hr hx => ?_⟩
  obtain ⟨e, he, hl⟩ := rejected_of_reportsMissing hr hx
  refine ⟨e, he, hl, ?_⟩
  by_cases ht : t.TakesNull
  · obtain ⟨-, rfl⟩ | ⟨-, he⟩ := enter_eq_rejected_iff.1 he
    · exact absurd rfl hl
    · obtain ⟨hu, hd⟩ := contains_of_takesNull ht he
      exact .inr ⟨hu, hd, isAccepted_of_takesNull ht (Int.le_refl _)⟩
  · exact .inl fun limit => rejected_of_not_takesNull ht

/-- The null value is no string and no array under any limit, so an option of a union lacks its field for good. -/
theorem missing_of_validate_option :
    let t : Schema := .union [.leaf .string, .array (.leaf .integer)]
    let s : Schema := .union [.leaf .integer, .object [(.text "a", t)]]
    let v : Value := .dict [(.str "a", .null)]
    ∃ f g, s.validate {} v = .rejected f ∧ f.Contains g ∧ g.faultClass = .missingField ∧
      ∀ limit, ∃ e, t.validate { depthLimit := limit } .null = .rejected e := by
  intro t s v
  have ⟨f, hf, g, hg, hm⟩ : ∃ f, s.validate {} v = .rejected f ∧ ∃ g, f.Contains g ∧
      g.faultClass = .missingField :=
    ⟨_, rfl, _, .rejection (List.mem_cons_of_mem _ List.mem_cons_self) (.self _), rfl⟩
  have hr : s.ReportsMissing {} 0 v (.text "a", t) 1 [(.str "a", .null)] := by
    refine ⟨[(.text "a", t)], v, .call (.option (.inr ⟨⟨_, rfl, rfl⟩, .inl rfl⟩)) (by decide) (.here _ _ _), rfl,
      .inl rfl, ?_, rfl⟩
    rintro ⟨x, hx, ha⟩
    cases hx
    cases ha
  obtain ⟨-, -, -, h | ⟨-, -, h | ⟨h, -⟩⟩⟩ := (missing_of_validate hf hg hm).2 _ _ _ _ hr rfl
  · exact ⟨f, g, hf, hg, hm, fun limit => (h limit).resolve_right fun hn => by cases hn.1⟩
  · cases h
  · cases h

/-- A field that may be null, and is, is reported as missing where the limit refuses the options of its schema. -/
theorem missing_of_depthLimit :
    let t : Schema := .union [.leaf .string, .leaf .null]
    let s : Schema := .object [(.text "a", t)]
    let v : Value := .dict [(.str "a", .null)]
    s.validate { depthLimit := 1 } v = .rejected (missing (.text "a")) ∧
      t.validate { depthLimit := 1 } .null = .accepted .null ∧
      s.validate { depthLimit := 2 } v = .accepted v := by
  intro t s v
  exact ⟨by rfl, by rfl, by rfl⟩

end Conform.Schema
