import Conform.Proofs.Schema.Forms
import Mathlib.Algebra.Group.Int.Defs

/-! The calls of a walk. At each schema the walk calls on parts of the schema with parts of the value, one
after the other, as long as the outcomes so far let it go on. What comes out depends on nothing else than
what comes out of these calls. A call is followed where the depth allows for it, so the calls that are
followed lead from the top to every check that is made.

The walk gives no verdict exactly where one of the checks that it makes can give none: a literal that has to
compare a signaling number, a tuple that has to count a progression without a length, a leaf or a literal that
cannot show the value that it refuses, or a union that cannot write where an option found fault. -/

namespace Conform.Schema

variable {c : Settings} {d : Nat} {s t : Schema} {v x : Value} {b : Breakdown}

/-- A call on a part of a schema, with a part of the value. -/
inductive Calls (c : Settings) (d : Nat) : Schema → Value → Schema → Value → Prop
  | item {item : Schema} {v x : Value} {e : Elements} : v.elements? = some e →
      ComesTo (fun y => (item.child c d y).isAccepted = true) e.toList x →
      Calls c d (.array item) v item x
  | position {items : List Schema} {t : Schema} {v x : Value} {e : Elements} : v.elements? = some e →
      e.hasLength = true →
      ComesTo (fun p => (p.1.child c d p.2).isAccepted = true) (items.zip e.toList) (t, x) →
      Calls c d (.tuple items) v t x
  | field {fields : List (FieldName × Schema)} {name : FieldName} {t : Schema} {v x : Value}
      {es : Entries} : v.entries? = some es → ComesTo (FieldPasses c d es) fields (name, t) →
      es.get? name.value = some x → Calls c d (.object fields) v t x
  | option {options : List Schema} {t : Schema} {v : Value} :
      ComesTo (Declines c d v) options t → Calls c d (.union options) v t v
  | inner {inner : Schema} {v : Value} : v.isNull = false → Calls c d (.optional inner) v inner v
  | key {t : Schema} {value : Option Schema} {v : Value} {es : Entries} {e : Value × Value} :
      v.entries? = some es →
      ComesTo (EntryPasses (checkPart c (some t) d) (checkPart c value d)) es e →
      Calls c d (.table (some t) value) v t e.1
  | value {key : Option Schema} {t : Schema} {v : Value} {es : Entries} {e : Value × Value} :
      v.entries? = some es →
      ComesTo (EntryPasses (checkPart c key d) (checkPart c (some t) d)) es e →
      (checkPart c key d e.1).isAccepted = true → Calls c d (.table key (some t)) v t e.2

/-- A call is on a part of the schema. -/
theorem Calls.mem_parts (h : s.Calls c d v t x) : t ∈ s.parts := by
  cases h with
  | item => exact item_mem_parts
  | position _ _ hp => exact (List.of_mem_zip (mem_of_comesTo hp)).1
  | field _ hf _ => exact field_mem_parts (mem_of_comesTo hf)
  | option ho => exact mem_of_comesTo ho
  | inner => exact inner_mem_parts
  | key => exact key_mem_parts rfl
  | value => exact value_mem_parts rfl

/-- What holds everywhere in the value, and of numbers, holds everywhere in what a call is made with. -/
theorem Calls.everywhere {p : Value → Bool} (h : s.Calls c d v t x) (hp : ∀ n, p (.int n) = true)
    (hv : v.everywhere p = true) : x.everywhere p = true := by
  cases h with
  | item he hx => exact Value.everywhere_of_mem_elements hv hp he _ (mem_of_comesTo hx)
  | position he _ hx =>
    exact Value.everywhere_of_mem_elements hv hp he _ (List.of_mem_zip (mem_of_comesTo hx)).2
  | field he _ hx => exact Value.everywhere_of_get? hv he hx
  | option => exact hv
  | inner => exact hv
  | key he hm => exact (Value.everywhere_of_mem_entries hv he (mem_of_comesTo hm)).1
  | value he hm _ => exact (Value.everywhere_of_mem_entries hv he (mem_of_comesTo hm)).2

/-- Two walks come to the same at a schema if they do at its calls. -/
theorem check_congr {c' : Settings} {d' : Nat} (hr : c'.reprLimit = c.reprLimit)
    (h : ∀ t x, s.Calls c d v t x → t.child c d x = t.child c' d' x) :
    s.check c d v = s.check c' d' v := by
  cases s with
  | leaf kind => simp only [check_leaf, leafCause, hr]
  | literal expected => simp only [check_literal, literalCause, hr]
  | custom own => rw [check_custom, check_custom]
  | array item =>
    rw [check_array, check_array]
    cases he : v.elements? with
    | none => rfl
    | some e =>
      simp only [checkElements_eq]
      rw [checkItems_congr fun x hx => h item x (.item he hx)]
  | tuple items =>
    rw [check_tuple, check_tuple]
    cases he : v.elements? with
    | none => rfl
    | some e =>
      cases hl : e.hasLength with
      | false => simp [hl]
      | true =>
        simp only [hl, ← Elements.take_toList]
        rw [checkPositions_congr fun p hp => ?_]
        rw [zip_take_eq] at hp
        exact h p.1 p.2 (.position he hl hp)
  | object fields =>
    rw [check_object, check_object]
    cases he : v.entries? with
    | none => rfl
    | some es =>
      simp only
      rw [checkFields_congr fun f x hf hx => h f.2 x (.field he hf hx)]
  | union options =>
    rw [check_union, check_union]
    exact checkOptions_congr fun t ht => h t v (.option ht)
  | optional inner =>
    rw [check_optional, check_optional]
    cases hn : v.isNull with
    | true => rfl
    | false => exact h inner v (.inner hn)
  | table key value =>
    rw [check_table, check_table]
    cases he : v.entries? with
    | none => rfl
    | some es =>
      simp only
      rw [checkEntries_congr (fun e hm => ?_) fun e hm hk => ?_]
      · cases key with
        | none => rw [checkPart_none, checkPart_none]
        | some t =>
          rw [checkPart_some, checkPart_some]
          exact h t e.1 (.key he hm)
      · cases value with
        | none => rw [checkPart_none, checkPart_none]
        | some t =>
          rw [checkPart_some, checkPart_some]
          exact h t e.2 (.value he hm hk)

/-! Breaking off. -/

/-- The checks that can give no verdict themselves, whatever their calls come to. -/
inductive Breaks (c : Settings) (d : Nat) : Schema → Value → Breakdown → Prop
  | signaling {expected v : Value} : v.type = expected.type → v.equal? expected = none →
      Breaks c d (.literal expected) v .signaling
  | oversized {items : List Schema} {v : Value} {e : Elements} : v.elements? = some e →
      e.hasLength = false → Breaks c d (.tuple items) v .oversized
  | leaf {kind : Kind} {v : Value} : kind.admits v = false → leafCause c kind v = none →
      Breaks c d (.leaf kind) v .unwritable
  | literal {expected v : Value} : (v.type = expected.type → v.equal? expected = some false) →
      literalCause c expected v = none → Breaks c d (.literal expected) v .unwritable
  | option {options : List Schema} {t : Schema} {v : Value} {f : Fault} :
      ComesTo (Declines c d v) options t → t.child c d v = .rejected f → f.isWritable = false →
      Breaks c d (.union options) v .unwritable

theorem check_eq_broken_iff :
    s.check c d v = .broken b ↔
      s.Breaks c d v b ∨ ∃ t x, s.Calls c d v t x ∧ t.child c d x = .broken b := by
  constructor
  · intro h
    cases s with
    | leaf kind =>
      obtain ⟨hk, hc, rfl⟩ := check_leaf_eq_broken_iff.1 h
      exact .inl (.leaf hk hc)
    | literal expected =>
      obtain ⟨ht, he, rfl⟩ | ⟨hn, hc, rfl⟩ := check_literal_eq_broken_iff.1 h
      · exact .inl (.signaling ht he)
      · exact .inl (.literal hn hc)
    | custom own => exact absurd h check_custom_ne_broken
    | array item =>
      obtain ⟨e, x, he, hx, hb⟩ := check_array_eq_broken_iff.1 h
      exact .inr ⟨item, x, .item he hx, hb⟩
    | tuple items =>
      obtain ⟨e, he, ⟨hl, rfl⟩ | ⟨hl, p, hp, hb⟩⟩ := check_tuple_eq_broken_iff.1 h
      · exact .inl (.oversized he hl)
      · exact .inr ⟨p.1, p.2, .position he hl hp, hb⟩
    | object fields =>
      obtain ⟨es, f, x, he, hf, hx, hb⟩ := check_object_eq_broken_iff.1 h
      exact .inr ⟨f.2, x, .field he hf hx, hb⟩
    | union options =>
      obtain ⟨t, ht, hb | ⟨rfl, f, hf, hw⟩⟩ := check_union_eq_broken_iff.1 h
      · exact .inr ⟨t, v, .option ht, hb⟩
      · exact .inl (.option ht hf hw)
    | optional inner =>
      obtain ⟨hn, hb⟩ := check_optional_eq_broken_iff.1 h
      exact .inr ⟨inner, v, .inner hn, hb⟩
    | table key value =>
      obtain ⟨es, e, he, hm, hb | ⟨hk, hb⟩⟩ := check_table_eq_broken_iff.1 h
      · cases key with
        | none => simp [checkPart_none] at hb
        | some t => exact .inr ⟨t, e.1, .key he hm, by rwa [checkPart_some] at hb⟩
      · cases value with
        | none => simp [checkPart_none] at hb
        | some t => exact .inr ⟨t, e.2, .value he hm hk, by rwa [checkPart_some] at hb⟩
  · rintro (h | ⟨t, x, h, hb⟩)
    · cases h with
      | signaling ht he => exact check_literal_eq_broken_iff.2 (.inl ⟨ht, he, rfl⟩)
      | oversized he hl => exact check_tuple_eq_broken_iff.2 ⟨_, he, .inl ⟨hl, rfl⟩⟩
      | leaf hk hc => exact check_leaf_eq_broken_iff.2 ⟨hk, hc, rfl⟩
      | literal hn hc => exact check_literal_eq_broken_iff.2 (.inr ⟨hn, hc, rfl⟩)
      | option ho hf hw => exact check_union_eq_broken_iff.2 ⟨_, ho, .inr ⟨rfl, _, hf, hw⟩⟩
    · cases h with
      | item he hx => exact check_array_eq_broken_iff.2 ⟨_, _, he, hx, hb⟩
      | position he hl hp => exact check_tuple_eq_broken_iff.2 ⟨_, he, .inr ⟨hl, _, hp, hb⟩⟩
      | field he hf hx => exact check_object_eq_broken_iff.2 ⟨_, _, _, he, hf, hx, hb⟩
      | option ho => exact check_union_eq_broken_iff.2 ⟨_, ho, .inl hb⟩
      | inner hn => exact check_optional_eq_broken_iff.2 ⟨hn, hb⟩
      | key he hm =>
        refine check_table_eq_broken_iff.2 ⟨_, _, he, hm, .inl ?_⟩
        rwa [checkPart_some]
      | value he hm hk =>
        refine check_table_eq_broken_iff.2 ⟨_, _, he, hm, .inr ⟨hk, ?_⟩⟩
        rwa [checkPart_some]

/-- The checks that are made in a walk: the one it starts with and those that its calls lead to. -/
inductive Visits (c : Settings) : Schema → Nat → Value → Schema → Nat → Value → Prop
  | here (s : Schema) (d : Nat) (v : Value) : Visits c s d v s d v
  | call {s t u : Schema} {d n : Nat} {v x y : Value} : s.Calls c d v t x → (d : Int) < c.depthLimit →
      Visits c t (d + 1) x u n y → Visits c s d v u n y

theorem Visits.trans {u : Schema} {n m : Nat} {y : Value} (h : s.Visits c d v t n x)
    (ht : t.Visits c n x u m y) : s.Visits c d v u m y := by
  induction h with
  | here => exact ht
  | call hc hd _ ih => exact .call hc hd (ih ht)

theorem check_eq_broken_iff_visits :
    s.check c d v = .broken b ↔ ∃ t n x, s.Visits c d v t n x ∧ t.Breaks c n x b := by
  constructor
  · intro h
    induction s using parts_induction generalizing d v with
    | step s ih =>
      rcases check_eq_broken_iff.1 h with hb | ⟨t, x, hc, hb⟩
      · exact ⟨s, d, v, .here s d v, hb⟩
      · obtain ⟨hd, hb⟩ := enter_eq_broken_iff.1 hb
        obtain ⟨u, n, y, hu, hb⟩ := ih t hc.mem_parts hb
        exact ⟨u, n, y, .call hc hd hu, hb⟩
  · rintro ⟨t, n, x, hv, hb⟩
    induction hv with
    | here s d v => exact check_eq_broken_iff.2 (.inl hb)
    | call hc hd _ ih => exact check_eq_broken_iff.2 (.inr ⟨_, _, hc, enter_eq_broken_iff.2 ⟨hd, ih hb⟩⟩)

end Conform.Schema
