import Conform.Proofs.Schema.Agreement
import Conform.Proofs.Value.Reordering

/-! Acceptance does not depend on order: neither on that of the fields that an object declares or of the
options of a union, nor on that in which the entries of a dictionary came, under any limit of depth. Which
fault is reported and which option wins do depend on it. Where the checked value has to be a key of a table,
the winning option counts, since it may have rebuilt the key: the options in the schema of the keys stay as
they are, and two walks along keys have to agree on more than acceptance. -/

namespace Conform

/-- A schema and the same with its fields and its options in another order, though not with the options in
schemas of keys. -/
inductive Schema.Reordered : Bool → Schema → Schema → Prop
  | same (inKey : Bool) (s : Schema) : Reordered inKey s s
  | object {inKey : Bool} {fields fields' gs : List (FieldName × Schema)} : fields.Perm fields' →
      fields'.map (·.1) = gs.map (·.1) → (∀ p ∈ fields'.zip gs, Reordered inKey p.1.2 p.2.2) →
      Reordered inKey (.object fields) (.object gs)
  | array {inKey : Bool} {item item' : Schema} : Reordered inKey item item' →
      Reordered inKey (.array item) (.array item')
  | tuple {inKey : Bool} {items items' : List Schema} : items.length = items'.length →
      (∀ p ∈ items.zip items', Reordered inKey p.1 p.2) → Reordered inKey (.tuple items) (.tuple items')
  | union {inKey : Bool} {options options' ts : List Schema} : options.Perm options' →
      (inKey = true → options' = options) → options'.length = ts.length →
      (∀ p ∈ options'.zip ts, Reordered inKey p.1 p.2) → Reordered inKey (.union options) (.union ts)
  | optional {inKey : Bool} {inner inner' : Schema} : Reordered inKey inner inner' →
      Reordered inKey (.optional inner) (.optional inner')
  | table {inKey : Bool} {key key' value value' : Option Schema} : key.isSome = key'.isSome →
      value.isSome = value'.isSome → (∀ s ∈ key, ∀ t ∈ key', Reordered true s t) →
      (∀ s ∈ value, ∀ t ∈ value', Reordered inKey s t) →
      Reordered inKey (.table key value) (.table key' value')

/-! Verdicts that agree. -/

/-- Whether an accepted value can be a key. -/
def Outcome.keyhood : Verdict → Option Bool
  | .accepted w => some w.isHashable
  | _ => none

/-- Whether two verdicts agree on acceptance and, for a key, on whether it still is one. -/
def Outcome.Agree (inKey : Bool) (o o' : Verdict) : Prop :=
  (o.isAccepted = true ↔ o'.isAccepted = true) ∧ (inKey = true → o.keyhood = o'.keyhood)

namespace Outcome

variable {inKey : Bool} {o o' : Verdict} {c : Settings} {d : Nat}

theorem isAccepted_iff_keyhood : o.isAccepted = true ↔ o.keyhood.isSome = true := by
  cases o <;> simp [isAccepted, keyhood]

theorem agree_of_keyhood_eq (h : o.keyhood = o'.keyhood) : Agree inKey o o' :=
  ⟨by rw [isAccepted_iff_keyhood, isAccepted_iff_keyhood, h], fun _ => h⟩

theorem agree_of_isHashable_eq (h : o.isAccepted = true ↔ o'.isAccepted = true)
    (hw : ∀ w w', o = .accepted w → o' = .accepted w' → w.isHashable = w'.isHashable) :
    Agree inKey o o' := by
  apply agree_of_keyhood_eq
  cases o <;> cases o' <;> simp_all [isAccepted, keyhood]

theorem agree_enter {f g : Value → Verdict} {v v' : Value} (h : Agree inKey (f v) (g v')) :
    Agree inKey (enter c d f v) (enter c d g v') := by
  unfold enter
  split
  · exact agree_of_keyhood_eq rfl
  · exact h

end Outcome

theorem entryPasses_iff {key value : Value → Verdict} {e : Value × Value} :
    EntryPasses key value e ↔ (key e.1).keyhood = some true ∧ (value e.2).isAccepted = true := by
  unfold EntryPasses
  cases key e.1 <;> simp [Outcome.keyhood]

namespace Schema

open Outcome

variable {c : Settings} {d : Nat}

/-- A union in the schema of a key: the first option that accepts decides. -/
theorem keyhood_check_union {options : List Schema} {v : Value}
    (hb : ∀ b, (union options).check c d v ≠ .broken b) :
    ((union options).check c d v).keyhood = options.findSome? fun t => (t.child c d v).keyhood := by
  have keyhood_checkOptions (options : List Schema) {i : Nat} {rs : List (Int × Fault)}
      (hb : ∀ b, checkOptions c options d v i rs ≠ .broken b) :
      (checkOptions c options d v i rs).keyhood = options.findSome? fun t => (t.child c d v).keyhood := by
    induction options generalizing i rs with
    | nil => simp [checkOptions, keyhood]
    | cons t options ih =>
      rw [checkOptions] at hb ⊢
      rw [List.findSome?_cons]
      cases ht : t.child c d v with
      | accepted w => simp [ht, keyhood]
      | rejected f =>
        simp only [ht] at hb ⊢
        split at hb
        · next hf =>
          simp only [hf, if_true, keyhood]
          exact ih hb
        · exact absurd rfl (hb .unwritable)
      | broken b => exact absurd (by simp only [ht]) (hb b)
  rw [check_union] at hb ⊢
  exact keyhood_checkOptions options hb

/-- A table gives a mapping, which is no key. -/
theorem isHashable_of_check_table {key value : Option Schema} {v w : Value}
    (h : (table key value).check c d v = .accepted w) : w.isHashable = false := by
  obtain ⟨es, he, ⟨-, -, rfl⟩ | ⟨-, fs, -, rfl⟩⟩ := check_table_eq_accepted_iff.1 h
  · obtain ⟨form, rfl⟩ := Value.exists_eq_map he
    rfl
  · rfl

namespace Reordered

variable {inKey : Bool} {s' : Schema}

/-! A schema has the form of the one that it reorders. -/

theorem object_inv {fields : List (FieldName × Schema)} (h : Reordered inKey (.object fields) s') :
    ∃ fields' gs, s' = .object gs ∧ fields.Perm fields' ∧
      List.Forall₂ (fun f g => f.1 = g.1 ∧ Reordered inKey f.2 g.2) fields' gs := by
  cases h with
  | same => exact ⟨fields, fields, rfl, .refl _, List.forall₂_same.2 fun f _ => ⟨rfl, .same _ f.2⟩⟩
  | @object _ _ fields' gs hp hk hs =>
    have hl : fields'.length = gs.length := by simpa using congrArg List.length hk
    have hn := hk
    rw [← List.forall₂_eq_eq_eq, List.forall₂_map_left_iff, List.forall₂_map_right_iff] at hn
    exact ⟨fields', gs, rfl, hp, forall₂_and hn (List.forall₂_iff_zip.2 ⟨hl, fun hm => hs _ hm⟩)⟩

theorem array_inv {item : Schema} (h : Reordered inKey (.array item) s') :
    ∃ item', s' = .array item' ∧ Reordered inKey item item' := by
  cases h with
  | same => exact ⟨item, rfl, .same _ item⟩
  | array h => exact ⟨_, rfl, h⟩

theorem tuple_inv {items : List Schema} (h : Reordered inKey (.tuple items) s') :
    ∃ items', s' = .tuple items' ∧ List.Forall₂ (Reordered inKey) items items' := by
  cases h with
  | same => exact ⟨items, rfl, List.forall₂_same.2 fun t _ => .same _ t⟩
  | tuple hl hs => exact ⟨_, rfl, List.forall₂_iff_zip.2 ⟨hl, fun hm => hs _ hm⟩⟩

theorem union_inv {options : List Schema} (h : Reordered inKey (.union options) s') :
    ∃ options' ts, s' = .union ts ∧ options.Perm options' ∧ (inKey = true → options' = options) ∧
      List.Forall₂ (Reordered inKey) options' ts := by
  cases h with
  | same =>
    exact ⟨options, options, rfl, .refl _, fun _ => rfl, List.forall₂_same.2 fun t _ => .same _ t⟩
  | union hp hk hl hs => exact ⟨_, _, rfl, hp, hk, List.forall₂_iff_zip.2 ⟨hl, fun hm => hs _ hm⟩⟩

theorem optional_inv {inner : Schema} (h : Reordered inKey (.optional inner) s') :
    ∃ inner', s' = .optional inner' ∧ Reordered inKey inner inner' := by
  cases h with
  | same => exact ⟨inner, rfl, .same _ inner⟩
  | optional h => exact ⟨_, rfl, h⟩

theorem part_same {part : Option Schema} : Option.Rel (Reordered inKey) part part := by
  cases part with
  | none => exact .none
  | some s => exact .some (.same _ s)

theorem part_of_isSome {part part' : Option Schema} (h : part.isSome = part'.isSome)
    (hs : ∀ s ∈ part, ∀ t ∈ part', Reordered inKey s t) : Option.Rel (Reordered inKey) part part' := by
  cases part <;> cases part'
  · exact .none
  · cases h
  · cases h
  · exact .some (hs _ rfl _ rfl)

theorem table_inv {key value : Option Schema} (h : Reordered inKey (.table key value) s') :
    ∃ key' value', s' = .table key' value' ∧ Option.Rel (Reordered true) key key' ∧
      Option.Rel (Reordered inKey) value value' := by
  cases h with
  | same => exact ⟨key, value, rfl, part_same, part_same⟩
  | table hk hv hks hvs => exact ⟨_, _, rfl, part_of_isSome hk hks, part_of_isSome hv hvs⟩

/-! What holds everywhere in a schema, in no order, holds everywhere in the other. -/

theorem isPart {s : Schema} (h : Reordered inKey s s') {t' : Schema} (ht : t' ∈ s'.parts) :
    ∃ t ∈ s.parts, ∃ inKey', Reordered inKey' t t' := by
  cases s with
  | object fields =>
    obtain ⟨fields', gs, rfl, hp, hs⟩ := h.object_inv
    obtain ⟨g, hg, rfl⟩ := List.mem_map.1 ht
    obtain ⟨f, hf, -, hr⟩ := exists_mem_of_forall₂ hs.flip hg
    exact ⟨f.2, field_mem_parts (hp.mem_iff.2 hf), inKey, hr⟩
  | array item =>
    obtain ⟨item', rfl, hr⟩ := h.array_inv
    obtain rfl := List.mem_singleton.1 ht
    exact ⟨item, item_mem_parts, inKey, hr⟩
  | tuple items =>
    obtain ⟨items', rfl, hs⟩ := h.tuple_inv
    obtain ⟨t, hm, hr⟩ := exists_mem_of_forall₂ hs.flip ht
    exact ⟨t, hm, inKey, hr⟩
  | union options =>
    obtain ⟨options', ts, rfl, hp, -, hs⟩ := h.union_inv
    obtain ⟨t, hm, hr⟩ := exists_mem_of_forall₂ hs.flip ht
    exact ⟨t, hp.mem_iff.2 hm, inKey, hr⟩
  | optional inner =>
    obtain ⟨inner', rfl, hr⟩ := h.optional_inv
    obtain rfl := List.mem_singleton.1 ht
    exact ⟨inner, inner_mem_parts, inKey, hr⟩
  | table key value =>
    obtain ⟨key', value', rfl, hk, hv⟩ := h.table_inv
    rcases List.mem_append.1 ht with ht | ht
    · rw [Option.mem_toList.1 ht] at hk
      cases hk with
      | some hr => exact ⟨_, key_mem_parts rfl, true, hr⟩
    · rw [Option.mem_toList.1 ht] at hv
      cases hv with
      | some hr => exact ⟨_, value_mem_parts rfl, inKey, hr⟩
  | _ =>
    cases h
    exact ⟨t', ht, inKey, .same _ t'⟩

theorem everywhere {p : Schema → Bool}
    (hp : ∀ inKey t t', Reordered inKey t t' → p t = true → p t' = true) {s : Schema} :
    ∀ {inKey s'}, Reordered inKey s s' → s.everywhere p = true → s'.everywhere p = true := by
  induction s using parts_induction with
  | step s ih =>
    intro inKey s' h hs
    refine (everywhere_iff p s').2 ⟨hp inKey s s' h (here_of_everywhere hs), fun t' ht' => ?_⟩
    obtain ⟨t, ht, inKey', hr⟩ := h.isPart ht'
    exact ih t ht hr (everywhere_of_mem_parts hs ht)

theorem isQuiet {s : Schema} (h : Reordered inKey s s') (hs : s.isQuiet = true) : s'.isQuiet = true := by
  refine h.everywhere (fun inKey t t' hr ht => ?_) hs
  cases hr with
  | same => exact ht
  | _ => rfl

theorem isShort {s : Schema} (h : Reordered inKey s s') (hs : s.isShort = true) : s'.isShort = true := by
  refine h.everywhere (fun inKey t t' hr ht => ?_) hs
  cases hr with
  | same => exact ht
  | _ => rfl

theorem walkable {s : Schema} (h : Reordered inKey s s') (hs : s.Walkable) : s'.Walkable :=
  ⟨h.isQuiet hs.quiet, h.isShort hs.short⟩

end Reordered

end Schema

theorem Value.Reordered.walkable {v v' : Value} (h : v.Reordered v') (hv : v.Walkable) : v'.Walkable := by
  refine ⟨h.everywhere (fun x x' hr hx => ?_) hv.quiet, h.everywhere (fun x x' hr hx => ?_) hv.measurable,
    h.everywhere (fun x x' hr hx => ?_) hv.short⟩
  · rwa [hr.isSignaling_eq]
  · cases hr with
    | same => exact hx
    | _ => rfl
  · cases hr with
    | same => exact hx
    | sequence hs =>
      simp only [hasShortDigits, hasShortCount, Bool.true_and] at hx ⊢
      rwa [← hs.length_eq]
    | mapping => rfl

/-- Whether a leaf takes a value in every order of its entries or in none. -/
def Leaf.IgnoresOrder (own : Leaf) : Prop :=
  ∀ v v' : Value, v.Reordered v' → own.takes v' = own.takes v

namespace Schema

open Outcome

variable {c : Settings} {d : Nat}

/-- Whether walks along a schema agree with those that go the same way in another order. -/
def Agrees (c : Settings) (s : Schema) : Prop :=
  ∀ (inKey : Bool) (s' : Schema) (d : Nat) (v v' : Value), Reordered inKey s s' → v.Reordered v' →
    v.Walkable → v.hasDistinctKeys = true → Agree inKey (s.check c d v) (s'.check c d v')

theorem Agrees.child {s s' : Schema} (h : Agrees c s) {inKey : Bool} {v v' : Value}
    (hs : Reordered inKey s s') (hv : v.Reordered v') (hw : v.Walkable) (hd : v.hasDistinctKeys = true) :
    Agree inKey (s.child c d v) (s'.child c d v') :=
  agree_enter (h _ _ _ _ _ hs hv hw hd)

theorem Agrees.part {part part' : Option Schema} (h : ∀ s ∈ part, Agrees c s) {inKey : Bool} {v v' : Value}
    (hp : Option.Rel (Reordered inKey) part part') (hv : v.Reordered v') (hw : v.Walkable)
    (hd : v.hasDistinctKeys = true) : Agree inKey (checkPart c part d v) (checkPart c part' d v') := by
  cases hp with
  | none =>
    rw [checkPart_none, checkPart_none]
    apply agree_of_keyhood_eq
    simp only [keyhood, hv.isHashable_eq]
  | some hr =>
    rw [checkPart_some, checkPart_some]
    exact (h _ rfl).child hr hv hw hd

/-! A schema agrees where its parts do, form by form. -/

theorem agrees_array {item : Schema} (h : Agrees c item) : Agrees c (.array item) := by
  intro inKey s' d v v' hs hv hw hd
  obtain ⟨item', rfl, hr⟩ := hs.array_inv
  apply agree_of_isHashable_eq
  · rw [isAccepted_check_array_iff, isAccepted_check_array_iff]
    refine exists_iff_of_rel hv.elements? fun e e' he _ hee => ?_
    refine forall_mem_iff_of_forall₂ hee.2 fun x hx x' _ hxx => ?_
    exact (h.child hr hxx (hw.of_mem_elements he hx)
      (Value.everywhere_of_mem_elements hd (fun _ => rfl) he x hx)).1
  · intro w w' hw hw'
    obtain ⟨_, _, -, -, rfl⟩ := check_array_eq_accepted_iff.1 hw
    obtain ⟨_, _, -, -, rfl⟩ := check_array_eq_accepted_iff.1 hw'
    rfl

theorem agrees_tuple {items : List Schema} (h : ∀ t ∈ items, Agrees c t) : Agrees c (.tuple items) := by
  intro inKey s' d v v' hs hv hw hd
  obtain ⟨items', rfl, hr⟩ := hs.tuple_inv
  apply agree_of_isHashable_eq
  · rw [isAccepted_check_tuple_iff, isAccepted_check_tuple_iff]
    refine exists_iff_of_rel hv.elements? fun e e' he _ hee => ?_
    rw [hee.1, hr.length_eq, hee.2.length_eq]
    refine and_congr_right fun _ => and_congr_right fun _ => ?_
    refine forall_mem_iff_of_forall₂ (forall₂_zip_zip hr hee.2) fun p hp q _ hpq => ?_
    obtain ⟨hi, hx⟩ := List.of_mem_zip hp
    exact ((h p.1 hi).child hpq.1 hpq.2 (hw.of_mem_elements he hx)
      (Value.everywhere_of_mem_elements hd (fun _ => rfl) he _ hx)).1
  · intro w w' hw hw'
    obtain ⟨_, _, -, -, -, -, rfl⟩ := check_tuple_eq_accepted_iff.1 hw
    obtain ⟨_, _, -, -, -, -, rfl⟩ := check_tuple_eq_accepted_iff.1 hw'
    rfl

theorem agrees_object {fields : List (FieldName × Schema)} (h : ∀ f ∈ fields, Agrees c f.2) :
    Agrees c (.object fields) := by
  intro inKey s' d v v' hs hv hw hd
  obtain ⟨fields', gs, rfl, hp, hr⟩ := hs.object_inv
  apply agree_of_isHashable_eq
  · rw [isAccepted_check_object_iff, isAccepted_check_object_iff]
    refine exists_iff_of_rel hv.entries? fun es fs he _ hes => ?_
    have hf : (∀ f ∈ fields, FieldPasses c d es f) ↔ ∀ f ∈ fields', FieldPasses c d es f :=
      forall_congr' fun f => by rw [hp.mem_iff]
    rw [hf]
    refine forall_mem_iff_of_forall₂ hr fun f hf g _ hfg => ?_
    have hget := hes.get? (Value.areDistinct_of_entries? hd he) f.1
    rw [FieldPasses, FieldPasses, ← hfg.1]
    refine exists_iff_of_rel hget fun x x' hx _ hxx => ?_
    exact ((h f (hp.mem_iff.2 hf)).child hfg.2 hxx (hw.of_get? he hx) (Value.everywhere_of_get? hd he hx)).1
  · intro w w' hw hw'
    obtain ⟨_, _, -, -, rfl⟩ := check_object_eq_accepted_iff.1 hw
    obtain ⟨_, _, -, -, rfl⟩ := check_object_eq_accepted_iff.1 hw'
    rfl

theorem agrees_union {options : List Schema} (hq : (union options).Walkable)
    (h : ∀ t ∈ options, Agrees c t) : Agrees c (.union options) := by
  intro inKey s' d v v' hs hv hw hd
  have ne_broken (b : Breakdown) := check_ne_broken_of_walkable (c := c) (d := d) (b := b) hq hw
  have ne_broken' (b : Breakdown) :=
    check_ne_broken_of_walkable (c := c) (d := d) (b := b) (hs.walkable hq) (hv.walkable hw)
  obtain ⟨options', ts, rfl, hp, ho, hr⟩ := hs.union_inv
  have agree {t t' : Schema} (ht : t ∈ options') (htt : Reordered inKey t t') :
      Agree inKey (t.child c d v) (t'.child c d v') :=
    (h t (hp.mem_iff.2 ht)).child htt hv hw hd
  refine ⟨?_, fun hk => ?_⟩
  · rw [isAccepted_check_union_iff ne_broken, isAccepted_check_union_iff ne_broken']
    have hm : (∃ t ∈ options, (t.child c d v).isAccepted = true) ↔
        ∃ t ∈ options', (t.child c d v).isAccepted = true :=
      exists_congr fun t => by rw [hp.mem_iff]
    rw [hm]
    exact exists_mem_iff_of_forall₂ hr fun t ht t' _ htt => (agree ht htt).1
  · rw [keyhood_check_union ne_broken, keyhood_check_union ne_broken', ← ho hk]
    exact findSome?_eq_of_forall₂ hr fun t ht t' _ htt => (agree ht htt).2 hk

theorem agrees_table {key value : Option Schema} (hk : ∀ t ∈ key, Agrees c t) (hx : ∀ t ∈ value, Agrees c t) :
    Agrees c (.table key value) := by
  intro inKey s' d v v' hs hv hw hd
  obtain ⟨key', value', rfl, hrk, hrx⟩ := hs.table_inv
  apply agree_of_isHashable_eq
  · rw [isAccepted_check_table_iff, isAccepted_check_table_iff]
    refine exists_iff_of_rel hv.entries? fun es fs he _ hes => ?_
    obtain ⟨es', hp, hpairs⟩ := hes
    have hn : (key = none ∧ value = none) ↔ (key' = none ∧ value' = none) := by
      cases hrk <;> cases hrx <;> simp
    have hm : (∀ e ∈ es, EntryPasses (checkPart c key d) (checkPart c value d) e) ↔
        ∀ e ∈ es', EntryPasses (checkPart c key d) (checkPart c value d) e :=
      forall_congr' fun e => by rw [hp.mem_iff]
    rw [hn, hm]
    refine or_congr_right (forall_mem_iff_of_forall₂ hpairs fun e hm f _ hef => ?_)
    have hwe := hw.of_mem_entries he (hp.mem_iff.2 hm)
    have hde := Value.everywhere_of_mem_entries hd he (hp.mem_iff.2 hm)
    rw [entryPasses_iff, entryPasses_iff, ← hef.1]
    refine and_congr ?_ (Agrees.part hx hrx hef.2 hwe.2 hde.2).1
    rw [(Agrees.part hk hrk (.same e.1) hwe.1 hde.1).2 rfl]
  · intro w w' hw hw'
    rw [isHashable_of_check_table hw, isHashable_of_check_table hw']

theorem agrees {s : Schema} (hs : s.Walkable) (ho : s.EachOwn Leaf.IgnoresOrder) : Agrees c s := by
  induction s using induction with
  | leaf kind =>
    intro inKey s' d v v' h hv _ _
    cases h
    apply agree_of_isHashable_eq
    · rw [isAccepted_check_leaf_iff, isAccepted_check_leaf_iff, hv.admits_eq]
    · intro w w' hw hw'
      rw [(check_leaf_eq_accepted_iff.1 hw).2, (check_leaf_eq_accepted_iff.1 hw').2, hv.isHashable_eq]
  | literal expected =>
    intro inKey s' d v v' h hv _ _
    cases h
    apply agree_of_isHashable_eq
    · rw [isAccepted_check_literal_iff, isAccepted_check_literal_iff, hv.type_eq, hv.equal?_iff]
    · intro w w' hw hw'
      rw [(check_literal_eq_accepted_iff.1 hw).2.2, (check_literal_eq_accepted_iff.1 hw').2.2,
        hv.isHashable_eq]
  | custom own =>
    intro inKey s' d v v' h hv _ _
    cases h
    rw [EachOwn] at ho
    apply agree_of_isHashable_eq
    · rw [isAccepted_check_custom_iff, isAccepted_check_custom_iff, ho v v' hv]
    · intro w w' hw hw'
      rw [(check_custom_eq_accepted_iff.1 hw).2, (check_custom_eq_accepted_iff.1 hw').2, hv.isHashable_eq]
  | array item ih => exact agrees_array (ih (hs.of_mem_parts item_mem_parts) (ho.of_mem_parts item_mem_parts))
  | tuple items ih => exact agrees_tuple fun t ht => ih t ht (hs.of_mem_parts ht) (ho.of_mem_parts ht)
  | object fields ih =>
    refine agrees_object fun f hf => ih f hf ?_ ?_
    · exact hs.of_mem_parts (field_mem_parts hf)
    · exact ho.of_mem_parts (field_mem_parts hf)
  | optional inner ih =>
    intro inKey s' d v v' h hv hw hd
    obtain ⟨inner', rfl, hr⟩ := h.optional_inv
    rw [check_optional, check_optional, hv.isNull_eq]
    split
    · exact agree_of_keyhood_eq rfl
    · exact (ih (hs.of_mem_parts inner_mem_parts) (ho.of_mem_parts inner_mem_parts)).child hr hv hw hd
  | union options ih =>
    exact agrees_union hs fun t ht => ih t ht (hs.of_mem_parts ht) (ho.of_mem_parts ht)
  | table key value ihk ihv =>
    refine agrees_table (fun t ht => ihk t ht ?_ ?_) fun t ht => ihv t ht ?_ ?_
    · exact hs.of_mem_parts (key_mem_parts ht)
    · exact ho.of_mem_parts (key_mem_parts ht)
    · exact hs.of_mem_parts (value_mem_parts ht)
    · exact ho.of_mem_parts (value_mem_parts ht)

/-- Acceptance does not depend on the order of fields, options and entries, where all integers are short and no leaf
of the user's own looks at the order of entries. -/
theorem isAccepted_validate_reordered {s s' : Schema} {c : Settings} {v v' : Value}
    (hs : s.isQuiet = true) (hq : v.isQuiet = true) (hm : v.isMeasurable = true)
    (hss : s.isShort = true) (hvs : v.isShort = true) (ho : s.EachOwn Leaf.IgnoresOrder)
    (hd : v.hasDistinctKeys = true) (hr : Reordered false s s') (hv : v.Reordered v') :
    (s.validate c v).isAccepted = true ↔ (s'.validate c v').isAccepted = true :=
  (agrees ⟨hs, hss⟩ ho _ _ _ _ _ hr hv ⟨hq, hm, hvs⟩ hd).1

theorem isAccepted_validate_other_order :
    let pair : Entries := [(.str "x", .int 1), (.str "y", .int 2)]
    let own : Leaf := ⟨"SequenceSchema", Value.isSequence, fun v => "Expected a sequence, got: " ++ v.label⟩
    let counts : Schema := .union [.custom own, .leaf .integer]
    let counts' : Schema := .union [.leaf .integer, .custom own]
    let named : Schema := .table (some (.union [.leaf .string, .array (.leaf .any)]))
      (some (.literal (.dict pair)))
    let s : Schema := .object [(.text "a", counts), (.text "b", named)]
    let s' : Schema := .object [(.text "b", named), (.text "a", counts')]
    let v : Value := .dict [(.str "a", .int 3), (.str "b", .map .view [(.str "k", .dict pair)])]
    let v' : Value := .dict [(.str "b", .map .view [(.str "k", .dict pair.reverse)]), (.str "a", .int 3)]
    (s.validate { depthLimit := 3 } v).isAccepted = true ∧
      (s'.validate { depthLimit := 3 } v').isAccepted = true := by
  intro pair own counts counts' named s s' v v'
  have hown : own.IgnoresOrder := by
    intro x x' h
    cases h <;> rfl
  have howns : s.EachOwn Leaf.IgnoresOrder := by simp [s, counts, named, EachOwn, hown]
  have hcounts : Reordered false counts counts' := by
    refine .union (.swap _ _ _) (by simp) rfl ?_
    rintro p hp
    simp only [List.zip_cons_cons, List.zip_nil_right, List.mem_cons, List.not_mem_nil, or_false] at hp
    rcases hp with rfl | rfl
    · exact .same false _
    · exact .same false _
  have hs : Reordered false s s' := by
    refine @Reordered.object _ _ [(.text "b", named), (.text "a", counts)] _ (.swap _ _ _) rfl ?_
    rintro p hp
    simp only [List.zip_cons_cons, List.zip_nil_right, List.mem_cons, List.not_mem_nil, or_false] at hp
    rcases hp with rfl | rfl
    · exact .same false _
    · exact hcounts
  have hpair : Value.Reordered (.dict pair) (.dict pair.reverse) :=
    .mapping (.swap _ _ _) (by simp) rfl (.cons (.same _) (.cons (.same _) .nil))
  have hview : Value.Reordered (.map .view [(.str "k", .dict pair)])
      (.map .view [(.str "k", .dict pair.reverse)]) :=
    .mapping (.refl _) (by simp) rfl (.cons hpair .nil)
  have hv : v.Reordered v' := by
    refine @Value.Reordered.mapping _ _
      [(.str "b", .map .view [(.str "k", .dict pair)]), (.str "a", .int 3)] _ (.swap _ _ _) ?_ rfl ?_
    · simp
    · exact .cons hview (.cons (.same _) .nil)
  have h : (s.validate { depthLimit := 3 } v).isAccepted = true := by decide
  exact ⟨h, (isAccepted_validate_reordered (by decide) (by decide) (by decide) (by decide) (by decide) howns
    (by decide) hs hv).1 h⟩

/-- The option that takes a long integer must stand in front of the one that would have to show it. -/
theorem isAccepted_validate_not_reordered :
    let v : Value := .int (10 ^ Number.digitLimit)
    (union [leaf .integer, leaf .string]).validate {} v = .accepted v ∧
      (union [leaf .string, leaf .integer]).validate {} v = .broken .unwritable := by
  intro v
  have hi : (leaf .integer).child {} 0 v = .accepted v := by
    rw [child_eq_check (by decide)]
    exact check_leaf_eq_accepted_iff.2 ⟨rfl, rfl⟩
  exact ⟨check_union_eq_accepted_iff.2 ⟨[], _, _, rfl, by simp, hi⟩, validate_union_long (by simp)⟩

end Schema

end Conform
