import Conform.Proofs.Basic
import Conform.Proofs.Schema.Tree
import Conform.Proofs.Value.Equality
import Conform.Schema.Check

/-! Which values a schema accepts, and what it makes of them, said without the walk. A union yields what the
first of its options that yields anything does, a table is rebuilt from its checked keys and values. What a
schema accepts depends on no order, but for the keys of tables: a key must still be one after it was checked,
and the option of a union that takes it may rebuild it.

Where the depth allows for the height of the schema, and no signaling number and no progression without a
length is met, the walk accepts exactly the values that the schema accepts. -/

namespace Conform

mutual

/-- What a schema makes of a value. -/
def Schema.Yields : Schema → Value → Value → Prop
  | .leaf kind, v, w => kind.admits v = true ∧ w = v
  | .literal expected, v, w => v.type = expected.type ∧ v.equal? expected = some true ∧ w = v
  | .custom own, v, w => own.takes v = true ∧ w = v
  | .array item, v, w =>
    ∃ e ws, v.elements? = some e ∧ List.Forall₂ (fun x y => item.Yields x y) e.toList ws ∧
      w = .list ws
  | .tuple items, v, w => ∃ e ws, v.elements? = some e ∧ PositionsYield items e.toList ws ∧ w = .list ws
  | .object fields, v, w =>
    ∃ es done, v.entries? = some es ∧ FieldsYield fields es done ∧
      w = .dict (done ++ undeclared fields es)
  | .optional inner, v, w => (v = .null ∧ w = .null) ∨ (v ≠ .null ∧ inner.Yields v w)
  | .union options, v, w => FirstYields options v w
  | .table key value, v, w =>
    ∃ es, v.entries? = some es ∧
      ((key = none ∧ value = none ∧ w = v) ∨
        (¬ (key = none ∧ value = none) ∧ ∃ fs : Entries,
          List.Forall₂ (fun e f => PartYields key e.1 f.1 ∧ PartYields value e.2 f.2 ∧
            f.1.isHashable = true) es fs ∧
          w = .dict (KeyTable.ofList fs)))
termination_by structural s => s

def PositionsYield : List Schema → List Value → List Value → Prop
  | [], vs, ws => vs = [] ∧ ws = []
  | s :: items, vs, ws =>
    ∃ x xs y ys, vs = x :: xs ∧ ws = y :: ys ∧ s.Yields x y ∧ PositionsYield items xs ys
termination_by structural items => items

def FieldsYield : List (FieldName × Schema) → Entries → Entries → Prop
  | [], _, done => done = []
  | (name, s) :: fields, es, done =>
    ∃ x y rest, es.get? name.value = some x ∧ s.Yields x y ∧ FieldsYield fields es rest ∧
      done = (name.value, y) :: rest
termination_by structural fields => fields

def FirstYields : List Schema → Value → Value → Prop
  | [], _, _ => False
  | s :: options, v, w => s.Yields v w ∨ ((∀ u, ¬ s.Yields v u) ∧ FirstYields options v w)
termination_by structural options => options

def PartYields : Option Schema → Value → Value → Prop
  | none, v, w => w = v
  | some s, v, w => s.Yields v w
termination_by structural part => part

end

/-- Which values a schema accepts. A table without schemas takes any mapping; where it has one, the checked
keys, or the keys themselves if they have no schema, must be keys. -/
def Schema.Accepts : Schema → Value → Prop
  | .leaf kind, v => kind.admits v = true
  | .literal expected, v => v.type = expected.type ∧ v.equal? expected = some true
  | .custom own, v => own.takes v = true
  | .array item, v => ∃ e, v.elements? = some e ∧ ∀ x ∈ e.toList, item.Accepts x
  | .tuple items, v =>
    ∃ e, v.elements? = some e ∧ e.toList.length = items.length ∧
      ∀ i, (h : i < items.length) → ∀ x, e.toList[i]? = some x → items[i].Accepts x
  | .object fields, v =>
    ∃ es, v.entries? = some es ∧ ∀ f ∈ fields, ∃ x, es.get? f.1.value = some x ∧ f.2.Accepts x
  | .optional inner, v => v = .null ∨ inner.Accepts v
  | .union options, v => ∃ s, ∃ _ : s ∈ options, s.Accepts v
  | .table key value, v =>
    ∃ es, v.entries? = some es ∧
      ((key = none ∧ value = none) ∨
        ∀ e ∈ es, (∃ k, PartYields key e.1 k ∧ k.isHashable = true) ∧ ∀ s ∈ value, s.Accepts e.2)
termination_by s => sizeOf s
decreasing_by
  all_goals apply Schema.sizeOf_lt_of_mem_parts
  · exact Schema.item_mem_parts
  · exact List.getElem_mem ‹_›
  · exact Schema.field_mem_parts ‹_›
  · exact Schema.inner_mem_parts
  · exact ‹_›
  · exact Schema.value_mem_parts ‹_›

/-! The lists in the definition, all at once. -/

theorem positionsYield_iff {items : List Schema} {vs ws : List Value} :
    PositionsYield items vs ws ↔
      items.length = vs.length ∧ List.Forall₂ (fun p y => p.1.Yields p.2 y) (items.zip vs) ws := by
  induction items generalizing vs ws with
  | nil => cases vs <;> simp [PositionsYield]
  | cons s items ih =>
    cases vs with
    | nil => simp [PositionsYield]
    | cons v vs => cases ws <;> simp [PositionsYield, ih, and_left_comm]

theorem fieldsYield_iff {fields : List (FieldName × Schema)} {es done : Entries} :
    FieldsYield fields es done ↔
      List.Forall₂ (fun f e => e.1 = f.1.value ∧
        ∃ x, es.get? f.1.value = some x ∧ f.2.Yields x e.2) fields done := by
  induction fields generalizing done with
  | nil => simp [FieldsYield]
  | cons f fields ih =>
    obtain ⟨name, s⟩ := f
    simp only [FieldsYield, ih, List.forall₂_cons_left_iff]
    refine ⟨fun h => ?_, fun h => ?_⟩
    · obtain ⟨x, y, rest, hx, hy, hr, rfl⟩ := h
      exact ⟨(name.value, y), rest, ⟨rfl, x, hx, hy⟩, hr, rfl⟩
    · obtain ⟨⟨_, y⟩, rest, ⟨rfl, x, hx, hy⟩, hr, rfl⟩ := h
      exact ⟨x, y, rest, hx, hy, hr, rfl⟩

theorem firstYields_iff {options : List Schema} {v w : Value} :
    FirstYields options v w ↔
      ∃ before s after, options = before ++ s :: after ∧
        (∀ t ∈ before, ∀ u, ¬ t.Yields v u) ∧ s.Yields v w := by
  induction options with
  | nil => simp [FirstYields]
  | cons t options ih =>
    simp only [FirstYields, ih]
    refine ⟨fun h => ?_, fun h => ?_⟩
    · rcases h with h | ⟨hn, before, s, after, rfl, hb, hs⟩
      · exact ⟨[], t, options, rfl, by simp, h⟩
      · exact ⟨t :: before, s, after, rfl, List.forall_mem_cons.2 ⟨hn, hb⟩, hs⟩
    · obtain ⟨_ | ⟨u, before⟩, s, after, ho, hb, hs⟩ := h
      · obtain ⟨rfl, rfl⟩ := List.cons.inj ho
        exact .inl hs
      · obtain ⟨rfl, rfl⟩ := List.cons.inj ho
        obtain ⟨hn, hb⟩ := List.forall_mem_cons.1 hb
        exact .inr ⟨hn, before, s, after, rfl, hb, hs⟩

/-- Some option yields something if any of them does. -/
theorem exists_firstYields_iff {options : List Schema} {v : Value} :
    (∃ w, FirstYields options v w) ↔ ∃ s ∈ options, ∃ w, s.Yields v w := by
  induction options with
  | nil => simp [FirstYields]
  | cons t options ih =>
    simp only [FirstYields, List.exists_mem_cons_iff, ← ih]
    by_cases h : ∃ u, t.Yields v u
    · obtain ⟨u, hu⟩ := h
      exact iff_of_true ⟨u, .inl hu⟩ (.inl ⟨u, hu⟩)
    · have hn : ∀ u, ¬ t.Yields v u := fun u hu => h ⟨u, hu⟩
      simp [hn]

/-! A schema accepts what it makes something of. -/

namespace Schema

/-- Being accepted place by place, as a statement on pairs. -/
theorem forall_mem_zip_iff {P : Schema → Value → Prop} {items : List Schema} {xs : List Value} :
    (∀ p ∈ items.zip xs, P p.1 p.2) ↔
      ∀ i, (h : i < items.length) → ∀ x, xs[i]? = some x → P items[i] x := by
  constructor
  · intro hp i h x hx
    refine hp (items[i], x) (List.mem_iff_getElem?.2 ⟨i, ?_⟩)
    rw [List.getElem?_zip_eq_some]
    exact ⟨List.getElem?_eq_getElem h, hx⟩
  · rintro hp ⟨s, x⟩ hm
    obtain ⟨i, hi⟩ := List.mem_iff_getElem?.1 hm
    obtain ⟨hs, hx⟩ := List.getElem?_zip_eq_some.1 hi
    obtain ⟨h, rfl⟩ := List.getElem?_eq_some_iff.1 hs
    exact hp i h x hx

theorem accepts_iff_exists_yields {s : Schema} : ∀ {v}, s.Accepts v ↔ ∃ w, s.Yields v w := by
  induction s using induction with
  | leaf kind => intro v; simp [Accepts, Yields]
  | literal expected => intro v; simp [Accepts, Yields]
  | custom own => intro v; simp [Accepts, Yields]
  | array item ih =>
    intro v
    simp only [Accepts, Yields, ih]
    refine ⟨fun h => ?_, fun h => ?_⟩
    · obtain ⟨e, he, h⟩ := h
      obtain ⟨ws, hws⟩ := exists_forall₂_iff.2 h
      exact ⟨_, e, ws, he, hws, rfl⟩
    · obtain ⟨_, e, ws, he, hws, rfl⟩ := h
      exact ⟨e, he, exists_forall₂_iff.1 ⟨ws, hws⟩⟩
  | tuple items ih =>
    intro v
    have place {e : Elements} : (∀ i, (h : i < items.length) → ∀ x, e.toList[i]? = some x →
        items[i].Accepts x) ↔ ∀ p ∈ items.zip e.toList, ∃ y, p.1.Yields p.2 y := by
      rw [← forall_mem_zip_iff]
      refine forall₂_congr fun p hp => ?_
      exact ih p.1 (List.of_mem_zip hp).1
    simp only [Accepts, Yields, positionsYield_iff, place]
    refine ⟨fun h => ?_, fun h => ?_⟩
    · obtain ⟨e, he, hl, h⟩ := h
      obtain ⟨ws, hws⟩ := exists_forall₂_iff.2 h
      exact ⟨_, e, ws, he, ⟨hl.symm, hws⟩, rfl⟩
    · obtain ⟨_, e, ws, he, ⟨hl, hws⟩, rfl⟩ := h
      exact ⟨e, he, hl.symm, exists_forall₂_iff.1 ⟨ws, hws⟩⟩
  | object fields ih =>
    intro v
    simp only [Accepts, Yields, fieldsYield_iff]
    refine ⟨fun h => ?_, fun h => ?_⟩
    · obtain ⟨es, he, h⟩ := h
      obtain ⟨done, hdone⟩ := exists_forall₂_iff.2 fun f hf => by
        obtain ⟨x, hx, hy⟩ := h f hf
        obtain ⟨y, hy⟩ := (ih f hf).1 hy
        exact (⟨(f.1.value, y), rfl, x, hx, hy⟩ : ∃ e : Value × Value, e.1 = f.1.value ∧
          ∃ x, es.get? f.1.value = some x ∧ f.2.Yields x e.2)
      exact ⟨_, es, done, he, hdone, rfl⟩
    · obtain ⟨_, es, done, he, hdone, rfl⟩ := h
      refine ⟨es, he, fun f hf => ?_⟩
      obtain ⟨e, -, x, hx, hy⟩ := exists_forall₂_iff.1 ⟨done, hdone⟩ f hf
      exact ⟨x, hx, (ih f hf).2 ⟨e.2, hy⟩⟩
  | optional inner ih =>
    intro v
    simp only [Accepts, Yields, ih]
    by_cases hv : v = .null
    · exact iff_of_true (.inl hv) ⟨.null, .inl ⟨hv, rfl⟩⟩
    · simp [hv]
  | union options ih =>
    intro v
    simp only [Accepts, Yields, exists_firstYields_iff, exists_prop]
    exact exists_congr fun s => and_congr_right fun hs => ih s hs
  | table key value ihk ihv =>
    intro v
    simp only [Accepts, Yields]
    refine ⟨fun h => ?_, fun h => ?_⟩
    · obtain ⟨es, he, hn | h⟩ := h
      · exact ⟨v, es, he, .inl ⟨hn.1, hn.2, rfl⟩⟩
      · by_cases hn : key = none ∧ value = none
        · exact ⟨v, es, he, .inl ⟨hn.1, hn.2, rfl⟩⟩
        · obtain ⟨fs, hfs⟩ := exists_forall₂_iff.2 fun e he => by
            obtain ⟨⟨k, hk, hh⟩, hv⟩ := h e he
            have hx : ∃ x, PartYields value e.2 x := by
              cases value with
              | none => exact ⟨e.2, rfl⟩
              | some s => exact (ihv s rfl).1 (hv s rfl)
            obtain ⟨x, hx⟩ := hx
            exact (⟨(k, x), hk, hx, hh⟩ : ∃ f : Value × Value, PartYields key e.1 f.1 ∧
              PartYields value e.2 f.2 ∧ f.1.isHashable = true)
          exact ⟨_, es, he, .inr ⟨hn, fs, hfs, rfl⟩⟩
    · obtain ⟨w, es, he, ⟨hk, hv, -⟩ | ⟨-, fs, hfs, -⟩⟩ := h
      · exact ⟨es, he, .inl ⟨hk, hv⟩⟩
      · refine ⟨es, he, .inr fun e hm => ?_⟩
        obtain ⟨f, hk, hv, hh⟩ := exists_forall₂_iff.1 ⟨fs, hfs⟩ e hm
        refine ⟨⟨f.1, hk, hh⟩, fun s hs => ?_⟩
        obtain rfl := Option.mem_def.1 hs
        exact (ihv s rfl).2 ⟨f.2, hv⟩

theorem partYields_unique_of {part : Option Schema} {x y z : Value}
    (h : ∀ s ∈ part, ∀ {v w u : Value}, s.Yields v w → s.Yields v u → w = u)
    (hy : PartYields part x y) (hz : PartYields part x z) : y = z := by
  cases part with
  | none => exact Eq.trans hy hz.symm
  | some s => exact h s rfl hy hz

/-- A schema makes only one thing of a value. -/
theorem yields_unique {s : Schema} : ∀ {v w u : Value}, s.Yields v w → s.Yields v u → w = u := by
  induction s using induction with
  | leaf kind =>
    intro v w u hw hu
    rw [Yields] at hw hu
    exact hw.2.trans hu.2.symm
  | literal expected =>
    intro v w u hw hu
    rw [Yields] at hw hu
    exact hw.2.2.trans hu.2.2.symm
  | custom own =>
    intro v w u hw hu
    rw [Yields] at hw hu
    exact hw.2.trans hu.2.symm
  | array item ih =>
    intro v w u hw hu
    rw [Yields] at hw hu
    obtain ⟨e, ws, he, hws, rfl⟩ := hw
    obtain ⟨e', us, he', hus, rfl⟩ := hu
    obtain rfl := Option.some.inj (he.symm.trans he')
    rw [eq_of_forall₂ hws hus fun x _ y z => ih]
  | tuple items ih =>
    intro v w u hw hu
    simp only [Yields, positionsYield_iff] at hw hu
    obtain ⟨e, ws, he, ⟨-, hws⟩, rfl⟩ := hw
    obtain ⟨e', us, he', ⟨-, hus⟩, rfl⟩ := hu
    obtain rfl := Option.some.inj (he.symm.trans he')
    rw [eq_of_forall₂ hws hus fun p hp y z => ih p.1 (List.of_mem_zip hp).1]
  | object fields ih =>
    intro v w u hw hu
    simp only [Yields, fieldsYield_iff] at hw hu
    obtain ⟨es, done, he, hdone, rfl⟩ := hw
    obtain ⟨es', done', he', hdone', rfl⟩ := hu
    obtain rfl := Option.some.inj (he.symm.trans he')
    have unique : done = done' := by
      refine eq_of_forall₂ hdone hdone' fun f hf e e' hfe hfe' => ?_
      obtain ⟨hn, x, hx, hy⟩ := hfe
      obtain ⟨hn', x', hx', hy'⟩ := hfe'
      obtain rfl := Option.some.inj (hx.symm.trans hx')
      exact Prod.ext (hn.trans hn'.symm) (ih f hf hy hy')
    rw [unique]
  | optional inner ih =>
    intro v w u hw hu
    rw [Yields] at hw hu
    rcases hw with ⟨rfl, rfl⟩ | ⟨hn, hw⟩
    · rcases hu with ⟨-, rfl⟩ | ⟨hn, -⟩
      · rfl
      · exact absurd rfl hn
    · rcases hu with ⟨rfl, -⟩ | ⟨-, hu⟩
      · exact absurd rfl hn
      · exact ih hw hu
  | union options ih =>
    intro v w u hw hu
    rw [Yields] at hw hu
    induction options with
    | nil => exact hw.elim
    | cons t options iho =>
      rcases hw with hw | ⟨hn, hw⟩
      · rcases hu with hu | ⟨hn, -⟩
        · exact ih t List.mem_cons_self hw hu
        · exact absurd hw (hn w)
      · rcases hu with hu | ⟨-, hu⟩
        · exact absurd hu (hn u)
        · exact iho (fun t ht => ih t (List.mem_cons_of_mem _ ht)) hw hu
  | table key value ihk ihv =>
    intro v w u hw hu
    rw [Yields] at hw hu
    obtain ⟨es, he, ⟨hk, hv, rfl⟩ | ⟨hn, fs, hfs, rfl⟩⟩ := hw
    · obtain ⟨es', he', ⟨-, -, rfl⟩ | ⟨hn, -⟩⟩ := hu
      · rfl
      · exact absurd ⟨hk, hv⟩ hn
    · obtain ⟨es', he', ⟨hk, hv, -⟩ | ⟨-, gs, hgs, rfl⟩⟩ := hu
      · exact absurd ⟨hk, hv⟩ hn
      · obtain rfl := Option.some.inj (he.symm.trans he')
        rw [eq_of_forall₂ hfs hgs fun e _ f g hf hg =>
          Prod.ext (partYields_unique_of ihk hf.1 hg.1) (partYields_unique_of ihv hf.2.1 hg.2.1)]

theorem partYields_unique {part : Option Schema} {x y z : Value} (hy : PartYields part x y)
    (hz : PartYields part x z) : y = z :=
  partYields_unique_of (fun _ _ => yields_unique) hy hz

/-- What is no container is yielded as it is. -/
theorem eq_of_yields {s : Schema} {v : Value} (hs : v.elements? = none) (hm : v.entries? = none) :
    ∀ {w : Value}, s.Yields v w → w = v := by
  induction s using induction with
  | leaf kind =>
    intro w h
    rw [Yields] at h
    exact h.2
  | literal expected =>
    intro w h
    rw [Yields] at h
    exact h.2.2
  | custom own =>
    intro w h
    rw [Yields] at h
    exact h.2
  | array item ih =>
    intro w h
    rw [Yields] at h
    obtain ⟨e, ws, he, -⟩ := h
    simp [hs] at he
  | tuple items ih =>
    intro w h
    rw [Yields] at h
    obtain ⟨e, ws, he, -⟩ := h
    simp [hs] at he
  | object fields ih =>
    intro w h
    rw [Yields] at h
    obtain ⟨es, done, he, -⟩ := h
    simp [hm] at he
  | optional inner ih =>
    intro w h
    rw [Yields] at h
    rcases h with ⟨rfl, rfl⟩ | ⟨-, h⟩
    · rfl
    · exact ih h
  | union options ih =>
    intro w h
    rw [Yields, firstYields_iff] at h
    obtain ⟨before, t, after, rfl, -, h⟩ := h
    exact ih t (by simp) h
  | table key value ihk ihv =>
    intro w h
    rw [Yields] at h
    obtain ⟨es, he, -⟩ := h
    simp [hm] at he

/-- A string that the schema of keys accepts stays a key. -/
theorem exists_partYields_str_iff {key : Option Schema} {t : String} :
    (∃ k, PartYields key (.str t) k ∧ k.isHashable = true) ↔ ∀ s ∈ key, s.Accepts (.str t) := by
  cases key with
  | none => simp [PartYields, Value.isHashable]
  | some s =>
    simp only [PartYields, Option.mem_some_iff, forall_eq', accepts_iff_exists_yields]
    refine ⟨fun h => ?_, fun h => ?_⟩
    · obtain ⟨k, hk, -⟩ := h
      exact ⟨k, hk⟩
    · obtain ⟨k, hk⟩ := h
      refine ⟨k, hk, ?_⟩
      rw [eq_of_yields rfl rfl hk]
      rfl

end Schema

end Conform
