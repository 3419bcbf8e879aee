import Conform.Proofs.Schema.Acceptance
import Conform.Proofs.Schema.Breakdowns

/-! The walk agrees with what a schema accepts. Where the depth allows for the height of the schema, what the walk
accepts the schema yields, and from what the walk rejects it yields nothing. So the walk accepts all that the schema
accepts, unless it breaks off. -/

namespace Conform.Schema

variable {c : Settings} {s : Schema}

/-- Whether an outcome is right, if it is a verdict. -/
def Confirms (s : Schema) (v : Value) (o : Verdict) : Prop :=
  (∀ w, o = .accepted w → s.Yields v w) ∧ ∀ f, o = .rejected f → ∀ w, ¬ s.Yields v w

theorem confirms_child {t : Schema} {d : Nat} {v : Value} (ht : t ∈ s.parts) (hd : (d + s.height : Int) ≤ c.depthLimit)
    (ih : (((d + 1 : Nat) : Int) + t.height : Int) ≤ c.depthLimit → t.Confirms v (t.check c (d + 1) v)) :
    t.Confirms v (t.child c d v) := by
  have hh := height_lt_of_mem_parts ht
  rw [child_eq_check (by omega)]
  exact ih (by omega)

/-! What the walk does with a schema is right if what it does with the children is. -/

section Forms

variable {d : Nat} {v : Value}

theorem confirms_array {item : Schema} (hi : ∀ x, item.Confirms x (item.child c d x)) :
    (array item).Confirms v ((array item).check c d v) := by
  refine ⟨fun w h => ?_, fun f h w hw => ?_⟩
  · obtain ⟨e, ws, he, hws, rfl⟩ := check_array_eq_accepted_iff.1 h
    rw [Yields]
    exact ⟨e, ws, he, hws.imp fun x y hx => (hi x).1 y hx, rfl⟩
  · rw [Yields] at hw
    obtain ⟨e', ws, he', hws, -⟩ := hw
    rcases rejected_of_check_array h with ⟨hn, -⟩ | ⟨e, before, x, after, f', he, hx, -, hf, -⟩
    · simp [hn] at he'
    · obtain rfl := Option.some.inj (he.symm.trans he')
      obtain ⟨y, hy⟩ := exists_forall₂_iff.1 ⟨ws, hws⟩ x (by simp [hx])
      exact (hi x).2 f' hf y hy

theorem confirms_tuple {items : List Schema} (hi : ∀ t ∈ items, ∀ x, t.Confirms x (t.child c d x)) :
    (tuple items).Confirms v ((tuple items).check c d v) := by
  refine ⟨fun w h => ?_, fun f h w hw => ?_⟩
  · obtain ⟨e, ws, he, -, hl, hws, rfl⟩ := check_tuple_eq_accepted_iff.1 h
    rw [Yields]
    refine ⟨e, ws, he, positionsYield_iff.2 ⟨hl, ?_⟩, rfl⟩
    exact forall₂_imp_of_mem hws fun p hp y _ => (hi p.1 (List.of_mem_zip hp).1 p.2).1 y
  · rw [Yields] at hw
    obtain ⟨e', ws, he', hps, -⟩ := hw
    obtain ⟨hl', hws⟩ := positionsYield_iff.1 hps
    rcases rejected_of_check_tuple h with
      ⟨hn, -⟩ | ⟨e, he, ⟨hl, -, -⟩ | ⟨before, p, after, f', hp, -, hf, -⟩⟩
    · simp [hn] at he'
    · obtain rfl := Option.some.inj (he.symm.trans he')
      exact hl hl'
    · obtain rfl := Option.some.inj (he.symm.trans he')
      have hm : p ∈ items.zip e.toList := by simp [hp]
      obtain ⟨y, hy⟩ := exists_forall₂_iff.1 ⟨ws, hws⟩ p hm
      exact (hi p.1 (List.of_mem_zip hm).1 p.2).2 f' hf y hy

theorem confirms_object {fields : List (FieldName × Schema)}
    (hi : ∀ f ∈ fields, ∀ x, f.2.Confirms x (f.2.child c d x)) :
    (object fields).Confirms v ((object fields).check c d v) := by
  refine ⟨fun w h => ?_, fun f h w hw => ?_⟩
  · obtain ⟨es, done, he, hdone, rfl⟩ := check_object_eq_accepted_iff.1 h
    rw [Yields]
    refine ⟨es, done, he, fieldsYield_iff.2 (forall₂_imp_of_mem hdone fun f hf e _ hfe => ?_), rfl⟩
    obtain ⟨hn, x, hx, hy⟩ := hfe
    exact ⟨hn, x, hx, (hi f hf x).1 e.2 hy⟩
  · rw [Yields] at hw
    obtain ⟨es', done, he', hfs, -⟩ := hw
    rcases rejected_of_check_object h with ⟨hn, -⟩ | ⟨es, before, g, after, he, hg, -, h⟩
    · simp [hn] at he'
    obtain rfl := Option.some.inj (he.symm.trans he')
    have hm : g ∈ fields := by simp [hg]
    obtain ⟨e, -, x, hx, hy⟩ := exists_forall₂_iff.1 ⟨done, fieldsYield_iff.1 hfs⟩ g hm
    rcases h with ⟨hn, -⟩ | ⟨x', f', hx', hf, -⟩
    · simp [hn] at hx
    · obtain rfl := Option.some.inj (hx.symm.trans hx')
      exact (hi g hm x).2 f' hf e.2 hy

theorem confirms_optional {inner : Schema} (hi : inner.Confirms v (inner.child c d v)) :
    (optional inner).Confirms v ((optional inner).check c d v) := by
  have hn : v.isNull = false ↔ v ≠ .null := by rw [← Bool.not_eq_true, ne_eq, Value.isNull_iff]
  refine ⟨fun w h => ?_, fun f h w hw => ?_⟩
  · rw [Yields, ← hn]
    exact (check_optional_eq_accepted_iff.1 h).imp_right fun hv => ⟨hv.1, hi.1 w hv.2⟩
  · obtain ⟨hv, hf⟩ := rejected_of_check_optional h
    rw [Yields] at hw
    rcases hw with ⟨rfl, -⟩ | ⟨-, hw⟩
    · cases hv
    · exact hi.2 f hf w hw

theorem confirms_union {options : List Schema} (hi : ∀ t ∈ options, t.Confirms v (t.child c d v)) :
    (union options).Confirms v ((union options).check c d v) := by
  refine ⟨fun w h => ?_, fun f h w hw => ?_⟩
  · obtain ⟨before, t, after, rfl, hb, ht⟩ := check_union_eq_accepted_iff.1 h
    rw [Yields, firstYields_iff]
    refine ⟨before, t, after, rfl, fun u hu => ?_, (hi t (by simp)).1 w ht⟩
    obtain ⟨e, he, -⟩ := hb u hu
    exact (hi u (List.mem_append_left _ hu)).2 e he
  · obtain ⟨fs, hfs, -⟩ := rejected_of_check_union h
    rw [Yields] at hw
    obtain ⟨t, ht, w, hw⟩ := exists_firstYields_iff.1 ⟨w, hw⟩
    obtain ⟨e, -, he⟩ := exists_mem_of_forall₂ hfs ht
    exact (hi t ht).2 e he w hw

/-- As `Confirms`, for the keys or the values of a table. -/
def ConfirmsPart (part : Option Schema) (x : Value) (o : Verdict) : Prop :=
  (∀ y, o = .accepted y → PartYields part x y) ∧ ∀ f, o = .rejected f → ∀ y, ¬ PartYields part x y

theorem confirmsPart_checkPart {part : Option Schema} {x : Value}
    (h : ∀ t ∈ part, t.Confirms x (t.child c d x)) : ConfirmsPart part x (checkPart c part d x) := by
  cases part with
  | none => simp [ConfirmsPart, checkPart_none, PartYields, eq_comm]
  | some t =>
    have ht := h t rfl
    rwa [← checkPart_some] at ht

theorem confirms_table {key value : Option Schema} (hk : ∀ x, ConfirmsPart key x (checkPart c key d x))
    (hv : ∀ x, ConfirmsPart value x (checkPart c value d x)) :
    (table key value).Confirms v ((table key value).check c d v) := by
  refine ⟨fun w h => ?_, fun f hr w hw => ?_⟩
  · obtain ⟨es, he, hn | ⟨hn, fs, hfs, rfl⟩⟩ := check_table_eq_accepted_iff.1 h
    · rw [Yields]
      exact ⟨es, he, .inl hn⟩
    · rw [Yields]
      refine ⟨es, he, .inr ⟨hn, fs, hfs.imp fun e f hef => ?_, rfl⟩⟩
      exact ⟨(hk e.1).1 f.1 hef.1, (hv e.2).1 f.2 hef.2.1, hef.2.2⟩
  · rw [Yields] at hw
    obtain ⟨es', he', hw⟩ := hw
    rcases rejected_of_check_table hr with ⟨hn, -⟩ | ⟨es, before, e, after, he, hes, -, h⟩
    · simp [hn] at he'
    obtain rfl := Option.some.inj (he.symm.trans he')
    have hm : e ∈ es := by simp [hes]
    rcases hw with ⟨rfl, rfl, rfl⟩ | ⟨-, fs, hfs, -⟩
    · rw [check_table_eq_accepted_iff.2 ⟨es, he, .inl ⟨rfl, rfl, rfl⟩⟩] at hr
      cases hr
    · obtain ⟨g, hgk, hgv, hgh⟩ := exists_forall₂_iff.1 ⟨fs, hfs⟩ e hm
      rcases h with ⟨f', hf, -⟩ | ⟨k, hke, ⟨f', hf, -⟩ | ⟨-, hh, -⟩⟩
      · exact (hk e.1).2 f' hf g.1 hgk
      · exact (hv e.2).2 f' hf g.2 hgv
      · -- the checked key is what the schema of keys yields, and that is a key
        rw [partYields_unique ((hk e.1).1 k hke) hgk] at hh
        simp [hgh] at hh

end Forms

theorem confirms_check : ∀ {d : Nat} {v : Value}, (d + s.height : Int) ≤ c.depthLimit →
    s.Confirms v (s.check c d v) := by
  induction s using induction with
  | leaf kind =>
    intro d v _
    refine ⟨fun w h => ?_, fun f h w hw => ?_⟩
    · rwa [Yields, ← check_leaf_eq_accepted_iff]
    · rw [Yields] at hw
      simp [(rejected_of_check_leaf h).1] at hw
  | literal expected =>
    intro d v _
    refine ⟨fun w h => ?_, fun f h w hw => ?_⟩
    · rwa [Yields, ← check_literal_eq_accepted_iff]
    · rw [Yields] at hw
      simp [(rejected_of_check_literal h).1 hw.1] at hw
  | custom own =>
    intro d v _
    refine ⟨fun w h => ?_, fun f h w hw => ?_⟩
    · rwa [Yields, ← check_custom_eq_accepted_iff]
    · rw [Yields] at hw
      simp [(rejected_of_check_custom h).1] at hw
  | array item ih => exact fun hd => confirms_array fun x => confirms_child item_mem_parts hd ih
  | tuple items ih =>
    exact fun hd => confirms_tuple fun t ht x => confirms_child (s := .tuple items) ht hd (ih t ht)
  | object fields ih =>
    exact fun hd => confirms_object fun f hf x => confirms_child (field_mem_parts hf) hd (ih f hf)
  | optional inner ih => exact fun hd => confirms_optional (confirms_child inner_mem_parts hd ih)
  | union options ih =>
    exact fun hd => confirms_union fun t ht => confirms_child (s := .union options) ht hd (ih t ht)
  | table key value ihk ihv =>
    intro d v hd
    refine confirms_table (fun x => confirmsPart_checkPart fun t ht => ?_)
      fun x => confirmsPart_checkPart fun t ht => ?_
    · exact confirms_child (key_mem_parts ht) hd (ihk t ht)
    · exact confirms_child (value_mem_parts ht) hd (ihv t ht)

/-- Whatever stands between the walk and the acceptance of what the schema accepts, it is a breakdown. -/
theorem isAccepted_or_broken {d : Nat} {v : Value} (hd : (d + s.height : Int) ≤ c.depthLimit)
    (h : s.Accepts v) : (s.check c d v).isAccepted = true ∨ ∃ b, s.check c d v = .broken b := by
  obtain ⟨w, hw⟩ := accepts_iff_exists_yields.1 h
  cases ho : s.check c d v with
  | accepted u => exact .inl rfl
  | rejected f => exact absurd hw ((confirms_check hd).2 f ho w)
  | broken b => exact .inr ⟨b, rfl⟩

theorem accepts_of_isAccepted {d : Nat} {v : Value} (hd : (d + s.height : Int) ≤ c.depthLimit)
    (h : (s.check c d v).isAccepted = true) : s.Accepts v := by
  obtain ⟨w, hw⟩ := Outcome.isAccepted_iff.1 h
  exact accepts_iff_exists_yields.2 ⟨w, (confirms_check hd).1 w hw⟩

theorem isAccepted_check_iff {d : Nat} {v : Value} (hd : (d + s.height : Int) ≤ c.depthLimit)
    (hb : ∀ b, s.check c d v ≠ .broken b) : (s.check c d v).isAccepted = true ↔ s.Accepts v :=
  ⟨accepts_of_isAccepted hd, fun h => (isAccepted_or_broken hd h).resolve_right fun ⟨b, h⟩ => hb b h⟩

/-- Under a sufficient limit validation accepts only what the schema accepts, and it accepts all of it, unless it
breaks off because of an integer with too many digits; where all integers are short, it accepts exactly that. -/
theorem isAccepted_validate {s : Schema} {c : Settings} {v : Value} (hs : s.isQuiet = true)
    (hq : v.isQuiet = true) (hm : v.isMeasurable = true) (hd : (s.height : Int) ≤ c.depthLimit) :
    ((s.validate c v).isAccepted = true → s.Accepts v) ∧
      (s.Accepts v → (s.validate c v).isAccepted = true ∨ s.validate c v = .broken .unwritable) ∧
      (s.isShort = true → v.isShort = true → ((s.validate c v).isAccepted = true ↔ s.Accepts v)) := by
  have hd : ((0 : Nat) + s.height : Int) ≤ c.depthLimit := by simpa using hd
  refine ⟨accepts_of_isAccepted hd, fun h => ?_, fun hss hvs => isAccepted_check_iff hd fun b h => ?_⟩
  · refine (isAccepted_or_broken hd h).imp_right fun ⟨b, h⟩ => ?_
    rwa [← eq_unwritable_of_broken hs hq hm h]
  · obtain rfl := eq_unwritable_of_broken hs hq hm h
    exact check_ne_unwritable hss hvs h

theorem accepts_of_isAccepted_validate :
    let s : Schema := .table (some (.leaf .string)) (some (.union
      [.tuple [.leaf .integer, .optional (.leaf .string)],
        .object [(.text "on", .literal (.bool true))]]))
    let v : Value := .dict [(.str "a", .seq .tuple [.int 1, .null]),
      (.str "b", .map .view [(.str "on", .bool true), (.int 0, .range 0 3 1)])]
    (s.validate { depthLimit := 4 } v).isAccepted = true ∧ s.isShort = true ∧ v.isShort = true ∧ s.Accepts v := by
  intro s v
  have h : (s.validate { depthLimit := 4 } v).isAccepted = true := by decide
  exact ⟨h, by decide, by decide,
    (isAccepted_validate (by decide) (by decide) (by decide) (by decide)).1 h⟩

/-- A union does not get to the option that accepts an integer, if an option before it has to show the integer and
the integer has too many digits. -/
theorem validate_long_integer :
    let s : Schema := .union [.leaf .string, .leaf .integer]
    let v : Value := .int (10 ^ Number.digitLimit)
    s.Accepts v ∧ s.validate {} v = .broken .unwritable := by
  intro s v
  refine ⟨?_, validate_union_long (by simp)⟩
  rw [Accepts]
  exact ⟨.leaf .integer, by simp, by rw [Accepts]; rfl⟩

end Conform.Schema
