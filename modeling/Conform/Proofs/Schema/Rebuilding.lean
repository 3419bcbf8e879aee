import Conform.Proofs.Schema.Forms
import Conform.Proofs.Value.Keys

/-! What is accepted is the value itself, up to rebuilding: a sequence may come back as a list and a mapping
as a dictionary, with their parts rebuilt in turn. Nothing else changes. An object puts its declared fields
in front of the others. A table keeps its entries in order: a checked key that can still be a key was not
rebuilt, so no two keys become one.

Other relations between a value and what becomes of it follow in the same way: it is enough that one layer of
rebuilding keeps them (`rel_of_check`). -/

namespace Conform

/-- A value and what rebuilding may make of it. -/
inductive Value.Rebuilt : Value → Value → Prop
  | same (v : Value) : Rebuilt v v
  | sequence {v : Value} {e : Elements} {ws : List Value} : v.elements? = some e →
      List.Forall₂ Rebuilt e.toList ws → Rebuilt v (.list ws)
  /-- The keys are those of the mapping, in some order, and each occurs once. -/
  | mapping {v : Value} {es es' fs : Entries} : v.entries? = some es → es.Perm es' →
      List.Forall₂ (fun e f => e.1 = f.1 ∨ e.1.same f.1 = true) es' fs →
      Value.areDistinct (fs.map (·.1)) = true →
      List.Forall₂ Rebuilt (es'.map (·.2)) (fs.map (·.2)) → Rebuilt v (.dict fs)

/-- One layer of rebuilding, over a relation between parts. The key of a declared field is written as its
name. -/
inductive Value.RebuiltOver (names : FieldName → Bool) (R : Value → Value → Prop) : Value → Value → Prop
  | same (v : Value) : RebuiltOver names R v v
  | sequence {v : Value} {e : Elements} {ws : List Value} : v.elements? = some e →
      List.Forall₂ R e.toList ws → RebuiltOver names R v (.list ws)
  | mapping {v : Value} {es es' fs : Entries} : v.entries? = some es → es.Perm es' →
      List.Forall₂ (fun e f => (e.1 = f.1 ∨
        ∃ n : FieldName, names n = true ∧ f.1 = n.value ∧ e.1.string? = some n.string) ∧ R e.2 f.2)
        es' fs →
      Value.areDistinct (fs.map (·.1)) = true → RebuiltOver names R v (.dict fs)

namespace Value.RebuiltOver

variable {names : FieldName → Bool} {R S : Value → Value → Prop} {v w : Value}

theorem imp (h : v.RebuiltOver names R w) (hi : ∀ x y, R x y → S x y) : v.RebuiltOver names S w := by
  cases h with
  | same => exact .same v
  | sequence he hws => exact .sequence he (hws.imp hi)
  | mapping he hp hr hd => exact .mapping he hp (hr.imp fun e f hef => hef.imp_right (hi e.2 f.2)) hd

theorem rebuilt (h : v.RebuiltOver names Rebuilt w) : v.Rebuilt w := by
  cases h with
  | same => exact .same v
  | sequence he hws => exact .sequence he hws
  | mapping he hp hr hd =>
    refine .mapping he hp (hr.imp fun e f hef => hef.1.imp_right ?_) hd ?_
    · rw [List.forall₂_map_left_iff, List.forall₂_map_right_iff]
      exact hr.imp fun _ _ hef => hef.2
    · rintro ⟨n, -, hf, he⟩
      rw [hf, same_fieldName_right, he, beq_self_eq_true]

end Value.RebuiltOver

/-- Whether the names of all fields in a schema are among the given ones. -/
def Schema.hasNamesIn (names : FieldName → Bool) (s : Schema) : Bool :=
  s.everywhere fun
    | .object fields => fields.all fun f => names f.1
    | _ => true

/-- Whether no object in a schema declares a name twice. -/
def Schema.hasDistinctNames (s : Schema) : Bool :=
  s.everywhere fun
    | .object fields => decide (fields.map (·.1.string)).Nodup
    | _ => true

theorem Schema.nodup_of_hasDistinctNames {fields : List (FieldName × Schema)}
    (h : (Schema.object fields).hasDistinctNames = true) : (fields.map (·.1.string)).Nodup := by
  simpa using here_of_everywhere h

/-! The fields of an object among the entries of a mapping. -/

section Fields

variable {fields : List (FieldName × Schema)} {es : Entries}

theorem undeclared_eq : undeclared fields es =
    es.filter fun e => !fields.any fun f => e.1.string? == some f.1.string := by
  simp only [undeclared, Value.same_fieldName_right]

/-- The entry of a declared field, the other entries, and what these are to the other fields. -/
theorem exists_entry (fields : List (FieldName × Schema)) {f : FieldName × Schema} {x : Value}
    (hx : es.get? f.1.value = some x) (hd : Value.areDistinct (es.map (·.1)) = true) :
    ∃ (e : Value × Value) (rest : Entries), es.Perm (e :: rest) ∧ rest.Sublist es ∧
      e.1.string? = some f.1.string ∧ e.2 = x ∧ undeclared (f :: fields) es = undeclared fields rest ∧
      ∀ n : FieldName, n.string ≠ f.1.string → rest.get? n.value = es.get? n.value := by
  rw [KeyTable.get?_fieldName, Option.map_eq_some_iff] at hx
  obtain ⟨e, he, rfl⟩ := hx
  obtain ⟨hs, before, after, rfl, hb⟩ := List.find?_eq_some_iff_append.1 he
  have hs : e.1.string? = some f.1.string := by simpa using hs
  rw [Value.areDistinct_iff, List.pairwise_map, List.pairwise_append] at hd
  -- no other entry has the name of the field, since it would be the same key
  have ha : ∀ g ∈ after, (g.1.string? == some f.1.string) = false := fun g hg => by
    have hne := ((List.pairwise_cons.1 hd.2.1).1 g hg).1
    rwa [Value.same_of_string? hs] at hne
  have hb' : ∀ g ∈ before, (g.1.string? == some f.1.string) = false := fun g hg => by
    simpa using hb g hg
  refine ⟨e, before ++ after, List.perm_middle, ?_, hs, rfl, ?_, ?_⟩
  · exact List.Sublist.append_left (List.sublist_cons_self e after) before
  · rw [undeclared_eq, undeclared_eq, List.filter_append, List.filter_append, List.filter_cons]
    simp only [List.any_cons, hs, beq_self_eq_true, Bool.true_or, Bool.not_true, Bool.false_eq_true,
      if_false]
    congr 1
    · exact List.filter_congr fun g hg => by rw [hb' g hg, Bool.false_or]
    · exact List.filter_congr fun g hg => by rw [ha g hg, Bool.false_or]
  · intro n hn
    have he : (e.1.string? == some n.string) = false := by
      rw [hs]
      simpa using Ne.symm hn
    simp only [KeyTable.get?_fieldName, List.find?_append, List.find?_cons, he]

theorem exists_entries (hd : Value.areDistinct (es.map (·.1)) = true)
    (hn : (fields.map (·.1.string)).Nodup) (hf : ∀ f ∈ fields, (es.get? f.1.value).isSome = true) :
    ∃ found : Entries, es.Perm (found ++ undeclared fields es) ∧
      List.Forall₂ (fun f e => e.1.string? = some f.1.string ∧ es.get? f.1.value = some e.2)
        fields found := by
  induction fields generalizing es with
  | nil => exact ⟨[], by simp [undeclared], .nil⟩
  | cons f fields ih =>
    obtain ⟨hf, hr⟩ := List.forall_mem_cons.1 hf
    obtain ⟨x, hx⟩ := Option.isSome_iff_exists.1 hf
    obtain ⟨e, rest, hp, hsub, hs, rfl, hu, hg⟩ := exists_entry fields hx hd
    rw [List.map_cons, List.nodup_cons] at hn
    have hne : ∀ g ∈ fields, g.1.string ≠ f.1.string := fun g hg he =>
      hn.1 (he ▸ List.mem_map_of_mem hg)
    have hd' : Value.areDistinct (rest.map (·.1)) = true := by
      rw [Value.areDistinct_iff] at hd ⊢
      exact hd.sublist (hsub.map _)
    obtain ⟨found, hp', hf'⟩ := ih hd' hn.2 fun g hm => by
      rw [hg _ (hne g hm)]
      exact hr g hm
    refine ⟨e :: found, ?_, .cons ⟨hs, hx⟩ ?_⟩
    · rw [hu, List.cons_append]
      exact hp.trans (hp'.cons e)
    · refine (forall₂_congr_of_mem fun g hm y => ?_).1 hf'
      rw [hg _ (hne g hm)]

/-- Checked fields and the entries that are not declared hold each key once. -/
theorem areDistinct_declared {done : Entries} (hd : Value.areDistinct (es.map (·.1)) = true)
    (hn : (fields.map (·.1.string)).Nodup) (hk : done.map (·.1) = fields.map (·.1.value)) :
    Value.areDistinct ((done ++ undeclared fields es).map (·.1)) = true := by
  have name_ne {m n : FieldName} (h : m.string ≠ n.string) : m.value.same n.value = false := by
    rw [Value.same_fieldName_left, Value.string?_fieldName]
    simpa using h.symm
  rw [Value.areDistinct_iff] at hd ⊢
  rw [List.map_append, hk, List.pairwise_append]
  refine ⟨?_, hd.sublist (List.filter_sublist.map _), ?_⟩
  · rw [List.Nodup, List.pairwise_map] at hn
    rw [List.pairwise_map]
    exact hn.imp fun h => ⟨name_ne h, name_ne h.symm⟩
  · intro a ha b hb
    obtain ⟨f, hf, rfl⟩ := List.mem_map.1 ha
    obtain ⟨e, he, rfl⟩ := List.mem_map.1 hb
    have hne : (e.1.string? == some f.1.string) = false := by
      rw [undeclared_eq, List.mem_filter, Bool.not_eq_true', List.any_eq_false] at he
      simpa using he.2 f hf
    exact ⟨by rw [Value.same_fieldName_left, hne], by rw [Value.same_fieldName_right, hne]⟩

end Fields

namespace Schema

variable {c : Settings}

/-- A checked key is the key itself, or can no longer be one. -/
theorem eq_or_isHashable_eq_false {s : Schema} : ∀ {d : Nat} {v w : Value},
    s.check c d v = .accepted w → w = v ∨ w.isHashable = false := by
  induction s using induction with
  | leaf kind => intro d v w h; exact .inl (check_leaf_eq_accepted_iff.1 h).2
  | literal expected => intro d v w h; exact .inl (check_literal_eq_accepted_iff.1 h).2.2
  | custom own => intro d v w h; exact .inl (check_custom_eq_accepted_iff.1 h).2
  | object fields ih =>
    intro d v w h
    obtain ⟨es, done, -, -, rfl⟩ := check_object_eq_accepted_iff.1 h
    exact .inr rfl
  | array item ih =>
    intro d v w h
    obtain ⟨e, ws, -, -, rfl⟩ := check_array_eq_accepted_iff.1 h
    exact .inr rfl
  | tuple items ih =>
    intro d v w h
    obtain ⟨e, ws, -, -, -, -, rfl⟩ := check_tuple_eq_accepted_iff.1 h
    exact .inr rfl
  | union options ih =>
    intro d v w h
    obtain ⟨before, s, after, rfl, -, hs⟩ := check_union_eq_accepted_iff.1 h
    exact ih s (by simp) (enter_eq_accepted_iff.1 hs).2
  | optional inner ih =>
    intro d v w h
    rcases check_optional_eq_accepted_iff.1 h with ⟨rfl, rfl⟩ | ⟨-, hw⟩
    · exact .inl rfl
    · exact ih (enter_eq_accepted_iff.1 hw).2
  | table key value ihk ihv =>
    intro d v w h
    obtain ⟨es, -, ⟨-, -, rfl⟩ | ⟨-, fs, -, rfl⟩⟩ := check_table_eq_accepted_iff.1 h
    · exact .inl rfl
    · exact .inr rfl

theorem key_eq_of_checkPart {key : Option Schema} {d : Nat} {k k' : Value}
    (h : checkPart c key d k = .accepted k') (hh : k'.isHashable = true) : k' = k := by
  cases key with
  | none =>
    rw [checkPart_none, Outcome.accepted.injEq] at h
    exact h.symm
  | some s =>
    rw [checkPart_some, enter_eq_accepted_iff] at h
    rcases eq_or_isHashable_eq_false h.2 with he | he
    · exact he
    · simp [he] at hh

theorem keys_eq_of_entries {key value : Option Schema} {d : Nat} {es fs : Entries}
    (h : List.Forall₂ (fun e f => checkPart c key d e.1 = .accepted f.1 ∧
      checkPart c value d e.2 = .accepted f.2 ∧ f.1.isHashable = true) es fs) :
    fs.map (·.1) = es.map (·.1) := by
  rw [← List.forall₂_eq_eq_eq, List.forall₂_map_left_iff, List.forall₂_map_right_iff]
  exact h.flip.imp fun f e he => key_eq_of_checkPart he.1 he.2.2

theorem keys_eq_of_fields {fields : List (FieldName × Schema)} {d : Nat} {es done : Entries}
    (h : List.Forall₂ (fun f e => e.1 = f.1.value ∧
      ∃ x, es.get? f.1.value = some x ∧ f.2.child c d x = .accepted e.2) fields done) :
    done.map (·.1) = fields.map (·.1.value) := by
  rw [← List.forall₂_eq_eq_eq, List.forall₂_map_left_iff, List.forall₂_map_right_iff]
  exact h.flip.imp fun _ _ h => h.1

/-- A relation that holds over a layer of rebuilding whenever it holds of the parts holds between a value and
what a schema makes of it. -/
theorem rel_of_check {names : FieldName → Bool} {R : Value → Value → Prop}
    (hR : ∀ v w, Value.RebuiltOver names R v w → R v w) {s : Schema} (hs : s.hasDistinctNames = true)
    (hn : s.hasNamesIn names = true) : ∀ {d : Nat} {v w : Value},
    v.hasDistinctKeys = true → s.check c d v = .accepted w → R v w := by
  have rel_self (v : Value) : R v v := hR v v (.same v)
  induction s using induction with
  | leaf kind =>
    intro d v w _ h
    rw [(check_leaf_eq_accepted_iff.1 h).2]
    exact rel_self v
  | literal expected =>
    intro d v w _ h
    rw [(check_literal_eq_accepted_iff.1 h).2.2]
    exact rel_self v
  | custom own =>
    intro d v w _ h
    rw [(check_custom_eq_accepted_iff.1 h).2]
    exact rel_self v
  | array item ih =>
    intro d v w hv h
    obtain ⟨e, ws, he, hws, rfl⟩ := check_array_eq_accepted_iff.1 h
    refine hR _ _ (.sequence he (forall₂_imp_of_mem hws fun x hx y _ hxy => ?_))
    exact ih (everywhere_of_mem_parts hs item_mem_parts) (everywhere_of_mem_parts hn item_mem_parts)
      (Value.everywhere_of_mem_elements hv (fun _ => rfl) he x hx) (enter_eq_accepted_iff.1 hxy).2
  | tuple items ih =>
    intro d v w hv h
    obtain ⟨e, ws, he, -, hl, hws, rfl⟩ := check_tuple_eq_accepted_iff.1 h
    have hr : List.Forall₂ (fun p y => R p.2 y) (items.zip e.toList) ws := by
      refine forall₂_imp_of_mem hws fun p hp y _ hpy => ?_
      obtain ⟨hi, hx⟩ := List.of_mem_zip hp
      exact ih p.1 hi (everywhere_of_mem_parts hs hi) (everywhere_of_mem_parts hn hi)
        (Value.everywhere_of_mem_elements hv (fun _ => rfl) he _ hx) (enter_eq_accepted_iff.1 hpy).2
    rw [← List.forall₂_map_left_iff (f := Prod.snd), List.map_snd_zip (Nat.le_of_eq hl.symm)] at hr
    exact hR _ _ (.sequence he hr)
  | object fields ih =>
    intro d v w hv h
    obtain ⟨es, done, he, hdone, rfl⟩ := check_object_eq_accepted_iff.1 h
    have hd := Value.areDistinct_of_entries? hv he
    have hnames := nodup_of_hasDistinctNames hs
    have hin : ∀ f ∈ fields, names f.1 = true := by simpa using here_of_everywhere hn
    obtain ⟨found, hp, hfound⟩ := exists_entries hd hnames fun f hf => by
      obtain ⟨e, -, x, hx, -⟩ := exists_forall₂_iff.1 ⟨done, hdone⟩ f hf
      simp [hx]
    have hboth : List.Forall₂ (fun e g => (∃ n : FieldName, names n = true ∧ g.1 = n.value ∧
        e.1.string? = some n.string) ∧ R e.2 g.2) found done := by
      refine (forall₂_of_common hfound hdone).imp ?_
      rintro e g ⟨f, hf, ⟨hse, hx⟩, hg, x, hx', hw⟩
      obtain rfl := Option.some.inj (hx.symm.trans hx')
      refine ⟨⟨f.1, hin f hf, hg, hse⟩, ?_⟩
      exact ih f hf (everywhere_of_mem_parts hs (field_mem_parts hf))
        (everywhere_of_mem_parts hn (field_mem_parts hf)) (Value.everywhere_of_get? hv he hx)
        (enter_eq_accepted_iff.1 hw).2
    refine hR _ _ (.mapping he hp ?_ (areDistinct_declared hd hnames (keys_eq_of_fields hdone)))
    exact List.rel_append (hboth.imp fun _ _ h => h.imp_left .inr)
      (List.forall₂_same.2 fun e _ => ⟨.inl rfl, rel_self e.2⟩)
  | union options ih =>
    intro d v w hv h
    obtain ⟨before, s, after, rfl, -, hw⟩ := check_union_eq_accepted_iff.1 h
    have hm : s ∈ before ++ s :: after := by simp
    exact ih s hm (everywhere_of_mem_parts hs hm) (everywhere_of_mem_parts hn hm) hv
      (enter_eq_accepted_iff.1 hw).2
  | optional inner ih =>
    intro d v w hv h
    rcases check_optional_eq_accepted_iff.1 h with ⟨rfl, rfl⟩ | ⟨-, hw⟩
    · exact rel_self _
    · exact ih (everywhere_of_mem_parts hs inner_mem_parts) (everywhere_of_mem_parts hn inner_mem_parts)
        hv (enter_eq_accepted_iff.1 hw).2
  | table key value ihk ihv =>
    intro d v w hv h
    obtain ⟨es, he, ⟨-, -, rfl⟩ | ⟨-, fs, hfs, rfl⟩⟩ := check_table_eq_accepted_iff.1 h
    · exact rel_self _
    · have hk := keys_eq_of_entries hfs
      have hd : Value.areDistinct (fs.map (·.1)) = true := hk ▸ Value.areDistinct_of_entries? hv he
      rw [KeyTable.ofList_of_distinct hd]
      refine hR _ _ (.mapping he (List.Perm.refl es) (forall₂_imp_of_mem hfs ?_) hd)
      rintro e hm f - ⟨hw, hw', hh⟩
      refine ⟨.inl (key_eq_of_checkPart hw hh).symm, ?_⟩
      have hx := (Value.everywhere_of_mem_entries hv he hm).2
      cases value with
      | none =>
        rw [checkPart_none, Outcome.accepted.injEq] at hw'
        exact hw' ▸ rel_self e.2
      | some t =>
        rw [checkPart_some, enter_eq_accepted_iff] at hw'
        exact ihv t rfl (everywhere_of_mem_parts hs (value_mem_parts rfl))
          (everywhere_of_mem_parts hn (value_mem_parts rfl)) hx hw'.2

theorem rebuilt_of_check {s : Schema} (hs : s.hasDistinctNames = true) {d : Nat} {v w : Value}
    (hv : v.hasDistinctKeys = true) (h : s.check c d v = .accepted w) : v.Rebuilt w := by
  have hn : s.hasNamesIn (fun _ => true) = true :=
    everywhere_mono (fun t _ => by cases t <;> simp) hs
  exact rel_of_check (fun _ _ hr => hr.rebuilt) hs hn hv h

/-- An object keeps every entry that it does not declare. -/
theorem mem_of_check_object {fields : List (FieldName × Schema)} {d : Nat} {v w : Value} {es : Entries}
    (h : (object fields).check c d v = .accepted w) (he : v.entries? = some es) :
    ∃ fs, w.entries? = some fs ∧
      ∀ e ∈ es, (∀ f ∈ fields, e.1.same f.1.value = false) → e ∈ fs := by
  obtain ⟨es', done, he', -, rfl⟩ := check_object_eq_accepted_iff.1 h
  obtain rfl := Option.some.inj (he.symm.trans he')
  refine ⟨_, rfl, fun e hm hn => List.mem_append_right _ (List.mem_filter.2 ⟨hm, ?_⟩)⟩
  rw [Bool.not_eq_true', List.any_eq_false]
  exact fun f hf => by simp [hn f hf]

/-- A table keeps every key at its place. -/
theorem keys_eq_of_check_table {key value : Option Schema} {d : Nat} {v w : Value} {es : Entries}
    (hv : v.hasDistinctKeys = true) (h : (table key value).check c d v = .accepted w)
    (he : v.entries? = some es) : ∃ fs, w.entries? = some fs ∧ fs.map (·.1) = es.map (·.1) := by
  obtain ⟨es', he', ⟨-, -, rfl⟩ | ⟨-, fs, hfs, rfl⟩⟩ := check_table_eq_accepted_iff.1 h
  · exact ⟨es, he, rfl⟩
  · obtain rfl := Option.some.inj (he.symm.trans he')
    have hk := keys_eq_of_entries hfs
    rw [KeyTable.ofList_of_distinct (hk ▸ Value.areDistinct_of_entries? hv he)]
    exact ⟨fs, rfl, hk⟩

/-- Whatever is no container comes back as it is. -/
theorem eq_of_rebuilt {v w : Value} (h : v.Rebuilt w) (hs : v.elements? = none)
    (hm : v.entries? = none) : w = v := by
  cases h with
  | same => rfl
  | sequence he => simp [hs] at he
  | mapping he => simp [hm] at he

/-- What is accepted is given back, up to rebuilding: by validation, which starts at depth zero, and by every
schema on the way, at its depth. -/
theorem rebuilt_of_accepted {s : Schema} {c : Settings} {d : Nat} {v w : Value}
    (hs : s.hasDistinctNames = true) (hv : v.hasDistinctKeys = true) (h : s.check c d v = .accepted w) :
    v.Rebuilt w ∧ (v.elements? = none → v.entries? = none → w = v) ∧
      (∀ fields es, s = .object fields → v.entries? = some es →
        ∃ fs, w.entries? = some fs ∧
          ∀ e ∈ es, (∀ f ∈ fields, e.1.same f.1.value = false) → e ∈ fs) ∧
      (∀ key value es, s = .table key value → v.entries? = some es →
        ∃ fs, w.entries? = some fs ∧ fs.map (·.1) = es.map (·.1)) := by
  have hr := rebuilt_of_check hs hv h
  refine ⟨hr, eq_of_rebuilt hr, ?_, ?_⟩
  · rintro fields es rfl he
    exact mem_of_check_object h he
  · rintro key value es rfl he
    exact keys_eq_of_check_table hv h he

theorem rebuilt_table :
    let s : Schema := .table (some (.union [.array (.leaf .integer), .leaf .any]))
      (some (.object [(.text "b", .array (.leaf .integer))]))
    let v : Value := .dict [(.seq .tuple [.str "k"], .map .view
      [(.str "a", .null), (.kind .string, .ellipsis), (.str "b", .seq .deque [.int 1, .int 2])])]
    let w : Value := .dict [(.seq .tuple [.str "k"], .dict
      [(.str "b", .list [.int 1, .int 2]), (.str "a", .null), (.kind .string, .ellipsis)])]
    s.validate { depthLimit := 4 } v = .accepted w ∧ v.Rebuilt w := by
  intro s v w
  have h : s.validate { depthLimit := 4 } v = .accepted w := by rfl
  exact ⟨h, (rebuilt_of_accepted (by decide) (by decide) h).1⟩

end Schema

end Conform
