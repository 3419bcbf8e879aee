import Conform.Proofs.Schema.Breakdowns
import Conform.Proofs.Schema.Faults
import Conform.Proofs.Schema.Rebuilding

/-! Validating what validation gave changes nothing. Where a schema rebuilt a value, its parts are rebuilt
already and its declared fields stand in front, so it makes the same of it once more. A union could go wrong:
an option before the one that accepted might take the rebuilt value. It does not, since no schema accepts what
rebuilding makes of a value that it rejects. For this, no literal may ask for a list or a dictionary, no leaf of
the user's own may take a list or a dictionary for what it refuses in another form, and no kind may be a key, as
a field writes its own name for it. -/

namespace Conform

/-- Whether no key of a mapping in a value is a kind. -/
def Value.hasNoKindKeys (v : Value) : Bool :=
  v.everywhere fun
    | .map _ es => es.all fun e => e.1.type != .kind
    | _ => true

/-- Whether no literal in a schema is a list or a dictionary. -/
def Schema.hasNoRebuiltLiterals (s : Schema) : Bool :=
  s.everywhere fun
    | .literal expected => expected.type != .list && expected.type != .dict
    | _ => true

abbrev FieldName.isText (n : FieldName) : Bool := n.value.type == .str

/-- Whether a leaf that takes what rebuilding makes of a value takes the value itself. -/
def Leaf.TakesUnbuilt (own : Leaf) : Prop :=
  ∀ v w : Value, v.Rebuilt w → own.takes w = true → own.takes v = true

/-- Whether an outcome is the given value, if it is a verdict. -/
def Outcome.OnlyGives (o : Verdict) (w : Value) : Prop := o = .accepted w ∨ ∃ b, o = .broken b

namespace Outcome

variable {o : Verdict} {w u : Value} {f : Fault}

theorem onlyGives_of (ha : ∀ u, o = .accepted u → u = w) (hr : ∀ f, o ≠ .rejected f) : o.OnlyGives w := by
  cases o with
  | accepted u => exact .inl (by rw [ha u rfl])
  | rejected f => exact absurd rfl (hr f)
  | broken b => exact .inr ⟨b, rfl⟩

theorem OnlyGives.eq (h : o.OnlyGives w) (ho : o = .accepted u) : u = w := by
  rcases h with h | ⟨b, h⟩
  · exact accepted.inj (ho.symm.trans h)
  · cases ho.symm.trans h

theorem OnlyGives.ne_rejected (h : o.OnlyGives w) : o ≠ .rejected f := by
  rintro rfl
  rcases h with h | ⟨b, h⟩ <;> cases h

end Outcome

/-- A value over mappings with proper keys, which are no kinds. -/
structure Value.Regular (v : Value) : Prop where
  distinct : v.hasDistinctKeys = true
  kindless : v.hasNoKindKeys = true

structure Schema.Regular (s : Schema) : Prop where
  distinct : s.hasDistinctNames = true
  text : s.hasNamesIn FieldName.isText = true
  literals : s.hasNoRebuiltLiterals = true
  own : s.EachOwn Leaf.TakesUnbuilt

theorem Schema.Regular.of_mem_parts {s t : Schema} (h : s.Regular) (ht : t ∈ s.parts) : t.Regular :=
  ⟨everywhere_of_mem_parts h.distinct ht, everywhere_of_mem_parts h.text ht,
    everywhere_of_mem_parts h.literals ht, h.own.of_mem_parts ht⟩

namespace Value

variable {v w : Value} {R : Value → Value → Prop}

namespace Regular

theorem of_mem_elements (h : v.Regular) {e : Elements} (he : v.elements? = some e) {x : Value}
    (hx : x ∈ e.toList) : x.Regular :=
  ⟨everywhere_of_mem_elements h.distinct (fun _ => rfl) he x hx,
    everywhere_of_mem_elements h.kindless (fun _ => rfl) he x hx⟩

theorem of_mem_entries (h : v.Regular) {es : Entries} (he : v.entries? = some es) {e : Value × Value}
    (hm : e ∈ es) : e.2.Regular :=
  ⟨(everywhere_of_mem_entries h.distinct he hm).2, (everywhere_of_mem_entries h.kindless he hm).2⟩

theorem of_get? (h : v.Regular) {es : Entries} (he : v.entries? = some es) {key x : Value}
    (hx : es.get? key = some x) : x.Regular := by
  obtain ⟨e, hm, -, rfl⟩ := mem_of_get? hx
  exact h.of_mem_entries he hm

end Regular

/-! What can be seen of a value through a layer of rebuilding. -/

theorem type_ne_kind_of_entries? (hv : v.hasNoKindKeys = true) {es : Entries} (he : v.entries? = some es)
    {e : Value × Value} (hm : e ∈ es) : e.1.type ≠ .kind := by
  obtain ⟨form, rfl⟩ := exists_eq_map he
  have h := here_of_everywhere hv
  simp only [List.all_eq_true, bne_iff_ne] at h
  exact h e hm

theorem eq_fieldName {key : Value} {n : FieldName} (hk : key.type ≠ .kind) (hn : n.isText = true)
    (h : key.string? = some n.string) : key = n.value := by
  cases n with
  | kind k => simp [FieldName.value, type] at hn
  | text s =>
    cases key with
    | str t => exact congrArg str (Option.some.inj h)
    | kind k => simp [type] at hk
    | _ => simp [string?] at h

namespace RebuiltOver

variable {names : FieldName → Bool}

theorem eq_or_container (h : v.RebuiltOver names R w) :
    w = v ∨ (∃ ws, w = .list ws) ∨ ∃ fs, w = .dict fs := by
  cases h with
  | same => exact .inl rfl
  | sequence => exact .inr (.inl ⟨_, rfl⟩)
  | mapping => exact .inr (.inr ⟨_, rfl⟩)

theorem admits {kind : Kind} (h : v.RebuiltOver names R w) (hw : kind.admits w = true) :
    kind.admits v = true := by
  rcases h.eq_or_container with rfl | hc
  · exact hw
  · -- a kind that takes a list or a dictionary takes everything
    cases kind with
    | any => rfl
    | unknown => rfl
    | _ => rcases hc with ⟨ws, rfl⟩ | ⟨fs, rfl⟩ <;> cases hw

theorem elements (hR : ∀ x, R x x) (h : v.RebuiltOver names R w) {e' : Elements}
    (he : w.elements? = some e') : ∃ e, v.elements? = some e ∧ List.Forall₂ R e.toList e'.toList := by
  cases h with
  | same => exact ⟨e', he, List.forall₂_same.2 fun x _ => hR x⟩
  | sequence hv hws =>
    obtain rfl := Option.some.inj he
    exact ⟨_, hv, hws⟩
  | mapping => simp [elements?] at he

theorem entries (hR : ∀ x, R x x) (hv : v.hasNoKindKeys = true) (h : v.RebuiltOver FieldName.isText R w)
    {fs : Entries} (hf : w.entries? = some fs) :
    ∃ es es', v.entries? = some es ∧ es.Perm es' ∧
      List.Forall₂ (fun e f => e.1 = f.1 ∧ R e.2 f.2) es' fs := by
  cases h with
  | same => exact ⟨fs, fs, hf, .refl fs, List.forall₂_same.2 fun e _ => ⟨rfl, hR e.2⟩⟩
  | sequence => simp [entries?] at hf
  | @mapping es es' _ he hp hr =>
    obtain rfl := Option.some.inj hf
    refine ⟨es, es', he, hp, forall₂_imp_of_mem hr ?_⟩
    rintro e hm f - ⟨hk | ⟨n, hn, hf, hs⟩, hef⟩
    · exact ⟨hk, hef⟩
    · have hne := type_ne_kind_of_entries? hv he (hp.symm.subset hm)
      exact ⟨by rw [hf, eq_fieldName hne hn hs], hef⟩

end RebuiltOver

/-- Whether nothing that accepts the second value rejects the first. -/
def PassesWith (c : Settings) (v w : Value) : Prop :=
  v.Regular → ∀ t : Schema, t.Regular → ∀ (d : Nat) (f : Fault),
    (t.check c d w).isAccepted = true → t.check c d v ≠ .rejected f

/-- Whether the second value is made of the first by rebuilding, and nothing takes it that rejects the first. -/
def BuiltFrom (c : Settings) (v w : Value) : Prop := v.Rebuilt w ∧ v.PassesWith c w

end Value

namespace Schema

variable {c : Settings} {v w : Value}

theorem child_ne_rejected {t : Schema} {d : Nat} {f : Fault}
    (h : (t.check c (d + 1) w).isAccepted = true → t.check c (d + 1) v ≠ .rejected f)
    (ha : (t.child c d w).isAccepted = true) : t.child c d v ≠ .rejected f := by
  intro hr
  obtain ⟨hd, ha⟩ := isAccepted_enter_iff.1 ha
  rcases enter_eq_rejected_iff.1 hr with ⟨hl, -⟩ | ⟨-, hr⟩
  · omega
  · exact h ha hr

theorem child_ne_rejected_of_passesWith {t : Schema} {d : Nat} {f : Fault} (h : v.PassesWith c w)
    (hv : v.Regular) (ht : t.Regular) (ha : (t.child c d w).isAccepted = true) :
    t.child c d v ≠ .rejected f :=
  child_ne_rejected (h hv t ht (d + 1) f) ha

/-- One layer of rebuilding: nothing that accepts the rebuilt value rejects the value. -/
theorem passesWith_of_rebuiltOver (h : v.RebuiltOver FieldName.isText (Value.BuiltFrom c) w) :
    v.PassesWith c w := by
  have built_self (x : Value) : x.BuiltFrom c x := by
    refine ⟨.same x, fun _ t _ d f ha hr => ?_⟩
    rw [hr] at ha
    cases ha
  intro hv t
  induction t using induction with
  | leaf kind =>
    intro _ d f ha hr
    have := h.admits (isAccepted_check_leaf_iff.1 ha)
    simp [(rejected_of_check_leaf hr).1] at this
  | literal expected =>
    intro ht d f ha hr
    have hl := here_of_everywhere ht.literals
    simp only [Bool.and_eq_true, bne_iff_ne] at hl
    rcases h.eq_or_container with rfl | ⟨ws, rfl⟩ | ⟨fs, rfl⟩
    · rw [hr] at ha
      cases ha
    · exact absurd (isAccepted_check_literal_iff.1 ha).1.symm hl.1
    · exact absurd (isAccepted_check_literal_iff.1 ha).1.symm hl.2
  | custom own =>
    intro ht d f ha hr
    have ho := ht.own
    rw [EachOwn] at ho
    have := ho v w (h.imp fun _ _ hb => hb.1).rebuilt (isAccepted_check_custom_iff.1 ha)
    simp [(rejected_of_check_custom hr).1] at this
  | array item ih =>
    intro ht d f ha hr
    obtain ⟨e', he', ha⟩ := isAccepted_check_array_iff.1 ha
    obtain ⟨e, he, hb⟩ := h.elements built_self he'
    rcases rejected_of_check_array hr with ⟨hn, -⟩ | ⟨e₁, before, x, after, f', he₁, hx, -, hf, -⟩
    · simp [hn] at he
    · obtain rfl := Option.some.inj (he.symm.trans he₁)
      have hx : x ∈ e.toList := by simp [hx]
      obtain ⟨y, hy, hxy⟩ := exists_mem_of_forall₂ hb hx
      exact child_ne_rejected_of_passesWith hxy.2 (hv.of_mem_elements he hx) (ht.of_mem_parts item_mem_parts)
        (ha y hy) hf
  | tuple items ih =>
    intro ht d f ha hr
    obtain ⟨e', he', -, hl, ha⟩ := isAccepted_check_tuple_iff.1 ha
    obtain ⟨e, he, hb⟩ := h.elements built_self he'
    rcases rejected_of_check_tuple hr with
      ⟨hn, -⟩ | ⟨e₁, he₁, ⟨hne, -, -⟩ | ⟨before, p, after, f', hp, -, hf, -⟩⟩
    · simp [hn] at he
    · obtain rfl := Option.some.inj (he.symm.trans he₁)
      exact hne (hl.trans hb.length_eq.symm)
    · obtain rfl := Option.some.inj (he.symm.trans he₁)
      have hm : p ∈ items.zip e.toList := by simp [hp]
      obtain ⟨q, hq, hpq, hxy⟩ := exists_mem_of_forall₂
        (forall₂_zip_zip (List.forall₂_same.2 fun t _ => (rfl : t = t)) hb) hm
      obtain ⟨hi, hx⟩ := List.of_mem_zip hm
      exact child_ne_rejected_of_passesWith hxy.2 (hv.of_mem_elements he hx) (ht.of_mem_parts hi)
        (hpq ▸ ha q hq) hf
  | object fields ih =>
    intro ht d f ha hr
    obtain ⟨fs, hfs, ha⟩ := isAccepted_check_object_iff.1 ha
    obtain ⟨es, es', he, hp, hb⟩ := h.entries built_self hv.kindless hfs
    rcases rejected_of_check_object hr with ⟨hn, -⟩ | ⟨es₁, before, g, after, he₁, hg, -, hr⟩
    · simp [hn] at he
    obtain rfl := Option.some.inj (he.symm.trans he₁)
    have hg : g ∈ fields := by simp [hg]
    obtain ⟨y, hy, hc⟩ := ha g hg
    obtain ⟨k, hf, hs, rfl⟩ := Value.mem_of_get? hy
    obtain ⟨e, hm, hk, hxy⟩ := exists_mem_of_forall₂ hb.flip hf
    rw [← hk, Value.same_fieldName_left, beq_iff_eq] at hs
    have hx : es.get? g.1.value = some e.2 :=
      (KeyTable.get?_fieldName_eq_some_iff (Value.areDistinct_of_entries? hv.distinct he)).2
        ⟨e, hp.symm.subset hm, hs, rfl⟩
    rcases hr with ⟨hn, -⟩ | ⟨x, f', hx', hf', -⟩
    · simp [hn] at hx
    · obtain rfl := Option.some.inj (hx.symm.trans hx')
      exact child_ne_rejected_of_passesWith hxy.2 (hv.of_get? he hx)
        (ht.of_mem_parts (field_mem_parts hg)) hc hf'
  | union options ih =>
    intro ht d f ha hr
    obtain ⟨t, hm, ha⟩ := isAccepted_of_check_union ha
    obtain ⟨fs, hfs, -⟩ := rejected_of_check_union hr
    obtain ⟨g, -, hg⟩ := exists_mem_of_forall₂ hfs hm
    exact child_ne_rejected (ih t hm (ht.of_mem_parts hm) (d + 1) g) ha hg
  | optional inner ih =>
    intro ht d f ha hr
    obtain ⟨hn, hr⟩ := rejected_of_check_optional hr
    rcases isAccepted_check_optional_iff.1 ha with hw | ha
    · rcases h.eq_or_container with rfl | ⟨ws, rfl⟩ | ⟨fs, rfl⟩
      · simp [hn] at hw
      · simp [Value.isNull] at hw
      · simp [Value.isNull] at hw
    · exact child_ne_rejected (ih (ht.of_mem_parts inner_mem_parts) (d + 1) f) ha hr
  | table key value ihk ihv =>
    intro ht d f ha hr
    obtain ⟨fs, hfs, ha⟩ := isAccepted_check_table_iff.1 ha
    obtain ⟨es, es', he, hp, hb⟩ := h.entries built_self hv.kindless hfs
    rcases rejected_of_check_table hr with ⟨hn, -⟩ | ⟨es₁, before, e, after, he₁, hes, -, hr'⟩
    · simp [hn] at he
    obtain rfl := Option.some.inj (he.symm.trans he₁)
    rcases ha with ⟨rfl, rfl⟩ | ha
    · rw [check_table_eq_accepted_iff.2 ⟨es, he, .inl ⟨rfl, rfl, rfl⟩⟩] at hr
      cases hr
    have hm : e ∈ es := by simp [hes]
    obtain ⟨k, hf, hk, hxy⟩ := exists_mem_of_forall₂ hb (hp.subset hm)
    -- the key was not rebuilt, so what is found wrong with it now was found wrong before
    obtain ⟨k', hka, hh, hva⟩ := ha k hf
    rw [← hk] at hka
    rcases hr' with ⟨f', hf', -⟩ | ⟨k₁, hk₁, ⟨f', hf', -⟩ | ⟨-, hn, -⟩⟩
    · simp [hka] at hf'
    · cases value with
      | none => simp [checkPart_none] at hf'
      | some t =>
        rw [checkPart_some] at hf' hva
        exact child_ne_rejected_of_passesWith hxy.2 (hv.of_mem_entries he hm)
          (ht.of_mem_parts (value_mem_parts rfl)) hva hf'
    · obtain rfl := Outcome.accepted.inj (hka.symm.trans hk₁)
      simp [hh] at hn

theorem passesWith_of_check {s : Schema} {d : Nat} (hs : s.Regular) (hv : v.Regular)
    (h : s.check c d v = .accepted w) : v.PassesWith c w :=
  (rel_of_check (R := Value.BuiltFrom c)
    (fun _ _ hr => ⟨(hr.imp fun _ _ hb => hb.1).rebuilt, passesWith_of_rebuiltOver hr⟩)
    hs.distinct hs.text hv.distinct h).2

/-- What holds everywhere in a value, in the elements of its sequences, and of all that rebuilding writes, holds
everywhere in the result. -/
theorem everywhere_of_check {p : Value → Bool}
    (hl : ∀ {v : Value} {e : Elements} {ws : List Value}, v.everywhere p = true → v.elements? = some e →
      e.toList.length = ws.length → p (.list ws) = true)
    (hd : ∀ fs, p (.dict fs) = true)
    (hx : ∀ {v : Value} {e : Elements}, v.everywhere p = true → v.elements? = some e →
      ∀ x ∈ e.toList, x.everywhere p = true)
    (ht : ∀ t, p (.str t) = true) {s : Schema} {d : Nat} (hs : s.Regular) (hv : v.hasDistinctKeys = true)
    (h : s.check c d v = .accepted w) (hp : v.everywhere p = true) : w.everywhere p = true := by
  refine rel_of_check (R := fun v w => v.everywhere p = true → w.everywhere p = true) ?_
    hs.distinct hs.text hv h hp
  intro v w hr hp
  cases hr with
  | same => exact hp
  | sequence he hws =>
    refine (Value.everywhere_iff _ _).2 ⟨hl hp he hws.length_eq, fun y hy => ?_⟩
    obtain ⟨x, hm, hxy⟩ := exists_mem_of_forall₂ hws.flip hy
    exact hxy (hx hp he x hm)
  | mapping he hperm hr _ =>
    refine (Value.everywhere_iff _ _).2 ⟨hd _, fun y hy => ?_⟩
    have entry {e : Value × Value} (hm : e ∈ _) :=
      Value.everywhere_of_mem_entries hp he (hperm.symm.subset hm)
    rcases List.mem_append.1 hy with hy | hy
    · obtain ⟨f, hf, rfl⟩ := List.mem_map.1 hy
      obtain ⟨e, hm, hk | ⟨n, hn, hk, -⟩, -⟩ := exists_mem_of_forall₂ hr.flip hf
      · exact hk ▸ (entry hm).1
      · obtain ⟨t, hnt⟩ := Value.eq_str_of_type (eq_of_beq hn)
        rw [hk, hnt]
        exact ht t
    · obtain ⟨f, hf, rfl⟩ := List.mem_map.1 hy
      obtain ⟨e, hm, -, hef⟩ := exists_mem_of_forall₂ hr.flip hf
      exact hef (entry hm).2

section Kept

variable {s : Schema} {d : Nat} (hs : s.Regular) (hv : v.Regular) (h : s.check c d v = .accepted w)

include hs hv h

theorem isQuiet_of_check : v.isQuiet = true → w.isQuiet = true :=
  everywhere_of_check (fun _ _ _ => rfl) (fun _ => rfl)
    (fun hp he => Value.everywhere_of_mem_elements hp (fun _ => rfl) he) (fun _ => rfl) hs hv.distinct h

theorem isMeasurable_of_check : v.isMeasurable = true → w.isMeasurable = true :=
  everywhere_of_check (fun _ _ _ => rfl) (fun _ => rfl)
    (fun hp he => Value.everywhere_of_mem_elements hp (fun _ => rfl) he) (fun _ => rfl) hs hv.distinct h

theorem isShort_of_check : v.isShort = true → w.isShort = true := by
  refine everywhere_of_check (fun hp he hl => ?_) (fun _ => rfl) (fun hp he x hx => ?_) (fun _ => rfl)
    hs hv.distinct h
  · have := Value.isWritable_length hp he
    rwa [hl] at this
  · exact Value.isShort_of_mem_elements hp he hx

end Kept

/-- Checked fields in front of the undeclared entries leave these as they are. -/
theorem undeclared_append_undeclared {fields : List (FieldName × Schema)} {es done : Entries}
    (hk : done.map (·.1) = fields.map (·.1.value)) :
    undeclared fields (done ++ undeclared fields es) = undeclared fields es := by
  have hd : undeclared fields done = [] := by
    refine List.filter_eq_nil_iff.2 fun e he => ?_
    have hm : e.1 ∈ fields.map (·.1.value) := hk ▸ List.mem_map_of_mem he
    obtain ⟨f, hf, hfe⟩ := List.mem_map.1 hm
    have hs : e.1.same f.1.value = true := by
      rw [Value.same_fieldName_right, ← hfe, Value.string?_fieldName, beq_self_eq_true]
    simpa using ⟨f.1, ⟨f.2, hf⟩, hs⟩
  have hu : undeclared fields (undeclared fields es) = undeclared fields es := by
    rw [undeclared, undeclared, List.filter_filter]
    simp only [Bool.and_self]
  calc undeclared fields (done ++ undeclared fields es)
      = undeclared fields done ++ undeclared fields (undeclared fields es) := List.filter_append ..
    _ = undeclared fields es := by rw [hd, hu, List.nil_append]

/-! Once more. -/

theorem onlyGives_child {t : Schema} {d : Nat} (ht : t.check c (d + 1) v = .accepted w →
    (t.check c (d + 1) w).OnlyGives w) (h : t.child c d v = .accepted w) : (t.child c d w).OnlyGives w := by
  obtain ⟨hd, h⟩ := enter_eq_accepted_iff.1 h
  rw [child_eq_check hd]
  exact ht h

/-- The options before the one that accepted a value may break off on the result, but none of them accepts it. -/
theorem onlyGives_checkOptions {before after : List Schema} {s : Schema} {d : Nat}
    (hb : ∀ t ∈ before, ¬ (t.child c d w).isAccepted = true) (hs : (s.child c d w).OnlyGives w) {i : Nat}
    {rs : List (Int × Fault)} : (checkOptions c (before ++ s :: after) d w i rs).OnlyGives w := by
  induction before generalizing i rs with
  | nil =>
    rw [List.nil_append, checkOptions]
    rcases hs with hs | ⟨b, hs⟩
    · exact .inl (by simp only [hs])
    · exact .inr ⟨b, by simp only [hs]⟩
  | cons t before ih =>
    obtain ⟨ht, hb⟩ := List.forall_mem_cons.1 hb
    rw [List.cons_append, checkOptions]
    cases hv : t.child c d w with
    | accepted u => exact absurd (Outcome.isAccepted_iff.2 ⟨u, hv⟩) ht
    | rejected f =>
      simp only [hv]
      split
      · exact ih hb
      · exact .inr ⟨_, rfl⟩
    | broken b => exact .inr ⟨b, by simp only [hv]⟩

section Forms

variable {d : Nat}

theorem onlyGives_array {item : Schema} {ws : List Value} (hi : ∀ y ∈ ws, (item.child c d y).OnlyGives y) :
    ((array item).check c d (.list ws)).OnlyGives (.list ws) := by
  refine Outcome.onlyGives_of (fun u hu => ?_) fun f hf => ?_
  · obtain ⟨_, us, he, hus, rfl⟩ := check_array_eq_accepted_iff.1 hu
    obtain rfl := Option.some.inj he
    have hus := forall₂_imp_of_mem hus fun y hy u _ hyu => ((hi y hy).eq hyu).symm
    rw [List.forall₂_eq_eq_eq] at hus
    rw [← hus]
    rfl
  · rcases rejected_of_check_array hf with ⟨hn, -⟩ | ⟨_, before, y, after, f', he, hy, -, hr, -⟩
    · cases hn
    · obtain rfl := Option.some.inj he
      exact (hi y (show y ∈ ws by rw [show ws = _ from hy]; simp)).ne_rejected hr

theorem onlyGives_tuple {items : List Schema} {ws : List Value} (hl : items.length = ws.length)
    (hi : ∀ p ∈ items.zip ws, (p.1.child c d p.2).OnlyGives p.2) :
    ((tuple items).check c d (.list ws)).OnlyGives (.list ws) := by
  refine Outcome.onlyGives_of (fun u hu => ?_) fun f hf => ?_
  · obtain ⟨_, us, he, -, -, hus, rfl⟩ := check_tuple_eq_accepted_iff.1 hu
    obtain rfl := Option.some.inj he
    have hus := forall₂_imp_of_mem hus fun p hp u _ hpu => ((hi p hp).eq hpu).symm
    have hsnd : (items.zip ws).map (·.2) = us.map id := map_eq_map_iff_forall₂.2 hus
    rw [List.map_id, List.map_snd_zip (by omega)] at hsnd
    rw [hsnd]
  · rcases rejected_of_check_tuple hf with
      ⟨hn, -⟩ | ⟨_, he, ⟨hne, -, -⟩ | ⟨before, p, after, f', hp, -, hr, -⟩⟩
    · cases hn
    · obtain rfl := Option.some.inj he
      exact hne hl
    · obtain rfl := Option.some.inj he
      exact (hi p (show p ∈ items.zip ws by rw [show items.zip ws = _ from hp]; simp)).ne_rejected hr

theorem onlyGives_object {fields : List (FieldName × Schema)} {done es : Entries}
    (hi : List.Forall₂ (fun f e => e.1 = f.1.value ∧
      KeyTable.get? (done ++ undeclared fields es) f.1.value = some e.2 ∧
      (f.2.child c d e.2).OnlyGives e.2) fields done) :
    ((object fields).check c d (.dict (done ++ undeclared fields es))).OnlyGives
      (.dict (done ++ undeclared fields es)) := by
  have hk : done.map (·.1) = fields.map (·.1.value) :=
    map_eq_map_iff_forall₂.2 (hi.flip.imp fun _ _ h => h.1)
  refine Outcome.onlyGives_of (fun u hu => ?_) fun f hf => ?_
  · obtain ⟨_, done', he, hdone, rfl⟩ := check_object_eq_accepted_iff.1 hu
    obtain rfl := Option.some.inj he
    have hsame : List.Forall₂ (fun e e' => e = e') done done' := by
      refine (forall₂_of_common hi hdone).imp ?_
      rintro e e' ⟨f, -, ⟨hke, hx, ho⟩, hke', x, hx', hxe⟩
      obtain rfl := Option.some.inj (hx.symm.trans hx')
      exact Prod.ext (hke.trans hke'.symm) (ho.eq hxe).symm
    rw [List.forall₂_eq_eq_eq] at hsame
    rw [← hsame, undeclared_append_undeclared hk]
  · rcases rejected_of_check_object hf with ⟨hn, -⟩ | ⟨_, before, g, after, he, hg, -, hr⟩
    · cases hn
    obtain rfl := Option.some.inj he
    obtain ⟨e, -, -, hx, ho⟩ := exists_mem_of_forall₂ hi (show g ∈ fields by simp [hg])
    rcases hr with ⟨hn, -⟩ | ⟨x, f', hx', hr, -⟩
    · simp [hx] at hn
    · obtain rfl := Option.some.inj (hx.symm.trans hx')
      exact ho.ne_rejected hr

theorem onlyGives_table {key value : Option Schema} {fs : Entries} (hn : ¬ (key = none ∧ value = none))
    (hd : Value.areDistinct (fs.map (·.1)) = true)
    (hi : ∀ f ∈ fs, checkPart c key d f.1 = .accepted f.1 ∧ f.1.isHashable = true ∧
      (checkPart c value d f.2).OnlyGives f.2) :
    ((table key value).check c d (.dict fs)).OnlyGives (.dict fs) := by
  refine Outcome.onlyGives_of (fun u hu => ?_) fun f hf => ?_
  · obtain ⟨_, he, ⟨hk, hv, -⟩ | ⟨-, gs, hgs, rfl⟩⟩ := check_table_eq_accepted_iff.1 hu
    · exact absurd ⟨hk, hv⟩ hn
    · obtain rfl := Option.some.inj he
      have hsame : List.Forall₂ (fun f g => f = g) fs gs := by
        refine forall₂_imp_of_mem hgs fun f hf g _ hfg => ?_
        obtain ⟨hk, -, ho⟩ := hi f hf
        exact Prod.ext (Outcome.accepted.inj (hk.symm.trans hfg.1)) (ho.eq hfg.2.1).symm
      rw [List.forall₂_eq_eq_eq] at hsame
      rw [← hsame, KeyTable.ofList_of_distinct hd]
  · rcases rejected_of_check_table hf with ⟨hn, -⟩ | ⟨_, before, g, after, he, hes, -, hr⟩
    · cases hn
    obtain rfl := Option.some.inj he
    obtain ⟨hk, hh, ho⟩ := hi g (show g ∈ fs by simp [hes])
    rcases hr with ⟨f', hr, -⟩ | ⟨k, hk', ⟨f', hr, -⟩ | ⟨-, hn, -⟩⟩
    · simp [hk] at hr
    · exact ho.ne_rejected hr
    · obtain rfl := Outcome.accepted.inj (hk.symm.trans hk')
      simp [hh] at hn

end Forms

/-- Of a value that it made a schema makes nothing else. -/
theorem onlyGives_of_check {s : Schema} (hs : s.Regular) : ∀ {d : Nat} {v w : Value}, v.Regular →
    s.check c d v = .accepted w → (s.check c d w).OnlyGives w := by
  induction s using induction with
  | leaf kind =>
    intro d v w _ h
    obtain ⟨-, rfl⟩ := check_leaf_eq_accepted_iff.1 h
    exact .inl h
  | literal expected =>
    intro d v w _ h
    obtain ⟨-, -, rfl⟩ := check_literal_eq_accepted_iff.1 h
    exact .inl h
  | custom own =>
    intro d v w _ h
    obtain ⟨-, rfl⟩ := check_custom_eq_accepted_iff.1 h
    exact .inl h
  | array item ih =>
    intro d v w hv h
    obtain ⟨e, ws, he, hws, rfl⟩ := check_array_eq_accepted_iff.1 h
    refine onlyGives_array fun y hy => ?_
    obtain ⟨x, hx, hxy⟩ := exists_mem_of_forall₂ hws.flip hy
    exact onlyGives_child (ih (hs.of_mem_parts item_mem_parts) (hv.of_mem_elements he hx)) hxy
  | tuple items ih =>
    intro d v w hv h
    obtain ⟨e, ws, he, -, hl, hws, rfl⟩ := check_tuple_eq_accepted_iff.1 h
    have hz := hws.length_eq
    rw [List.length_zip] at hz
    refine onlyGives_tuple (by omega) (forall_mem_zip_of_forall₂
      (P := fun (t : Schema) x y => t.child c d x = .accepted y)
      (Q := fun (t : Schema) y => (t.child c d y).OnlyGives y) (fun t ht x hx y hxy => ?_) hws)
    exact onlyGives_child (ih t ht (hs.of_mem_parts ht) (hv.of_mem_elements he hx)) hxy
  | object fields ih =>
    intro d v w hv h
    obtain ⟨es, done, he, hdone, rfl⟩ := check_object_eq_accepted_iff.1 h
    have hd := areDistinct_declared (Value.areDistinct_of_entries? hv.distinct he)
      (nodup_of_hasDistinctNames hs.distinct) (keys_eq_of_fields hdone)
    refine onlyGives_object (forall₂_imp_of_mem hdone ?_)
    rintro f hf e hm ⟨hke, x, hx, hxe⟩
    refine ⟨hke, ?_, ?_⟩
    · refine (KeyTable.get?_fieldName_eq_some_iff hd).2 ⟨e, List.mem_append_left _ hm, ?_, rfl⟩
      rw [hke, Value.string?_fieldName]
    · exact onlyGives_child (ih f hf (hs.of_mem_parts (field_mem_parts hf)) (hv.of_get? he hx)) hxe
  | union options ih =>
    intro d v w hv h
    obtain ⟨before, s, after, rfl, hb, hw⟩ := check_union_eq_accepted_iff.1 h
    have hm : s ∈ before ++ s :: after := by simp
    have hs' := hs.of_mem_parts hm
    rw [check_union]
    refine onlyGives_checkOptions (fun t ht ha => ?_) (onlyGives_child (ih s hm hs' hv) hw)
    -- an option that takes the result does not reject the value
    have ht' := hs.of_mem_parts (List.mem_append_left (s :: after) ht)
    obtain ⟨f, hf, -⟩ := hb t ht
    have hp := passesWith_of_check hs' hv (enter_eq_accepted_iff.1 hw).2
    exact child_ne_rejected_of_passesWith hp hv ht' ha hf
  | optional inner ih =>
    intro d v w hv h
    rcases check_optional_eq_accepted_iff.1 h with ⟨-, rfl⟩ | ⟨-, hw⟩
    · exact .inl (check_optional_eq_accepted_iff.2 (.inl ⟨rfl, rfl⟩))
    · rw [check_optional]
      split
      · next hn => exact .inl (by rw [Value.isNull_iff.1 hn])
      · exact onlyGives_child (ih (hs.of_mem_parts inner_mem_parts) hv) hw
  | table key value ihk ihv =>
    intro d v w hv h
    obtain ⟨es, he, ⟨-, -, rfl⟩ | ⟨hn, fs, hfs, rfl⟩⟩ := check_table_eq_accepted_iff.1 h
    · exact .inl h
    have hd : Value.areDistinct (fs.map (·.1)) = true :=
      keys_eq_of_entries hfs ▸ Value.areDistinct_of_entries? hv.distinct he
    rw [KeyTable.ofList_of_distinct hd]
    refine onlyGives_table hn hd fun f hf => ?_
    obtain ⟨e, hm, hk, hw, hh⟩ := exists_mem_of_forall₂ hfs.flip hf
    have hkf := key_eq_of_checkPart hk hh
    refine ⟨hkf ▸ hk, hh, ?_⟩
    cases value with
    | none => exact .inl checkPart_none
    | some t =>
      rw [checkPart_some] at hw ⊢
      exact onlyGives_child (ihv t rfl (hs.of_mem_parts (value_mem_parts rfl)) (hv.of_mem_entries he hm)) hw

/-- Validating what validation gave gives it back, if it comes to a verdict; where all integers are short, it does. The
leaves of the user's own must not take what rebuilding makes of a value that they refuse. -/
theorem validate_of_validate {s : Schema} {c : Settings} {v w : Value} (hq : s.isQuiet = true)
    (hn : s.hasDistinctNames = true) (ht : s.hasTextNames = true) (hl : s.hasNoRebuiltLiterals = true)
    (ho : s.EachOwn Leaf.TakesUnbuilt) (hvq : v.isQuiet = true) (hvm : v.isMeasurable = true)
    (hvd : v.hasDistinctKeys = true) (hvk : v.hasNoKindKeys = true) (h : s.validate c v = .accepted w) :
    (s.validate c w = .accepted w ∨ s.validate c w = .broken .unwritable) ∧
      (s.isShort = true → v.isShort = true → s.validate c w = .accepted w) := by
  have hs : s.Regular := ⟨hn, ht, hl, ho⟩
  have hv : v.Regular := ⟨hvd, hvk⟩
  rcases onlyGives_of_check hs hv h with hw | ⟨b, hw⟩
  · exact ⟨.inl hw, fun _ _ => hw⟩
  obtain rfl := eq_unwritable_of_broken hq (isQuiet_of_check hs hv h hvq) (isMeasurable_of_check hs hv h hvm) hw
  refine ⟨.inr hw, fun hss hvs => absurd hw ?_⟩
  exact check_ne_unwritable hss (isShort_of_check hs hv h hvs)

/-- Both options declare fields of the mapping. The first one rejects its number, before and after. -/
theorem validate_union_of_validate :
    let own : Leaf := ⟨"SequenceSchema", Value.isSequence, fun v => "Expected a sequence, got: " ++ v.label⟩
    let s : Schema := .union [.object [(.text "a", .leaf .any), (.text "b", .array (.leaf .string))],
      .object [(.text "b", .tuple [.leaf .integer, .optional (.leaf .string)]), (.text "a", .custom own)]]
    let v : Value := .map .view [(.str "a", .seq .deque []), (.int 0, .seq .tuple [.int 1]),
      (.str "b", .seq .tuple [.int 2, .null])]
    let w : Value := .dict [(.str "b", .list [.int 2, .null]), (.str "a", .seq .deque []),
      (.int 0, .seq .tuple [.int 1])]
    s.validate { depthLimit := 3 } v = .accepted w ∧ s.validate { depthLimit := 3 } w = .accepted w := by
  intro own s v w
  have hown : own.TakesUnbuilt := by
    intro x y hr hy
    cases hr with
    | same => exact hy
    | sequence he _ => simp [own, Value.isSequence, he]
    | mapping _ _ _ _ _ => cases hy
  have howns : s.EachOwn Leaf.TakesUnbuilt := by simp [s, EachOwn, hown]
  have h : s.validate { depthLimit := 3 } v = .accepted w := by rfl
  exact ⟨h, (validate_of_validate (by decide) (by decide) (by decide) (by decide) howns (by decide) (by decide)
    (by decide) (by decide) h).2 (by decide) (by decide)⟩

/-- A leaf of the user's own takes the list that it did not take as a tuple, and the first option puts its fields in
another order. -/
theorem validate_not_of_validate :
    let own : Leaf := ⟨"ListSchema", fun v => v.type == .list, fun v => "Expected a list, got: " ++ v.label⟩
    let s : Schema := .union [.object [(.text "b", .leaf .any), (.text "a", .custom own)],
      .object [(.text "a", .array (.leaf .any))]]
    let w : Value := .dict [(.str "a", .list [.int 1]), (.str "b", .int 2)]
    let u : Value := .dict [(.str "b", .int 2), (.str "a", .list [.int 1])]
    s.validate {} (.dict [(.str "a", .seq .tuple [.int 1]), (.str "b", .int 2)]) = .accepted w ∧
      s.validate {} w = .accepted u ∧ u ≠ w := by
  intro own s w u
  exact ⟨by rfl, by rfl, by simp [u, w]⟩

end Schema

end Conform
