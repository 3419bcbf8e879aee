import Conform.Proofs.Basic
import Conform.Proofs.Schema.Tree
import Conform.Proofs.Value.Keys
import Conform.Schema.Definition

/-! Schemas that can be built. Constructor calls refuse an empty list of schemas, and a mapping of fields holds
each name once, so the schemas that come out of them declare no name twice and have no tuple or union without
parts, at any depth. -/

namespace Conform

/-- Whether no object in a schema declares a name twice, and no tuple and no union in it is empty. -/
def Schema.isWellFormed (s : Schema) : Bool :=
  s.everywhere fun
    | .object fields => decide (fields.map (·.1.string)).Nodup
    | .tuple items => !items.isEmpty
    | .union options => !options.isEmpty
    | _ => true

/-- Whether an argument is well-formed if it is a schema. -/
def Part.IsWellFormed (p : Part) : Prop := ∀ s, p = .schema s → s.isWellFormed = true

/-! Keys put one by one. -/

namespace KeyTable

variable {α : Type} {t : KeyTable α} {key : Value} {a : α}

theorem mem_put {e : Value × α} (h : e ∈ t.put key a) : e ∈ t ∨ e.2 = a := by
  induction t with
  | nil => exact .inr (by rw [List.mem_singleton.1 h])
  | cons f t ih =>
    rw [put] at h
    split at h
    · rcases List.mem_cons.1 h with rfl | h
      · exact .inr rfl
      · exact .inl (List.mem_cons_of_mem _ h)
    · rcases List.mem_cons.1 h with rfl | h
      · exact .inl List.mem_cons_self
      · exact (ih h).imp_left (List.mem_cons_of_mem _)

theorem key_of_mem_put {e : Value × α} (h : e ∈ t.put key a) : (∃ f ∈ t, f.1 = e.1) ∨ e.1 = key := by
  induction t with
  | nil => exact .inr (by rw [List.mem_singleton.1 h])
  | cons f t ih =>
    rw [put] at h
    split at h
    · rcases List.mem_cons.1 h with rfl | h
      · exact .inl ⟨f, List.mem_cons_self, rfl⟩
      · exact .inl ⟨e, List.mem_cons_of_mem _ h, rfl⟩
    · rcases List.mem_cons.1 h with rfl | h
      · exact .inl ⟨e, List.mem_cons_self, rfl⟩
      · rcases ih h with ⟨g, hg, he⟩ | hk
        · exact .inl ⟨g, List.mem_cons_of_mem _ hg, he⟩
        · exact .inr hk

/-- No later key is the same as an earlier one. -/
def AreApart (t : KeyTable α) : Prop := t.Pairwise fun e f => f.1.same e.1 = false

theorem AreApart.put (h : t.AreApart) : (t.put key a).AreApart := by
  induction t with
  | nil => exact List.pairwise_singleton _ _
  | cons e t ih =>
    obtain ⟨he, ht⟩ := List.pairwise_cons.1 h
    rw [KeyTable.put]
    split
    · exact List.pairwise_cons.2 ⟨he, ht⟩
    · next hs =>
      refine List.pairwise_cons.2 ⟨fun f hf => ?_, ih ht⟩
      rcases key_of_mem_put hf with ⟨g, hg, hgf⟩ | hk
      · rw [← hgf]
        exact he g hg
      · rw [hk]
        exact Bool.eq_false_iff.2 hs

end KeyTable

/-! What the requirements let through. -/

theorem requireSchema_eq_ok {place : Place} {p : Part} {s : Schema} (h : requireSchema place p = .ok s) :
    p = .schema s := by
  cases p with
  | schema t => exact congrArg _ (Except.ok.inj h)
  | value v => cases h

theorem requireEntries_eq_ok {entry : Nat → Place} {i : Nat} {ps : List Part} {ss : List Schema}
    (h : requireEntries entry i ps = .ok ss) : List.Forall₂ (fun p s => p = .schema s) ps ss := by
  induction ps generalizing i ss with
  | nil =>
    rw [requireEntries, Except.ok.injEq] at h
    exact h ▸ .nil
  | cons p ps ih =>
    rw [requireEntries, bind_eq_ok] at h
    obtain ⟨s, hs, h⟩ := h
    obtain ⟨rest, hr, h⟩ := bind_eq_ok.1 h
    rw [← pure_eq_ok.1 h]
    exact .cons (requireSchema_eq_ok hs) (ih hr)

theorem requireSchemas_eq_ok {place : Place} {entry : Nat → Place} {ps : List Part} {ss : List Schema}
    (h : requireSchemas place entry ps = .ok ss) :
    ss.isEmpty = false ∧ List.Forall₂ (fun p s => p = .schema s) ps ss := by
  unfold requireSchemas at h
  split at h
  · cases h
  · next hne =>
    have hs := requireEntries_eq_ok h
    refine ⟨?_, hs⟩
    cases hs with
    | nil => exact absurd rfl hne
    | cons => rfl

theorem requireFields_eq_ok {t : KeyTable Part} {fields : List (FieldName × Schema)}
    (h : requireFields t = .ok fields) :
    List.Forall₂ (fun e f => e.1.string? = some f.1.string ∧ e.2 = .schema f.2) t fields := by
  have string?_of_ofValue? {k : Value} {n : FieldName} (hk : FieldName.ofValue? k = some n) :
      k.string? = some n.string := by
    cases k <;> cases hk <;> rfl
  induction t generalizing fields with
  | nil =>
    rw [requireFields, Except.ok.injEq] at h
    exact h ▸ .nil
  | cons e t ih =>
    obtain ⟨k, p⟩ := e
    rw [requireFields] at h
    split at h
    · split at h <;> cases h
    · next name hk =>
      obtain ⟨s, hs, h⟩ := bind_eq_ok.1 h
      obtain ⟨rest, hr, h⟩ := bind_eq_ok.1 h
      rw [← pure_eq_ok.1 h]
      exact .cons ⟨string?_of_ofValue? hk, requireSchema_eq_ok hs⟩ (ih hr)

theorem requireOption_eq_ok {place : Place} {o : Option Part} {r : Option Schema} {s : Schema}
    (h : requireOption place o = .ok r) (hs : s ∈ r) : o = some (.schema s) := by
  unfold requireOption at h
  split at h
  · cases h
    cases hs
  · cases h
    cases hs
  · obtain ⟨t, ht, rfl⟩ := map_eq_ok.1 h
    rw [requireSchema_eq_ok ht, Option.some.inj hs]

theorem eq_value_of_mem_parts? {v : Value} {parts : List Part} (h : v.parts? = some parts) {p : Part}
    (hp : p ∈ parts) : ∃ x, p = .value x := by
  unfold Value.parts? at h
  split at h
  · rw [← Option.some.inj h, List.mem_map] at hp
    obtain ⟨b, -, rfl⟩ := hp
    exact ⟨_, rfl⟩
  · obtain ⟨e, -, rfl⟩ := Option.map_eq_some_iff.1 h
    obtain ⟨x, -, rfl⟩ := List.mem_map.1 hp
    exact ⟨x, rfl⟩

/-- A plain value is no list of schemas. -/
theorem requireList_ne_ok {place : Place} {entry : Nat → Place} {p : Part} {ss : List Schema} :
    requireList place entry p ≠ .ok ss := by
  intro h
  cases p with
  | schema s => cases h
  | value v =>
    rw [requireList] at h
    split at h
    · next parts hp =>
      obtain ⟨hne, hs⟩ := requireSchemas_eq_ok h
      cases hs with
      | nil => cases hne
      | cons hps _ =>
        obtain ⟨x, hx⟩ := eq_value_of_mem_parts? hp List.mem_cons_self
        rw [hps] at hx
        cases hx
    · cases h

/-- The one plain value that is a mapping of fields has none. -/
theorem requireMapping_eq_ok {p : Part} {fields : List (FieldName × Schema)}
    (h : requireMapping p = .ok fields) : fields = [] := by
  cases p with
  | schema s => cases h
  | value v =>
    rw [requireMapping] at h
    split at h
    · next es _ =>
      have hf := requireFields_eq_ok h
      rw [List.forall₂_map_left_iff] at hf
      cases hf with
      | nil => rfl
      | cons he _ => cases he.2
    · cases h

theorem Schema.isWellFormed_object_iff {fields : List (FieldName × Schema)} :
    (Schema.object fields).isWellFormed = true ↔
      (fields.map (·.1.string)).Nodup ∧ ∀ f ∈ fields, f.2.isWellFormed = true := by
  rw [isWellFormed, everywhere_iff, parts, List.forall_mem_map]
  simp [isWellFormed]

theorem Schema.isWellFormed_object {t : KeyTable Part} {fields : List (FieldName × Schema)}
    (ht : t.AreApart) (hp : ∀ e ∈ t, e.2.IsWellFormed) (h : requireFields t = .ok fields) :
    (Schema.object fields).isWellFormed = true := by
  have hf := requireFields_eq_ok h
  refine isWellFormed_object_iff.2 ⟨?_, fun f hm => ?_⟩
  · have hs : t.map (·.1.string?) = fields.map (some ·.1.string) := by
      rw [← List.forall₂_eq_eq_eq, List.forall₂_map_left_iff, List.forall₂_map_right_iff]
      exact hf.imp fun _ _ h => h.1
    have hd : (t.map (·.1.string?)).Nodup := by
      rw [List.Nodup, List.pairwise_map]
      refine ht.imp_of_mem fun {e g} he hg hne heq => ?_
      obtain ⟨f, -, hfe, -⟩ := exists_mem_of_forall₂ hf he
      rw [Value.same_of_string? (heq ▸ hfe), hfe] at hne
      simp at hne
    rw [hs] at hd
    exact List.pairwise_map.2 ((List.pairwise_map.1 hd).imp fun hne heq => hne (congrArg some heq))
  · obtain ⟨e, he, -, hes⟩ := exists_mem_of_forall₂ hf.flip hm
    exact hp e he f.2 hes

/-! The schemas that a tree of calls makes. -/

namespace Construction

mutual

/-- The schemas that are given to the calls as they are. -/
def given : Construction → List Schema
  | .part (.schema s) => [s]
  | .part (.value _) => []
  | .primitive _ => []
  | .object fields => givenFields fields
  | .objectOf fields => given fields
  | .array item => given item
  | .tuple items => givenList items
  | .tupleOf items => given items
  | .union options => givenList options
  | .unionOf options => given options
  | .optional inner => given inner
  | .table key value => givenOption key ++ givenOption value
  | .literal _ => []
termination_by structural e => e

def givenList : List Construction → List Schema
  | [] => []
  | e :: es => given e ++ givenList es
termination_by structural es => es

def givenFields : List (Value × Construction) → List Schema
  | [] => []
  | (_, e) :: es => given e ++ givenFields es
termination_by structural es => es

def givenOption : Option Construction → List Schema
  | none => []
  | some e => given e
termination_by structural e => e

end

theorem areApart_of_evalFields {es : List (Value × Construction)} : ∀ {done t : KeyTable Part},
    done.AreApart → evalFields done es = .ok t → t.AreApart := by
  induction es with
  | nil =>
    intro done t hd h
    rw [evalFields, Except.ok.injEq] at h
    exact h ▸ hd
  | cons f es ih =>
    intro done t hd h
    rw [evalFields] at h
    obtain ⟨p, -, h⟩ := bind_eq_ok.1 h
    exact ih hd.put h

theorem isWellFormed_of_requireSchema {place : Place} {p : Part} {s : Schema} (hp : p.IsWellFormed)
    (h : requireSchema place p = .ok s) : s.isWellFormed = true :=
  hp s (requireSchema_eq_ok h)

theorem isWellFormed_of_requireOption {place : Place} {o : Option Part} {r : Option Schema}
    (hp : ∀ p ∈ o, p.IsWellFormed) (h : requireOption place o = .ok r) :
    ∀ s ∈ r, s.isWellFormed = true :=
  fun s hs => hp _ (requireOption_eq_ok h hs) s rfl

theorem isWellFormed_of_requireSchemas {place : Place} {entry : Nat → Place} {ps : List Part}
    {ss : List Schema} (hp : ∀ p ∈ ps, p.IsWellFormed) (h : requireSchemas place entry ps = .ok ss) :
    ss.isEmpty = false ∧ ∀ s ∈ ss, s.isWellFormed = true := by
  obtain ⟨hne, hs⟩ := requireSchemas_eq_ok h
  refine ⟨hne, fun s hm => ?_⟩
  obtain ⟨p, hpm, hps⟩ := exists_mem_of_forall₂ hs.flip hm
  exact hp p hpm s hps

/-- A schema whose parts are well-formed is well-formed if nothing is amiss at its root. -/
theorem isWellFormed_of_parts {s : Schema}
    (hs : (match s with
      | .object fields => decide (fields.map (·.1.string)).Nodup
      | .tuple items => !items.isEmpty
      | .union options => !options.isEmpty
      | _ => true) = true)
    (hp : ∀ t ∈ s.parts, t.isWellFormed = true) : Part.IsWellFormed (.schema s) := by
  rintro _ ⟨⟩
  exact (Schema.everywhere_iff _ s).2 ⟨hs, hp⟩

mutual

/-- Calls that are given well-formed schemas make well-formed schemas. -/
theorem isWellFormed_of_eval : ∀ {e : Construction} {p : Part},
    (∀ t ∈ e.given, t.isWellFormed = true) → e.eval = .ok p → p.IsWellFormed
  | .part (.schema s), p, hg, h => by
    rw [eval, Except.ok.injEq] at h
    rw [← h]
    rintro _ ⟨⟩
    exact hg s (by simp [given])
  | .part (.value v), p, _, h => by
    rw [eval, Except.ok.injEq] at h
    rw [← h]
    rintro _ ⟨⟩
  | .primitive name, p, _, h => by
    rw [eval] at h
    obtain ⟨s, hs, rfl⟩ := map_eq_ok.1 h
    unfold Schema.ofKindName at hs
    split at hs
    · split at hs
      · cases hs
        exact isWellFormed_of_parts rfl (by simp [Schema.parts])
      · cases hs
    · cases hs
  | .object fields, p, hg, h => by
    rw [eval] at h
    obtain ⟨t, ht, h⟩ := bind_eq_ok.1 h
    obtain ⟨fs, hf, h⟩ := bind_eq_ok.1 h
    rw [← pure_eq_ok.1 h]
    have hd := areApart_of_evalFields .nil ht
    have hp := isWellFormed_of_evalFields hg (by simp) ht
    rintro _ ⟨⟩
    exact Schema.isWellFormed_object hd hp hf
  | .objectOf fields, p, _, h => by
    rw [eval] at h
    obtain ⟨q, -, h⟩ := bind_eq_ok.1 h
    obtain ⟨fs, hf, h⟩ := bind_eq_ok.1 h
    rw [← pure_eq_ok.1 h, requireMapping_eq_ok hf]
    exact isWellFormed_of_parts rfl (by simp [Schema.parts])
  | .array item, p, hg, h => by
    rw [given] at hg
    rw [eval] at h
    obtain ⟨q, hq, h⟩ := bind_eq_ok.1 h
    obtain ⟨s, hs, h⟩ := bind_eq_ok.1 h
    rw [← pure_eq_ok.1 h]
    have hw := isWellFormed_of_requireSchema (isWellFormed_of_eval hg hq) hs
    exact isWellFormed_of_parts rfl (by simpa [Schema.parts] using hw)
  | .tuple items, p, hg, h => by
    rw [eval] at h
    obtain ⟨ps, hps, h⟩ := bind_eq_ok.1 h
    obtain ⟨ss, hs, h⟩ := bind_eq_ok.1 h
    rw [← pure_eq_ok.1 h]
    obtain ⟨hne, hw⟩ := isWellFormed_of_requireSchemas (isWellFormed_of_evalList hg hps) hs
    exact isWellFormed_of_parts (by simp [hne]) hw
  | .tupleOf items, p, _, h => by
    rw [eval] at h
    obtain ⟨q, -, h⟩ := bind_eq_ok.1 h
    obtain ⟨ss, hs, -⟩ := bind_eq_ok.1 h
    exact absurd hs requireList_ne_ok
  | .union options, p, hg, h => by
    rw [eval] at h
    obtain ⟨ps, hps, h⟩ := bind_eq_ok.1 h
    obtain ⟨ss, hs, h⟩ := bind_eq_ok.1 h
    rw [← pure_eq_ok.1 h]
    obtain ⟨hne, hw⟩ := isWellFormed_of_requireSchemas (isWellFormed_of_evalList hg hps) hs
    exact isWellFormed_of_parts (by simp [hne]) hw
  | .unionOf options, p, _, h => by
    rw [eval] at h
    obtain ⟨q, -, h⟩ := bind_eq_ok.1 h
    obtain ⟨ss, hs, -⟩ := bind_eq_ok.1 h
    exact absurd hs requireList_ne_ok
  | .optional inner, p, hg, h => by
    rw [given] at hg
    rw [eval] at h
    obtain ⟨q, hq, h⟩ := bind_eq_ok.1 h
    obtain ⟨s, hs, h⟩ := bind_eq_ok.1 h
    rw [← pure_eq_ok.1 h]
    have hw := isWellFormed_of_requireSchema (isWellFormed_of_eval hg hq) hs
    exact isWellFormed_of_parts rfl (by simpa [Schema.parts] using hw)
  | .table key value, p, hg, h => by
    rw [given, List.forall_mem_append] at hg
    rw [eval] at h
    obtain ⟨k, hk, h⟩ := bind_eq_ok.1 h
    obtain ⟨v, hv, h⟩ := bind_eq_ok.1 h
    obtain ⟨k', hk', h⟩ := bind_eq_ok.1 h
    obtain ⟨v', hv', h⟩ := bind_eq_ok.1 h
    rw [← pure_eq_ok.1 h]
    have hwk := isWellFormed_of_requireOption (isWellFormed_of_evalOption hg.1 hk) hk'
    have hwv := isWellFormed_of_requireOption (isWellFormed_of_evalOption hg.2 hv) hv'
    refine isWellFormed_of_parts rfl ?_
    rw [Schema.parts, List.forall_mem_append]
    exact ⟨fun t ht => hwk t (Option.mem_toList.1 ht), fun t ht => hwv t (Option.mem_toList.1 ht)⟩
  | .literal expected, p, _, h => by
    rw [eval, Except.ok.injEq] at h
    rw [← h]
    exact isWellFormed_of_parts rfl (by simp [Schema.parts])

theorem isWellFormed_of_evalList : ∀ {es : List Construction} {ps : List Part},
    (∀ t ∈ givenList es, t.isWellFormed = true) → evalList es = .ok ps → ∀ p ∈ ps, p.IsWellFormed
  | [], ps, _, h => by
    rw [evalList, Except.ok.injEq] at h
    simp [← h]
  | e :: es, ps, hg, h => by
    rw [givenList, List.forall_mem_append] at hg
    rw [evalList] at h
    obtain ⟨p, hp, h⟩ := bind_eq_ok.1 h
    obtain ⟨rest, hr, h⟩ := bind_eq_ok.1 h
    rw [← pure_eq_ok.1 h, List.forall_mem_cons]
    exact ⟨isWellFormed_of_eval hg.1 hp, isWellFormed_of_evalList hg.2 hr⟩

theorem isWellFormed_of_evalFields : ∀ {es : List (Value × Construction)} {done t : KeyTable Part},
    (∀ s ∈ givenFields es, s.isWellFormed = true) → (∀ f ∈ done, f.2.IsWellFormed) →
    evalFields done es = .ok t → ∀ f ∈ t, f.2.IsWellFormed
  | [], done, t, _, hd, h => by
    rw [evalFields, Except.ok.injEq] at h
    exact h ▸ hd
  | (k, e) :: es, done, t, hg, hd, h => by
    rw [givenFields, List.forall_mem_append] at hg
    rw [evalFields] at h
    obtain ⟨p, hp, h⟩ := bind_eq_ok.1 h
    have hw := isWellFormed_of_eval hg.1 hp
    refine isWellFormed_of_evalFields hg.2 (fun f hf => ?_) h
    rcases KeyTable.mem_put hf with hf | rfl
    · exact hd f hf
    · exact hw

theorem isWellFormed_of_evalOption : ∀ {e : Option Construction} {o : Option Part},
    (∀ s ∈ givenOption e, s.isWellFormed = true) → evalOption e = .ok o → ∀ p ∈ o, p.IsWellFormed
  | none, o, _, h => by
    rw [evalOption, Except.ok.injEq] at h
    simp [← h]
  | some e, o, hg, h => by
    rw [evalOption] at h
    obtain ⟨p, hp, h⟩ := bind_eq_ok.1 h
    rw [← pure_eq_ok.1 h]
    rintro _ ⟨⟩
    exact isWellFormed_of_eval hg hp

end

end Construction

/-- Schemas that come out of constructor calls: custom leaves, and what calls make of such schemas. -/
inductive Schema.Built : Schema → Prop
  | custom (own : Leaf) : Built (.custom own)
  | made {e : Construction} {s : Schema} : (∀ t ∈ e.given, Built t) → e.eval = .ok (.schema s) → Built s

theorem Schema.isWellFormed_of_built {s : Schema} (h : s.Built) : s.isWellFormed = true := by
  induction h with
  | custom => rfl
  | made _ he ih => exact Construction.isWellFormed_of_eval ih he _ rfl

end Conform
