import Conform.Proofs.Schema.Faults

/-! What the path of a fault leads to. It leads along the value and along the schema at once, and ends where
the fault comes from: at a part of the value that the schema met there rejects, at the key of a table that its
schema rejects, or one token beyond a container that lacks a field, lacks an element or has one too many. A
union stands where all of its options fail, each with a fault that stands somewhere in the same part. -/

namespace Conform

/-- Whether a schema only looks at the value as it is. -/
def Schema.isSimple : Schema → Bool
  | leaf _ => true
  | literal _ => true
  | _ => false

/-- Whether the keys of all tables in a schema are checked by simple schemas, if at all. -/
def Schema.hasSimpleKeys (s : Schema) : Bool :=
  s.everywhere fun
    | .table key _ => key.all isSimple
    | _ => true

/-- Whether the keys of all mappings in a value can be keys, and each occurs once. -/
def Value.hasProperKeys (v : Value) : Bool :=
  v.everywhere fun
    | .map _ es => es.all (·.1.isHashable) && areDistinct (es.map (·.1))
    | _ => true

theorem Value.keys_of_hasProperKeys {v : Value} {es : Entries} (hv : v.hasProperKeys = true)
    (he : v.entries? = some es) {e : Value × Value} (hm : e ∈ es) :
    e.1.isHashable = true ∧ v.Holds e.1 e.2 := by
  obtain ⟨form, rfl⟩ := exists_eq_map he
  have h := here_of_everywhere hv
  simp only [Bool.and_eq_true, List.all_eq_true] at h
  refine ⟨h.1 e hm, ?_⟩
  by_cases hs : e.1.same e.1 = true
  · left
    rw [part?_of_entries? he]
    exact KeyTable.get?_of_mem h.2 hm hs
  · exact .inr ⟨by simpa using hs, es, rfl, hm⟩

namespace Schema

/-- The schema that a path leads to in a schema, and the number of steps down to it. Fields, elements and
values of tables take a token; the schema in an optional one takes none. -/
inductive Meets : Schema → Path → Nat → Schema → Prop
  | here (s : Schema) : Meets s [] 0 s
  | field {fields : List (FieldName × Schema)} {f : FieldName × Schema} {path : Path} {n : Nat}
      {u : Schema} : f ∈ fields → Meets f.2 path n u → Meets (.object fields) (f.1.value :: path) (n + 1) u
  | item {t u : Schema} {path : Path} {n : Nat} (i : Nat) : Meets t path n u →
      Meets (.array t) (.int i :: path) (n + 1) u
  | position {items : List Schema} {i : Nat} {t u : Schema} {path : Path} {n : Nat} :
      items[i]? = some t → Meets t path n u → Meets (.tuple items) (.int i :: path) (n + 1) u
  | inner {t u : Schema} {path : Path} {n : Nat} : Meets t path n u → Meets (.optional t) path (n + 1) u
  | value {key : Option Schema} {t u : Schema} {path : Path} {n : Nat} (k : Value) : Meets t path n u →
      Meets (.table key (some t)) (k :: path) (n + 1) u

theorem Meets.append {s t u : Schema} {p q : Path} {n m : Nat} (h : s.Meets p n t) (hu : t.Meets q m u) :
    s.Meets (p ++ q) (n + m) u := by
  have step (n : Nat) : n + 1 + m = n + m + 1 := by omega
  induction h with
  | here => simpa using hu
  | field hf _ ih =>
    rw [step]
    exact .field hf (ih hu)
  | item i _ ih =>
    rw [step]
    exact .item i (ih hu)
  | position hi _ ih =>
    rw [step]
    exact .position hi (ih hu)
  | inner _ ih =>
    rw [step]
    exact .inner (ih hu)
  | value k _ ih =>
    rw [step]
    exact .value k (ih hu)

/-- A path that leads to a schema in a schema and to a value in a value. -/
structure Descends (s : Schema) (v : Value) (path : Path) (n : Nat) (t : Schema) (x : Value) : Prop where
  schema : s.Meets path n t
  value : v.Reaches path x

theorem Descends.refl (s : Schema) (v : Value) : s.Descends v [] 0 s v := ⟨.here s, rfl⟩

theorem Descends.append {s t u : Schema} {v x y : Value} {p q : Path} {n m : Nat}
    (h : s.Descends v p n t x) (hu : t.Descends x q m u y) : s.Descends v (p ++ q) (n + m) u y :=
  ⟨h.schema.append hu.schema, Value.reaches_append.2 ⟨x, h.value, hu.value⟩⟩

/-- Whether a path leads to a schema and a value with a property if its last token is left out. -/
def Beyond (s : Schema) (v : Value) (path : Path) (token : Value) (P : Nat → Schema → Value → Prop) : Prop :=
  ∃ p n t x, path = p ++ [token] ∧ s.Descends v p n t x ∧ P n t x

/-- What a path must lead to for each cause of a fault, in a check at the given depth. -/
def Points (c : Settings) (s : Schema) (d : Nat) (v : Value) (path : Path) : Cause → Prop
  | .missingField field => s.Beyond v path field fun _ t x => ∃ fields es, t = .object fields ∧
      (∃ f ∈ fields, f.1.value = field) ∧ x.entries? = some es ∧
      (es.get? field = none ∨ es.get? field = some .null)
  | .missingElement i => s.Beyond v path (.int i) fun _ t x => ∃ items e, t = .tuple items ∧
      x.elements? = some e ∧ i = e.toList.length ∧ e.toList.length < items.length
  | .extraElement i => s.Beyond v path (.int i) fun _ t x => ∃ items e, t = .tuple items ∧
      x.elements? = some e ∧ i = items.length ∧ items.length < e.toList.length
  | .tooDeep _ => ∃ x, v.Reaches path x
  | cause =>
      (∃ n t x, s.Descends v path n t x ∧ t.check c (d + n) x = .rejected (.here cause)) ∨
      ∃ k, s.Beyond v path k fun n t x => ∃ key value y, t = .table (some key) value ∧ x.Holds k y ∧
        key.check c (d + n + 1) k = .rejected (.here cause)

/-- The faults of the options of a union with their places. -/
def numbered (fs : List Fault) : List (Int × Fault) := fs.zipIdx.map fun p => ((p.2 : Int), p.1)

/-- A fault whose path leads to where it comes from. Where a union fails, so do the paths of the faults of its
options, from the value that the union rejects. -/
inductive Places (c : Settings) : Schema → Nat → Value → Fault → Prop
  | single {s : Schema} {d : Nat} {v : Value} {f : Fault} : s.Points c d v f.path f.cause →
      f.faultClass ≠ .unionExhausted → Places c s d v f
  | union {s : Schema} {d n : Nat} {v x : Value} {f : Fault} {options : List Schema} {fs : List Fault} :
      s.Descends v f.path n (.union options) x → f.cause = .exhausted (numbered fs) →
      (Schema.union options).check c (d + n) x = .rejected (.here (.exhausted (numbered fs))) →
      fs.length = options.length →
      (∀ (i : Nat) (t : Schema) (g : Fault), options[i]? = some t → fs[i]? = some g →
        Places c t (d + n + 1) x g) → Places c s d v f

variable {c : Settings} {s t : Schema} {d n m : Nat} {v x y : Value} {f : Fault} {p path : Path}

/-! Going down into a part adds the tokens in front. -/

theorem Beyond.along {token : Value} {P Q : Nat → Schema → Value → Prop} (h : s.Descends v p m t x)
    (hb : t.Beyond x path token P) (hq : ∀ n u y, P n u y → Q (m + n) u y) :
    s.Beyond v (p ++ path) token Q := by
  obtain ⟨q, n, u, y, rfl, hd, hp⟩ := hb
  exact ⟨p ++ q, m + n, u, y, (List.append_assoc ..).symm, h.append hd, hq n u y hp⟩

theorem Points.along {cause : Cause} (h : s.Descends v p m t x) (hp : t.Points c (d + m) x path cause) :
    s.Points c d v (p ++ path) cause := by
  cases cause
  case missingField field => exact Beyond.along h hp fun _ _ _ hf => hf
  case missingElement i => exact Beyond.along h hp fun _ _ _ he => he
  case extraElement i => exact Beyond.along h hp fun _ _ _ he => he
  case tooDeep limit =>
    obtain ⟨y, hy⟩ := hp
    exact ⟨y, Value.reaches_append.2 ⟨x, h.value, hy⟩⟩
  all_goals
    rcases hp with ⟨n, u, y, hd, hr⟩ | ⟨k, hb⟩
    · exact .inl ⟨m + n, u, y, h.append hd, by rwa [← Nat.add_assoc]⟩
    · refine .inr ⟨k, hb.along h fun n u y hk => ?_⟩
      rwa [← Nat.add_assoc]

theorem Places.along {g : Fault} (h : s.Descends v p m t x) (hf : t.Places c (d + m) x f)
    (hc : g.cause = f.cause) (hp : g.path = p ++ f.path) : s.Places c d v g := by
  cases hf with
  | single hpt hne =>
    refine .single ?_ ?_
    · rw [hc, hp]
      exact hpt.along h
    · rwa [Fault.faultClass, hc]
  | union hd hx hr hl ho =>
    refine .union (hp ▸ h.append hd) (hc.trans hx) ?_ hl fun i t g hi hg => ?_
    · rwa [← Nat.add_assoc]
    · rw [← Nat.add_assoc]
      exact ho i t g hi hg

theorem Places.under {token : Value} (hm : s.Meets [token] 1 t) (hx : v.Holds token x)
    (hf : t.Places c (d + 1) x f) : s.Places c d v (f.under token) := by
  refine hf.along ⟨hm, Value.reaches_singleton hx⟩ (Fault.cause_under token f) ?_
  rw [Fault.path_under, List.singleton_append]

theorem places_of_child (h : t.child c d x = .rejected f)
    (ih : t.check c (d + 1) x = .rejected f → t.Places c (d + 1) x f) : t.Places c (d + 1) x f := by
  rcases enter_eq_rejected_iff.1 h with ⟨-, rfl⟩ | ⟨-, h⟩
  · exact .single ⟨x, rfl⟩ nofun
  · exact ih h

/-- The fault of a key stands at the key, which has no part that the fault could stand at. -/
theorem places_of_key {key : Schema} {value : Option Schema} {k : Value} (hk : key.isSimple = true)
    (hy : v.Holds k y) (h : key.child c d k = .rejected f) :
    (table (some key) value).Places c d v (f.under k) := by
  rcases enter_eq_rejected_iff.1 h with ⟨-, rfl⟩ | ⟨-, h⟩
  · exact .single ⟨y, Value.reaches_singleton hy⟩ nofun
  · cases key with
    | leaf kind =>
      obtain ⟨-, shown, -, rfl⟩ := rejected_of_check_leaf h
      exact .single (.inr ⟨k, [], 0, _, v, rfl, .refl _ v, _, value, y, rfl, hy, h⟩) nofun
    | literal expected =>
      obtain ⟨-, shownExpected, shown, -, rfl⟩ := rejected_of_check_literal h
      exact .single (.inr ⟨k, [], 0, _, v, rfl, .refl _ v, _, value, y, rfl, hy, h⟩) nofun
    | _ => simp [isSimple] at hk

theorem eq_of_isSimple {key : Schema} {k k' : Value} (hk : key.isSimple = true)
    (h : key.check c d k = .accepted k') : k' = k := by
  cases key with
  | leaf kind => exact (check_leaf_eq_accepted_iff.1 h).2
  | literal expected => exact (check_literal_eq_accepted_iff.1 h).2.2
  | _ => simp [isSimple] at hk

theorem places_of_rejected {s : Schema} (hs : s.hasSimpleKeys = true) : ∀ {d : Nat} {v : Value} {f : Fault},
    v.hasProperKeys = true → s.check c d v = .rejected f → s.Places c d v f := by
  induction s using induction with
  | leaf kind =>
    intro d v f _ h
    obtain ⟨-, shown, -, rfl⟩ := rejected_of_check_leaf h
    exact .single (.inl ⟨0, _, v, .refl _ v, h⟩) nofun
  | literal expected =>
    intro d v f _ h
    obtain ⟨-, shownExpected, shown, -, rfl⟩ := rejected_of_check_literal h
    exact .single (.inl ⟨0, _, v, .refl _ v, h⟩) nofun
  | custom own =>
    intro d v f _ h
    obtain ⟨-, rfl⟩ := rejected_of_check_custom h
    exact .single (.inl ⟨0, _, v, .refl _ v, h⟩) nofun
  | array item ih =>
    intro d v f hv h
    rcases rejected_of_check_array h with ⟨-, rfl⟩ | ⟨e, before, x, after, f', he, hx, -, hf, rfl⟩
    · exact .single (.inl ⟨0, _, v, .refl _ v, h⟩) nofun
    have hxv := Value.everywhere_of_mem_elements hv (fun _ => rfl) he x (by simp [hx])
    refine (places_of_child hf (ih (everywhere_of_mem_parts hs item_mem_parts) hxv)).under ?_ ?_
    · exact .item before.length (.here item)
    · left
      rw [Value.part?_of_elements? he, hx]
      simp
  | tuple items ih =>
    intro d v f hv h
    rcases rejected_of_check_tuple h with
      ⟨-, rfl⟩ | ⟨e, he, ⟨hl, -, rfl⟩ | ⟨before, q, after, f', hq, -, hf, rfl⟩⟩
    · exact .single (.inl ⟨0, _, v, .refl _ v, h⟩) nofun
    · rcases Nat.lt_or_ge items.length e.toList.length with hlt | hle
      · rw [lengthFault_of_lt hlt]
        exact .single ⟨[], 0, _, v, rfl, .refl _ v, items, e, rfl, he, rfl, hlt⟩ nofun
      · rw [lengthFault_of_le hle]
        exact .single ⟨[], 0, _, v, rfl, .refl _ v, items, e, rfl, he, rfl, by omega⟩ nofun
    · have hz : (items.zip e.toList)[before.length]? = some q := by simp [hq]
      obtain ⟨hi, hx⟩ := List.getElem?_zip_eq_some.1 hz
      have hm := List.mem_of_getElem? hi
      have hxv := Value.everywhere_of_mem_elements hv (fun _ => rfl) he _ (List.mem_of_getElem? hx)
      refine (places_of_child hf (ih q.1 hm (everywhere_of_mem_parts hs hm) hxv)).under ?_ ?_
      · exact .position hi (.here q.1)
      · left
        rwa [Value.part?_of_elements? he]
  | object fields ih =>
    intro d v f hv h
    rcases rejected_of_check_object h with ⟨-, rfl⟩ | ⟨es, before, g, after, he, hg, -, h⟩
    · exact .single (.inl ⟨0, _, v, .refl _ v, h⟩) nofun
    have hg : g ∈ fields := by simp [hg]
    have missing_places (hn : es.get? g.1.value = none ∨ es.get? g.1.value = some .null) :
        (object fields).Places c d v (missing g.1) :=
      .single ⟨[], 0, _, v, rfl, .refl _ v, fields, es, rfl, ⟨g, hg, rfl⟩, he, hn⟩ nofun
    rcases h with ⟨hn, rfl⟩ | ⟨x, f', hx, hf, rfl⟩
    · exact missing_places (.inl hn)
    · unfold fieldFault
      split
      · next hnull =>
        simp only [Bool.and_eq_true, Value.isNull_iff] at hnull
        exact missing_places (.inr (hnull.1 ▸ hx))
      · have hxv := Value.everywhere_of_get? hv he hx
        have hs' := everywhere_of_mem_parts hs (field_mem_parts hg)
        refine (places_of_child hf (ih g hg hs' hxv)).under (.field hg (.here g.2)) ?_
        left
        rwa [Value.part?_of_entries? he]
  | union options ih =>
    intro d v f hv h
    obtain ⟨fs, hfs, rfl⟩ := rejected_of_check_union h
    refine .union (.refl _ v) rfl h hfs.length_eq.symm fun i t g hi hg => ?_
    have hr := rel_getElem?_of_forall₂ hfs i
    rw [hi, hg, Option.rel_some_some] at hr
    have hm := List.mem_of_getElem? hi
    exact places_of_child hr (ih t hm (everywhere_of_mem_parts hs hm) hv)
  | optional inner ih =>
    intro d v f hv h
    have hf := places_of_child (rejected_of_check_optional h).2
      (ih (everywhere_of_mem_parts hs inner_mem_parts) hv)
    exact hf.along ⟨.inner (.here inner), rfl⟩ rfl rfl
  | table key value ihk ihv =>
    intro d v f hv h
    rcases rejected_of_check_table h with ⟨-, rfl⟩ | ⟨es, before, e, after, he, hes, -, h⟩
    · exact .single (.inl ⟨0, _, v, .refl _ v, h⟩) nofun
    have hm : e ∈ es := by simp [hes]
    obtain ⟨hh, hx⟩ := Value.keys_of_hasProperKeys hv he hm
    have hk := here_of_everywhere hs
    rcases h with ⟨f', hf, rfl⟩ | ⟨k', hk', ⟨f', hf, rfl⟩ | ⟨-, hh', rfl⟩⟩
    · cases key with
      | none => simp [checkPart_none] at hf
      | some t =>
        rw [checkPart_some] at hf
        exact places_of_key (by simpa using hk) hx hf
    · cases value with
      | none => simp [checkPart_none] at hf
      | some t =>
        rw [checkPart_some] at hf
        have hxv := (Value.everywhere_of_mem_entries hv he hm).2
        have ht : t ∈ (table key (some t)).parts := value_mem_parts rfl
        exact (places_of_child hf (ihv t rfl (everywhere_of_mem_parts hs ht) hxv)).under (.value e.1 (.here t)) hx
    · -- a simple schema gives the key back, and the key could be one
      have hke : k' = e.1 := by
        cases key with
        | none =>
          rw [checkPart_none, Outcome.accepted.injEq] at hk'
          exact hk'.symm
        | some t =>
          rw [checkPart_some, enter_eq_accepted_iff] at hk'
          exact eq_of_isSimple (by simpa using hk) hk'.2
      simp [hke, hh] at hh'

theorem Beyond.exists_reaches {token : Value} {P : Nat → Schema → Value → Prop}
    (h : s.Beyond v path token P) : ∃ x, v.Reaches path.dropLast x := by
  obtain ⟨p, n, t, x, rfl, hd, -⟩ := h
  exact ⟨x, by rw [List.dropLast_concat]; exact hd.value⟩

theorem Points.exists_reaches {cause : Cause} (h : s.Points c d v path cause) :
    ∃ x, v.Reaches path.dropLast x := by
  cases cause
  case missingField field => exact Beyond.exists_reaches h
  case missingElement i => exact Beyond.exists_reaches h
  case extraElement i => exact Beyond.exists_reaches h
  case tooDeep limit =>
    obtain ⟨x, hx⟩ := h
    exact Value.exists_reaches_dropLast hx
  all_goals
    rcases h with ⟨n, t, x, hd, -⟩ | ⟨k, hb⟩
    · exact Value.exists_reaches_dropLast hd.value
    · exact hb.exists_reaches

theorem Places.points (h : s.Places c d v f) : s.Points c d v f.path f.cause := by
  cases h with
  | single hp => exact hp
  | union hd hc hr =>
    rw [hc]
    exact .inl ⟨_, _, _, hd, hr⟩

/-- The path of a fault leads to where the fault comes from, and so do the paths of the faults in it. Without
its last token it always leads to something. -/
theorem places_of_validate {s : Schema} {c : Settings} {v : Value} {f : Fault}
    (hs : s.hasSimpleKeys = true) (hv : v.hasProperKeys = true) (h : s.validate c v = .rejected f) :
    (∃ x, v.Reaches f.path.dropLast x) ∧ s.Points c 0 v f.path f.cause ∧ s.Places c 0 v f :=
  have hp := places_of_rejected hs hv h
  ⟨hp.points.exists_reaches, hp.points, hp⟩

theorem places_of_validate_union :
    let s : Schema := .object [(.text "a", .optional (.table (some (.leaf .number))
      (some (.union [.tuple [.leaf .integer], .array (.object [(.text "b", .leaf .any)])]))))]
    let v : Value := .map .view [(.str "a", .dict [(.float .nan, .seq .tuple [.dict [], .int 1])])]
    ∃ f, s.validate {} v = .rejected f ∧ f.path = [.str "a", .float .nan] ∧ s.Places {} 0 v f := by
  intro s v
  exact ⟨_, rfl, rfl, (places_of_validate (by decide) (by decide) rfl).2.2⟩

end Schema

end Conform
