import Conform.Proofs.JsonSchema.Validity
import Conform.Proofs.Schema.Agreement

/-! An exported schema accepts the JSON values that the schema accepts. -/

namespace Conform

/-- Whether the literals of a schema are strings, truth values or null. -/
def Schema.hasPlainLiterals (s : Schema) : Bool :=
  s.everywhere fun
    | .literal expected => expected.isPlain
    | _ => true

/-! What the parts of a schema are exported to. -/

/-- Whether a schema is exported to some JSON schema, from some place. -/
def Schema.ExportsTo (s : Schema) (j : JsonSchema) : Prop :=
  ∃ p ks, s.keywords p = .ok ks ∧ j = .keywords ks

theorem exportFields_eq_ok {p : String} {fields : List (FieldName × Schema)}
    {ps : List (FieldName × JsonSchema)} (h : exportFields p fields = .ok ps) :
    List.Forall₂ (fun f q => q.1 = f.1 ∧ f.2.ExportsTo q.2) fields ps := by
  induction fields generalizing ps with
  | nil =>
    rw [exportFields, Except.ok.injEq] at h
    exact h ▸ .nil
  | cons f fields ih =>
    rw [exportFields, bind_eq_ok] at h
    obtain ⟨ks, hk, h⟩ := h
    obtain ⟨rest, hr, h⟩ := bind_eq_ok.1 h
    rw [← pure_eq_ok.1 h]
    exact .cons ⟨rfl, _, ks, hk, rfl⟩ (ih hr)

theorem exportItems_eq_ok {p : String} {i : Nat} {items : List Schema} {ss : List JsonSchema}
    (h : exportItems p i items = .ok ss) : List.Forall₂ Schema.ExportsTo items ss := by
  induction items generalizing i ss with
  | nil =>
    rw [exportItems, Except.ok.injEq] at h
    exact h ▸ .nil
  | cons s items ih =>
    rw [exportItems, bind_eq_ok] at h
    obtain ⟨ks, hk, h⟩ := h
    obtain ⟨rest, hr, h⟩ := bind_eq_ok.1 h
    rw [← pure_eq_ok.1 h]
    exact .cons ⟨_, ks, hk, rfl⟩ (ih hr)

theorem exportOptions_eq_ok {p : String} {options : List Schema} {ss : List JsonSchema}
    (h : exportOptions p options = .ok ss) : List.Forall₂ Schema.ExportsTo options ss := by
  induction options generalizing ss with
  | nil =>
    rw [exportOptions, Except.ok.injEq] at h
    exact h ▸ .nil
  | cons s options ih =>
    rw [exportOptions, bind_eq_ok] at h
    obtain ⟨ks, hk, h⟩ := h
    obtain ⟨rest, hr, h⟩ := bind_eq_ok.1 h
    rw [← pure_eq_ok.1 h]
    exact .cons ⟨_, ks, hk, rfl⟩ (ih hr)

theorem exportPart_eq_ok {p : String} {part : Option Schema} {j : Option JsonSchema}
    (h : exportPart p part = .ok j) : Option.Rel Schema.ExportsTo part j := by
  cases part with
  | none =>
    rw [exportPart, Except.ok.injEq] at h
    exact h ▸ .none
  | some s =>
    rw [exportPart, bind_eq_ok] at h
    obtain ⟨ks, hk, h⟩ := h
    rw [← pure_eq_ok.1 h]
    exact .some ⟨_, ks, hk, rfl⟩

/-! What a schema is exported to, by its form. -/

namespace Schema

variable {j : JsonSchema}

theorem exportsTo_leaf {kind : Kind} (h : (leaf kind).ExportsTo j) :
    ∃ ks, kind.keywords? = some ks ∧ j = .keywords ks := by
  obtain ⟨p, ks, h, rfl⟩ := h
  rw [keywords] at h
  split at h
  · next hk => exact ⟨_, hk, Except.ok.inj h ▸ rfl⟩
  · cases h

theorem exportsTo_literal {expected : Value} (h : (literal expected).ExportsTo j) :
    j = .keywords [.const expected] := by
  obtain ⟨p, ks, h, rfl⟩ := h
  rw [keywords] at h
  split at h
  · rw [← Except.ok.inj h]
  · cases h

theorem not_exportsTo_custom {own : Leaf} : ¬ (custom own).ExportsTo j := by
  rintro ⟨p, ks, h, -⟩
  cases h

theorem exportsTo_array {item : Schema} (h : (array item).ExportsTo j) :
    ∃ k, item.ExportsTo k ∧ j = .keywords [.type "array", .items k] := by
  obtain ⟨p, ks, h, rfl⟩ := h
  obtain ⟨ks', hk, h⟩ := bind_eq_ok.1 h
  exact ⟨_, ⟨_, ks', hk, rfl⟩, pure_eq_ok.1 h ▸ rfl⟩

theorem exportsTo_tuple {items : List Schema} (h : (tuple items).ExportsTo j) :
    ∃ ss, List.Forall₂ ExportsTo items ss ∧
      j = .keywords [.type "array", .leadingItems ss, .items (.constant false), .minItems items.length] := by
  obtain ⟨p, ks, h, rfl⟩ := h
  obtain ⟨ss, hs, h⟩ := bind_eq_ok.1 h
  exact ⟨ss, exportItems_eq_ok hs, pure_eq_ok.1 h ▸ rfl⟩

theorem exportsTo_object {fields : List (FieldName × Schema)} (h : (object fields).ExportsTo j) :
    ∃ ps, List.Forall₂ (fun f q => q.1 = f.1 ∧ f.2.ExportsTo q.2) fields ps ∧
      j = .keywords ([.type "object", .properties ps, .additionalProperties (.constant true)] ++
        if (fields.map (·.1)).isEmpty then [] else [.required (fields.map (·.1))]) := by
  obtain ⟨p, ks, h, rfl⟩ := h
  obtain ⟨ps, hp, h⟩ := bind_eq_ok.1 h
  exact ⟨ps, exportFields_eq_ok hp, pure_eq_ok.1 h ▸ rfl⟩

theorem exportsTo_union {options : List Schema} (h : (union options).ExportsTo j) :
    ∃ ss, List.Forall₂ ExportsTo options ss ∧ j = .keywords [.anyOf ss] := by
  obtain ⟨p, ks, h, rfl⟩ := h
  obtain ⟨ss, hs, h⟩ := bind_eq_ok.1 h
  exact ⟨ss, exportOptions_eq_ok hs, pure_eq_ok.1 h ▸ rfl⟩

theorem exportsTo_optional {inner : Schema} (h : (optional inner).ExportsTo j) :
    ∃ k, inner.ExportsTo k ∧ j = .keywords [.anyOf [k, .keywords [.type "null"]]] := by
  obtain ⟨p, ks, h, rfl⟩ := h
  obtain ⟨ks', hk, h⟩ := bind_eq_ok.1 h
  exact ⟨_, ⟨_, ks', hk, rfl⟩, pure_eq_ok.1 h ▸ rfl⟩

theorem exportsTo_table {key value : Option Schema} (h : (table key value).ExportsTo j) :
    ∃ names values, Option.Rel ExportsTo key names ∧ Option.Rel ExportsTo value values ∧
      j = .keywords (.type "object" :: (names.map Keyword.propertyNames).toList ++
        (values.map Keyword.additionalProperties).toList) := by
  obtain ⟨p, ks, h, rfl⟩ := h
  obtain ⟨names, hn, h⟩ := bind_eq_ok.1 h
  obtain ⟨values, hv, h⟩ := bind_eq_ok.1 h
  exact ⟨names, values, exportPart_eq_ok hn, exportPart_eq_ok hv, pure_eq_ok.1 h ▸ rfl⟩

end Schema

/-! Validity, for the keywords that stand together. -/

namespace JsonSchema

variable {v : Value}

theorem valid_keywords_iff {ks : List Keyword} : (keywords ks).Valid v ↔ ∀ k ∈ ks, k.Holds ks v := by
  rw [Valid]

theorem valid_type_iff {name : String} : (keywords [.type name]).Valid v ↔ v.HasJsonType name := by
  simp only [valid_keywords_iff, List.mem_singleton, forall_eq, Keyword.Holds]

theorem valid_anyOf_iff {ss : List JsonSchema} :
    (keywords [.anyOf ss]).Valid v ↔ ∃ s ∈ ss, s.Valid v := by
  simp only [valid_keywords_iff, List.mem_singleton, forall_eq, Keyword.Holds, exists_prop]

theorem valid_object_iff {ps : List (FieldName × JsonSchema)} {names : List FieldName} :
    (keywords ([.type "object", .properties ps, .additionalProperties (.constant true)] ++
      if names.isEmpty then [] else [.required names])).Valid v ↔
    ∃ es, v = .dict es ∧
      (∀ e ∈ es, ∀ f ∈ ps, e.1.string? = some f.1.string → f.2.Valid e.2) ∧
      ∀ n ∈ names, ∃ e ∈ es, e.1.string? = some n.string := by
  have required_iff {ks : List Keyword} :
      (∀ k ∈ if names.isEmpty then [] else [Keyword.required names], k.Holds ks v) ↔
        ∀ es, v = .dict es → ∀ n ∈ names, ∃ e ∈ es, e.1.string? = some n.string := by
    cases names with
    | nil => simp
    | cons n names =>
      simp only [List.isEmpty_cons, Bool.false_eq_true, if_false, List.mem_singleton, forall_eq,
        Keyword.Holds]
  rw [valid_keywords_iff, List.forall_mem_append, required_iff]
  simp only [List.forall_mem_cons, List.not_mem_nil, Keyword.Holds, Value.HasJsonType, Valid]
  refine ⟨fun h => ?_, fun h => ?_⟩
  · obtain ⟨⟨⟨es, rfl⟩, hp, -⟩, hr⟩ := h
    exact ⟨es, rfl, hp es rfl, hr es rfl⟩
  · obtain ⟨es, rfl, hp, hr⟩ := h
    refine ⟨⟨⟨es, rfl⟩, ?_, by simp⟩, ?_⟩
    · rintro _ ⟨⟩
      exact hp
    · rintro _ ⟨⟩
      exact hr

theorem valid_array_iff {s : JsonSchema} :
    (keywords [.type "array", .items s]).Valid v ↔ ∃ xs, v = .list xs ∧ ∀ x ∈ xs, s.Valid x := by
  simp only [valid_keywords_iff, List.forall_mem_cons, List.not_mem_nil, Keyword.Holds,
    Value.HasJsonType, leadingCount, List.drop_zero]
  refine ⟨fun h => ?_, fun h => ?_⟩
  · obtain ⟨⟨xs, rfl⟩, h, -⟩ := h
    exact ⟨xs, rfl, h xs rfl⟩
  · obtain ⟨xs, rfl, h⟩ := h
    refine ⟨⟨xs, rfl⟩, ?_, by simp⟩
    rintro _ ⟨⟩
    exact h

theorem valid_tuple_iff {ss : List JsonSchema} :
    (keywords [.type "array", .leadingItems ss, .items (.constant false), .minItems ss.length]).Valid v ↔
      ∃ xs, v = .list xs ∧ xs.length = ss.length ∧
        ∀ i, (h : i < ss.length) → ∀ x, xs[i]? = some x → ss[i].Valid x := by
  simp only [valid_keywords_iff, List.forall_mem_cons, List.not_mem_nil, Keyword.Holds,
    Value.HasJsonType, leadingCount, Valid, Bool.false_eq_true]
  refine ⟨fun h => ?_, fun h => ?_⟩
  · obtain ⟨⟨xs, rfl⟩, h, hd, hm, -⟩ := h
    have hn : xs.drop ss.length = [] := List.eq_nil_iff_forall_not_mem.2 (hd xs rfl)
    have := hm xs rfl
    have := List.drop_eq_nil_iff.1 hn
    exact ⟨xs, rfl, by omega, h xs rfl⟩
  · obtain ⟨xs, rfl, hl, h⟩ := h
    refine ⟨⟨xs, rfl⟩, ?_, ?_, ?_, by simp⟩
    · rintro _ ⟨⟩
      exact h
    · rintro _ ⟨⟩
      simp [← hl]
    · rintro _ ⟨⟩
      exact Nat.le_of_eq hl.symm

theorem valid_table_iff {names values : Option JsonSchema} :
    (keywords (.type "object" :: (names.map Keyword.propertyNames).toList ++
      (values.map Keyword.additionalProperties).toList)).Valid v ↔
    ∃ es, v = .dict es ∧ ∀ e ∈ es, (∀ s ∈ names, s.Valid e.1) ∧ ∀ s ∈ values, s.Valid e.2 := by
  have hn : declaredNames (.type "object" :: (names.map Keyword.propertyNames).toList ++
      (values.map Keyword.additionalProperties).toList) = [] := by
    cases names <;> cases values <;> rfl
  have names_iff {ks : List Keyword} : (∀ k ∈ (names.map Keyword.propertyNames).toList, k.Holds ks v) ↔
      ∀ es, v = .dict es → ∀ e ∈ es, ∀ s ∈ names, s.Valid e.1 := by
    cases names with
    | none => simp
    | some s => simp [Keyword.Holds]
  have values_iff {ks : List Keyword} (hd : declaredNames ks = []) :
      (∀ k ∈ (values.map Keyword.additionalProperties).toList, k.Holds ks v) ↔
        ∀ es, v = .dict es → ∀ e ∈ es, ∀ s ∈ values, s.Valid e.2 := by
    cases values with
    | none => simp
    | some s => simp [Keyword.Holds, hd]
  rw [valid_keywords_iff, List.forall_mem_append, List.forall_mem_cons, names_iff, values_iff hn,
    Keyword.Holds, Value.HasJsonType]
  refine ⟨fun h => ?_, fun h => ?_⟩
  · obtain ⟨⟨⟨es, rfl⟩, hk⟩, hv⟩ := h
    exact ⟨es, rfl, fun e he => ⟨hk es rfl e he, hv es rfl e he⟩⟩
  · obtain ⟨es, rfl, h⟩ := h
    refine ⟨⟨⟨es, rfl⟩, ?_⟩, ?_⟩
    · rintro _ ⟨⟩ e he
      exact (h e he).1
    · rintro _ ⟨⟩ e he
      exact (h e he).2

end JsonSchema

theorem valid_kind_iff {k : Kind} {ks : List Keyword} (hk : k.keywords? = some ks) {v : Value}
    (hv : v.isJson = true) : (JsonSchema.keywords ks).Valid v ↔ k.admits v = true := by
  cases k <;> simp only [Kind.keywords?, Option.some.injEq, reduceCtorEq] at hk <;> subst hk <;>
    simp only [JsonSchema.valid_type_iff, Value.HasJsonType, Kind.admits]
  case integer => exact (Value.isInteger_iff hv).symm
  case number => exact (Value.isNumber_iff hv).symm
  case string => exact (Value.isSome_string?_iff hv).symm
  case boolean => rw [beq_iff_eq, Value.type_eq_bool_iff]
  case null => cases v <;> simp [Value.isNull]
  case any => simp [JsonSchema.valid_keywords_iff]
  case unknown => simp [JsonSchema.valid_keywords_iff]

/-- Whether a schema accepts the JSON values that are valid against what it is exported to. -/
def Schema.AgreesWithExport (s : Schema) : Prop :=
  ∀ ⦃j : JsonSchema⦄ ⦃v : Value⦄, s.ExportsTo j → v.isJson = true → (j.Valid v ↔ s.Accepts v)

theorem valid_part_iff {part : Option Schema} {j : Option JsonSchema}
    (h : Option.Rel Schema.ExportsTo part j) {x : Value} (hx : x.isJson = true)
    (hi : ∀ s ∈ part, s.AgreesWithExport) : (∀ k ∈ j, k.Valid x) ↔ ∀ s ∈ part, s.Accepts x := by
  cases h with
  | none => simp
  | some h => simpa using hi _ rfl h hx

/-! A schema agrees with its export if its children do with theirs. -/

section Forms

theorem agreesWithExport_object {fields : List (FieldName × Schema)}
    (hi : ∀ f ∈ fields, f.2.AgreesWithExport) : (Schema.object fields).AgreesWithExport := by
  intro j v h hv
  obtain ⟨ps, hps, rfl⟩ := Schema.exportsTo_object h
  rw [JsonSchema.valid_object_iff, Schema.Accepts]
  have value_isJson {es : Entries} (hv : (Value.dict es).isJson = true) {e : Value × Value} (he : e ∈ es) :
      e.2.isJson = true :=
    (Value.everywhere_of_mem_entries hv rfl he).2
  refine ⟨fun h => ?_, fun h => ?_⟩
  · obtain ⟨es, rfl, hp, hr⟩ := h
    refine ⟨es, rfl, fun f hf => ?_⟩
    obtain ⟨e, he, hn⟩ := hr f.1 (List.mem_map_of_mem hf)
    obtain ⟨q, hq, hqf, hx⟩ := exists_mem_of_forall₂ hps hf
    have hd := Value.areDistinct_of_isJson hv
    refine ⟨e.2, (KeyTable.get?_fieldName_eq_some_iff hd).2 ⟨e, he, hn, rfl⟩, ?_⟩
    rw [← hi f hf hx (value_isJson hv he)]
    exact hp e he q hq (hqf ▸ hn)
  · obtain ⟨es, he, h⟩ := h
    obtain rfl := Value.eq_dict_of_isJson hv he
    have hd := Value.areDistinct_of_isJson hv
    refine ⟨es, rfl, fun e he q hq hn => ?_, fun n hn => ?_⟩
    · obtain ⟨f, hf, hqf, hx⟩ := exists_mem_of_forall₂ hps.flip hq
      obtain ⟨x, hg, ha⟩ := h f hf
      have hg' := (KeyTable.get?_fieldName_eq_some_iff hd).2 ⟨e, he, hn, rfl⟩
      obtain rfl : x = e.2 := Option.some.inj (hg.symm.trans (hqf ▸ hg'))
      exact (hi f hf hx (value_isJson hv he)).2 ha
    · obtain ⟨f, hf, rfl⟩ := List.mem_map.1 hn
      obtain ⟨x, hg, -⟩ := h f hf
      obtain ⟨e, he, hn, -⟩ := (KeyTable.get?_fieldName_eq_some_iff hd).1 hg
      exact ⟨e, he, hn⟩

theorem agreesWithExport_array {item : Schema} (hi : item.AgreesWithExport) :
    (Schema.array item).AgreesWithExport := by
  intro j v h hv
  obtain ⟨k, hk, rfl⟩ := Schema.exportsTo_array h
  rw [JsonSchema.valid_array_iff, Schema.Accepts]
  have item_iff {xs : List Value} (hv : (Value.list xs).isJson = true) :
      (∀ x ∈ xs, k.Valid x) ↔ ∀ x ∈ xs, item.Accepts x :=
    forall₂_congr fun x hx => hi hk (Value.everywhere_of_mem_parts hv hx)
  refine ⟨fun h => ?_, fun h => ?_⟩
  · obtain ⟨xs, rfl, hx⟩ := h
    exact ⟨.stored xs, rfl, (item_iff hv).1 hx⟩
  · obtain ⟨e, he, hx⟩ := h
    obtain ⟨xs, rfl, rfl⟩ := Value.eq_list_of_isJson hv he
    exact ⟨xs, rfl, (item_iff hv).2 hx⟩

theorem agreesWithExport_tuple {items : List Schema} (hi : ∀ t ∈ items, t.AgreesWithExport) :
    (Schema.tuple items).AgreesWithExport := by
  intro j v h hv
  obtain ⟨ss, hss, rfl⟩ := Schema.exportsTo_tuple h
  have hl := hss.length_eq
  rw [hl, JsonSchema.valid_tuple_iff, Schema.Accepts]
  have valid_iff {xs : List Value} (hv : (Value.list xs).isJson = true) {i : Nat} (hi₁ : i < items.length)
      (hi₂ : i < ss.length) {x : Value} (hx : xs[i]? = some x) : ss[i].Valid x ↔ items[i].Accepts x :=
    hi _ (List.getElem_mem hi₁) (hss.get hi₁ hi₂) (Value.everywhere_of_mem_parts hv (List.mem_of_getElem? hx))
  refine ⟨fun h => ?_, fun h => ?_⟩
  · obtain ⟨xs, rfl, hn, hx⟩ := h
    refine ⟨.stored xs, rfl, hn.trans hl.symm, fun i hi x he => ?_⟩
    exact (valid_iff hv hi (hl ▸ hi) he).1 (hx i (hl ▸ hi) x he)
  · obtain ⟨e, he, hn, hx⟩ := h
    obtain ⟨xs, rfl, rfl⟩ := Value.eq_list_of_isJson hv he
    refine ⟨xs, rfl, hn.trans hl, fun i hi x he => ?_⟩
    exact (valid_iff hv (hl ▸ hi) hi he).2 (hx i (hl ▸ hi) x he)

theorem agreesWithExport_union {options : List Schema} (hi : ∀ t ∈ options, t.AgreesWithExport) :
    (Schema.union options).AgreesWithExport := by
  intro j v h hv
  obtain ⟨ss, hss, rfl⟩ := Schema.exportsTo_union h
  rw [JsonSchema.valid_anyOf_iff, Schema.Accepts]
  refine ⟨fun h => ?_, fun h => ?_⟩
  · obtain ⟨j, hj, hv'⟩ := h
    obtain ⟨t, ht, hx⟩ := exists_mem_of_forall₂ hss.flip hj
    exact ⟨t, ht, (hi t ht hx hv).1 hv'⟩
  · obtain ⟨t, ht, ha⟩ := h
    obtain ⟨j, hj, hx⟩ := exists_mem_of_forall₂ hss ht
    exact ⟨j, hj, (hi t ht hx hv).2 ha⟩

theorem agreesWithExport_optional {inner : Schema} (hi : inner.AgreesWithExport) :
    (Schema.optional inner).AgreesWithExport := by
  intro j v h hv
  obtain ⟨k, hk, rfl⟩ := Schema.exportsTo_optional h
  rw [JsonSchema.valid_anyOf_iff, Schema.Accepts, ← hi hk hv]
  simp only [List.mem_cons, List.not_mem_nil, or_false, exists_eq_or_imp, exists_eq_left,
    JsonSchema.valid_type_iff, Value.HasJsonType]
  exact or_comm

theorem agreesWithExport_table {key value : Option Schema} (hik : ∀ t ∈ key, t.AgreesWithExport)
    (hiv : ∀ t ∈ value, t.AgreesWithExport) : (Schema.table key value).AgreesWithExport := by
  intro j v h hv
  obtain ⟨names, values, hn, hv', rfl⟩ := Schema.exportsTo_table h
  rw [JsonSchema.valid_table_iff, Schema.Accepts]
  have entry_iff {es : Entries} (hv : (Value.dict es).isJson = true) {e : Value × Value} (he : e ∈ es) :
      ((∀ j ∈ names, j.Valid e.1) ∧ ∀ j ∈ values, j.Valid e.2) ↔
        (∃ k, PartYields key e.1 k ∧ k.isHashable = true) ∧ ∀ s ∈ value, s.Accepts e.2 := by
    obtain ⟨hk, hx⟩ := Value.everywhere_of_mem_entries hv rfl he
    have hpk := valid_part_iff hn hk hik
    obtain ⟨t, ht⟩ := Value.key_of_isJson hv he
    rw [hpk, valid_part_iff hv' hx hiv, ht, Schema.exists_partYields_str_iff]
  refine ⟨fun h => ?_, fun h => ?_⟩
  · obtain ⟨es, rfl, h⟩ := h
    exact ⟨es, rfl, .inr fun e he => (entry_iff hv he).1 (h e he)⟩
  · obtain ⟨es, he, h⟩ := h
    obtain rfl := Value.eq_dict_of_isJson hv he
    refine ⟨es, rfl, fun e he => ?_⟩
    rcases h with ⟨rfl, rfl⟩ | h
    · cases hn
      cases hv'
      simp
    · exact (entry_iff hv he).2 (h e he)

end Forms

theorem agreesWithExport {s : Schema} (hs : s.hasPlainLiterals = true) : s.AgreesWithExport := by
  have plain {s t : Schema} (hs : s.hasPlainLiterals = true) (ht : t ∈ s.parts) : t.hasPlainLiterals = true :=
    Schema.everywhere_of_mem_parts hs ht
  induction s using Schema.induction with
  | leaf kind =>
    intro j v h hv
    obtain ⟨ks, hk, rfl⟩ := Schema.exportsTo_leaf h
    rw [valid_kind_iff hk hv, Schema.Accepts]
  | literal expected =>
    intro j v h hv
    have hl : expected.isPlain = true := Schema.here_of_everywhere hs
    rw [Schema.exportsTo_literal h, Schema.Accepts, Value.equal?_iff_of_isPlain hl]
    simp only [JsonSchema.Valid, List.mem_singleton, forall_eq, Keyword.Holds]
    exact Value.jsonEqual_iff_of_isPlain hv hl
  | custom own =>
    intro j v h hv
    exact absurd h Schema.not_exportsTo_custom
  | object fields ih =>
    exact agreesWithExport_object fun f hf => ih f hf (plain hs (Schema.field_mem_parts hf))
  | array item ih => exact agreesWithExport_array (ih (plain hs Schema.item_mem_parts))
  | tuple items ih => exact agreesWithExport_tuple fun t ht => ih t ht (plain hs ht)
  | union options ih => exact agreesWithExport_union fun t ht => ih t ht (plain hs ht)
  | optional inner ih => exact agreesWithExport_optional (ih (plain hs Schema.inner_mem_parts))
  | table key value ihk ihv =>
    exact agreesWithExport_table (fun t ht => ihk t ht (plain hs (Schema.key_mem_parts ht)))
      fun t ht => ihv t ht (plain hs (Schema.value_mem_parts ht))

/-! The document around the exported keywords, which only says what it is. -/

theorem Keyword.holds_congr {ks ks' : List Keyword}
    (hn : JsonSchema.declaredNames ks = JsonSchema.declaredNames ks')
    (hc : JsonSchema.leadingCount ks = JsonSchema.leadingCount ks') (k : Keyword) (v : Value) :
    k.Holds ks v ↔ k.Holds ks' v := by
  cases k <;> simp only [Holds, hn, hc]

theorem JsonSchema.valid_dialect_cons_iff {uri : String} {ks : List Keyword} {v : Value} :
    (keywords (.dialect uri :: ks)).Valid v ↔ (keywords ks).Valid v := by
  rw [valid_keywords_iff, valid_keywords_iff, List.forall_mem_cons, Keyword.Holds, true_and]
  have hn : declaredNames (.dialect uri :: ks) = declaredNames ks := rfl
  have hc : leadingCount (.dialect uri :: ks) = leadingCount ks := rfl
  exact forall₂_congr fun k _ => Keyword.holds_congr hn hc k v

theorem JsonSchema.valid_title_cons_iff {title : Value} {ks : List Keyword} {v : Value} :
    (keywords (.title title :: ks)).Valid v ↔ (keywords ks).Valid v := by
  rw [valid_keywords_iff, valid_keywords_iff, List.forall_mem_cons, Keyword.Holds, true_and]
  have hn : declaredNames (.title title :: ks) = declaredNames ks := rfl
  have hc : leadingCount (.title title :: ks) = leadingCount ks := rfl
  exact forall₂_congr fun k _ => Keyword.holds_congr hn hc k v

theorem Schema.document_eq_ok_iff {objection : Objection} {s : Schema} {title : Option Value} {j : JsonSchema} :
    s.document objection title = .ok j ↔
      ∃ ks, s.keywords "" = .ok ks ∧ j = .keywords (JsonSchema.head title ++ ks) ∧ objection j = none := by
  rw [document, bind_eq_ok]
  refine exists_congr fun ks => and_congr_right fun _ => ⟨fun h => ?_, ?_⟩
  · dsimp only at h
    split at h
    · next ho => exact pure_eq_ok.1 h ▸ ⟨rfl, ho⟩
    · cases h
  · rintro ⟨rfl, ho⟩
    simp only [ho]
    rfl

theorem valid_document_iff_accepts {objection : Objection} {s : Schema} {title : Option Value} {j : JsonSchema}
    {v : Value} (hj : s.document objection title = .ok j) (hs : s.hasPlainLiterals = true)
    (hv : v.isJson = true) : j.Valid v ↔ s.Accepts v := by
  obtain ⟨ks, hk, rfl, -⟩ := Schema.document_eq_ok_iff.1 hj
  rw [← agreesWithExport hs ⟨_, ks, hk, rfl⟩ hv, JsonSchema.head, List.cons_append,
    JsonSchema.valid_dialect_cons_iff]
  cases title with
  | none => rfl
  | some t => exact JsonSchema.valid_title_cons_iff

theorem Schema.isQuiet_of_hasPlainLiterals {s : Schema} (h : s.hasPlainLiterals = true) :
    s.isQuiet = true := by
  refine everywhere_mono (fun t ht => ?_) h
  cases t with
  | literal expected => exact Value.isQuiet_of_isPlain ht
  | _ => rfl

theorem Schema.isShort_of_hasPlainLiterals {s : Schema} (h : s.hasPlainLiterals = true) :
    s.isShort = true := by
  refine everywhere_mono (fun t ht => ?_) h
  cases t with
  | literal expected => rcases Value.isPlain_iff.1 ht with ⟨s, rfl⟩ | ⟨b, rfl⟩ | rfl <;> rfl
  | _ => rfl

theorem Value.isMeasurable_of_isJson {v : Value} (h : v.isJson = true) : v.isMeasurable = true := by
  refine everywhere_mono (fun x hx => ?_) h
  cases x with
  | range start stop step => exact absurd hx (by simp)
  | _ => rfl

/-- Of the JSON values validation accepts only those that are valid against the exported document, and it accepts all
of them, unless it breaks off because of an integer with too many digits. -/
theorem validate_exported {objection : Objection} {s : Schema} {title : Option Value} {j : JsonSchema} {v : Value}
    {c : Settings} (hj : s.document objection title = .ok j) (hs : s.hasPlainLiterals = true)
    (hv : v.isJson = true) (hd : (s.height : Int) ≤ c.depthLimit) :
    ((s.validate c v).isAccepted = true → j.Valid v) ∧
      (j.Valid v → (s.validate c v).isAccepted = true ∨ s.validate c v = .broken .unwritable) ∧
      (v.isShort = true → ((s.validate c v).isAccepted = true ↔ j.Valid v)) := by
  rw [valid_document_iff_accepts hj hs hv]
  have hd : ((0 : Nat) + s.height : Int) ≤ c.depthLimit := by simpa using hd
  have hb {b : Breakdown} : s.validate c v = .broken b → b = .unwritable :=
    Schema.eq_unwritable_of_broken (Schema.isQuiet_of_hasPlainLiterals hs) (Value.isQuiet_of_isJson hv)
      (Value.isMeasurable_of_isJson hv)
  refine ⟨Schema.accepts_of_isAccepted hd, fun h => ?_, fun hvs => Schema.isAccepted_check_iff hd fun b h => ?_⟩
  · refine (Schema.isAccepted_or_broken hd h).imp_right fun ⟨b, h⟩ => ?_
    rwa [← hb h]
  · obtain rfl := hb h
    exact Schema.check_ne_unwritable (Schema.isShort_of_hasPlainLiterals hs) hvs h

theorem valid_of_validate_exported :
    let s : Schema := .object [(.text "size", .tuple [.leaf .integer, .optional (.leaf .number)]),
      (.kind .string, .table (some (.leaf .string))
        (some (.union [.literal (.str "on"), .array (.leaf .any)])))]
    let v : Value := .dict [
      (.str "string", .dict [(.str "a/b", .list [.null, .bool true]), (.str "", .str "on")]),
      (.str "extra", .null),
      (.str "size", .list [.float (.finite false 6755399441055744 (-51)), .null])]
    (s.validate { depthLimit := 4 } v).isAccepted = true ∧ v.isShort = true ∧
      ∃ j, s.document JsonSchema.titleObjection (some (.str "sizes")) = .ok j ∧ j.Valid v := by
  intro s v
  have h : (s.validate { depthLimit := 4 } v).isAccepted = true := by decide
  have hj : s.document JsonSchema.titleObjection (some (.str "sizes")) = .ok _ := rfl
  exact ⟨h, by decide, _, hj, (validate_exported hj (by decide) (by decide) (by decide)).1 h⟩

/-- A long integer is valid, but the option before the one that takes it would have to show it. -/
theorem validate_exported_long_integer :
    let s : Schema := .union [.leaf .string, .leaf .integer]
    let v : Value := .int (10 ^ Number.digitLimit)
    v.isJson = true ∧ s.validate {} v = .broken .unwritable ∧
      ∃ j, s.document JsonSchema.titleObjection none = .ok j ∧ j.Valid v := by
  intro s v
  have hv : v.isJson = true := rfl
  have hj : s.document JsonSchema.titleObjection none = .ok _ := rfl
  refine ⟨hv, Schema.validate_union_long (by simp), _, hj, ?_⟩
  rw [valid_document_iff_accepts hj (by decide) hv, Schema.Accepts]
  exact ⟨.leaf .integer, by simp, by rw [Schema.Accepts]; rfl⟩

end Conform
