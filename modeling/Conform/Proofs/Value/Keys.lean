import Conform.Proofs.Basic
import Conform.Proofs.Value.Parts
import Conform.Schema.Basic

/-! Keys of mappings. A key that is a string is the same as any other with its characters and as nothing
else. A mapping holds each of its keys once; such entries are kept as they are when they are put one by
one into an empty table. -/

namespace Conform

/-- The characters of a field name, by which it is found in a mapping. -/
def FieldName.string : FieldName → String
  | text s => s
  | kind k => k.name

namespace Value

theorem eq_str_of_type {v : Value} (h : v.type = .str) : ∃ s, v = .str s := by
  unfold type at h
  split at h <;> simp_all

theorem eq_null_of_type {v : Value} (h : v.type = .null) : v = .null := by
  unfold type at h
  split at h <;> simp_all

theorem string?_fieldName (n : FieldName) : n.value.string? = some n.string := by
  cases n <;> rfl

theorem same_of_string? {v w : Value} {s : String} (hv : v.string? = some s) :
    v.same w = (w.string? == some s) := by
  cases v <;> simp only [string?, Option.some.injEq, reduceCtorEq] at hv <;> subst hv <;> rfl

/-- What is no string is not the same as one. -/
theorem same_eq_false_of_string? {v w : Value} {s : String} (hv : v.string? = none)
    (hw : w.string? = some s) : v.same w = false := by
  cases w <;> simp only [string?, Option.some.injEq, reduceCtorEq] at hw
  all_goals
    rw [same.eq_def]
    split <;> simp_all [string?, amount?]

theorem same_fieldName_right (v : Value) (n : FieldName) :
    v.same n.value = (v.string? == some n.string) := by
  cases hv : v.string? with
  | none => simp [same_eq_false_of_string? hv (string?_fieldName n)]
  | some s =>
    rw [same_of_string? hv, string?_fieldName]
    exact BEq.comm

theorem same_fieldName_left (n : FieldName) (v : Value) :
    n.value.same v = (v.string? == some n.string) :=
  same_of_string? (string?_fieldName n)

/-- Whether no two of some keys are the same, compared either way. -/
def areDistinct : List Value → Bool
  | [] => true
  | k :: ks => ks.all (fun l => !k.same l && !l.same k) && areDistinct ks

theorem areDistinct_iff {ks : List Value} :
    areDistinct ks = true ↔ ks.Pairwise fun k l => k.same l = false ∧ l.same k = false := by
  induction ks with
  | nil => simp [areDistinct]
  | cons k ks ih => simp [areDistinct, ih]

/-- Whether every mapping in a value holds each of its keys once. -/
def hasDistinctKeys (v : Value) : Bool :=
  v.everywhere fun
    | .map _ es => areDistinct (es.map (·.1))
    | _ => true

theorem areDistinct_of_entries? {v : Value} {es : Entries} (hv : v.hasDistinctKeys = true)
    (he : v.entries? = some es) : areDistinct (es.map (·.1)) = true := by
  obtain ⟨form, rfl⟩ := exists_eq_map he
  exact here_of_everywhere hv

end Value

namespace KeyTable

variable {α : Type}

theorem put_of_forall_ne {t : KeyTable α} {key : Value} {a : α}
    (h : ∀ e ∈ t, key.same e.1 = false) : t.put key a = t ++ [(key, a)] := by
  induction t with
  | nil => rfl
  | cons e t ih =>
    rw [List.forall_mem_cons] at h
    simp [put, h.1, ih h.2]

theorem ofList_of_distinct {ps : KeyTable α} (h : Value.areDistinct (ps.map (·.1)) = true) :
    ofList ps = ps := by
  rw [Value.areDistinct_iff, List.pairwise_map] at h
  exact foldl_eq_append (fun t p => put_of_forall_ne) (h.imp And.right)

/-- A key that is the same as itself is found, where each key occurs once. -/
theorem get?_of_mem {t : KeyTable α} (hd : Value.areDistinct (t.map (·.1)) = true) {e : Value × α}
    (he : e ∈ t) (hs : e.1.same e.1 = true) : t.get? e.1 = some e.2 := by
  obtain ⟨before, after, rfl⟩ := List.append_of_mem he
  rw [Value.areDistinct_iff, List.pairwise_map, List.pairwise_append] at hd
  have hb : ∀ a ∈ before, (!e.1.same a.1) = true := fun a ha => by
    simpa using (hd.2.2 a ha e List.mem_cons_self).2
  have hf : (before ++ e :: after).find? (fun a => e.1.same a.1) = some e :=
    List.find?_eq_some_iff_append.2 ⟨hs, before, after, rfl, hb⟩
  rw [get?, hf, Option.map_some]

theorem get?_fieldName (t : KeyTable α) (n : FieldName) :
    t.get? n.value = (t.find? fun e => e.1.string? == some n.string).map (·.2) := by
  rw [get?]
  simp only [Value.same_fieldName_left]

/-- Where each key occurs once, what is found under a name is what any entry of that name holds. -/
theorem get?_fieldName_eq_some_iff {t : KeyTable α} (hd : Value.areDistinct (t.map (·.1)) = true)
    {n : FieldName} {a : α} :
    t.get? n.value = some a ↔ ∃ e ∈ t, e.1.string? = some n.string ∧ e.2 = a := by
  rw [Value.areDistinct_iff, List.pairwise_map] at hd
  rw [get?_fieldName, map_find?_eq_some_iff]
  · simp only [beq_iff_eq]
  · refine hd.imp fun {e f} h hs => ?_
    rw [beq_iff_eq] at hs
    rw [← h.1, Value.same_of_string? hs]

end KeyTable

end Conform
