import Conform.Proofs.Basic
import Conform.Proofs.Value.Parts
import Conform.Schema.Basic

/-! Schemas as trees. A leaf, a literal or a custom schema has height 0, any other schema one more than the
highest schema in it. What holds everywhere in a schema holds of it and of all the schemas in it. -/

namespace Conform.Schema

def parts : Schema → List Schema
  | .object fields => fields.map (·.2)
  | .array item => [item]
  | .tuple items => items
  | .union options => options
  | .optional inner => [inner]
  | .table key value => key.toList ++ value.toList
  | _ => []

theorem field_mem_parts {fields : List (FieldName × Schema)} {f : FieldName × Schema} (h : f ∈ fields) :
    f.2 ∈ (object fields).parts :=
  List.mem_map_of_mem h

theorem item_mem_parts {item : Schema} : item ∈ (array item).parts := List.mem_singleton.2 rfl

theorem inner_mem_parts {inner : Schema} : inner ∈ (optional inner).parts := List.mem_singleton.2 rfl

theorem key_mem_parts {key value : Option Schema} {s : Schema} (h : s ∈ key) :
    s ∈ (table key value).parts :=
  List.mem_append_left _ (Option.mem_toList.2 h)

theorem value_mem_parts {key value : Option Schema} {s : Schema} (h : s ∈ value) :
    s ∈ (table key value).parts :=
  List.mem_append_right _ (Option.mem_toList.2 h)

theorem sizeOf_lt_of_mem_parts {s t : Schema} (h : t ∈ s.parts) : sizeOf t < sizeOf s := by
  cases s with
  | object fields =>
    obtain ⟨f, hf, rfl⟩ := List.mem_map.1 h
    have := List.sizeOf_lt_of_mem hf
    have := sizeOf_snd_lt f
    simp only [object.sizeOf_spec]
    omega
  | array item =>
    rw [List.mem_singleton.1 h]
    simp
  | tuple items =>
    have := List.sizeOf_lt_of_mem (show t ∈ items from h)
    simp only [tuple.sizeOf_spec]
    omega
  | union options =>
    have := List.sizeOf_lt_of_mem (show t ∈ options from h)
    simp only [union.sizeOf_spec]
    omega
  | optional inner =>
    rw [List.mem_singleton.1 h]
    simp
  | table key value =>
    rcases List.mem_append.1 h with h | h
    · rw [Option.mem_toList.1 h]
      simp
      omega
    · rw [Option.mem_toList.1 h]
      simp
      omega
  | _ => simp [parts] at h

@[elab_as_elim]
theorem parts_induction {motive : Schema → Prop}
    (step : ∀ s, (∀ t ∈ s.parts, motive t) → motive s) (s : Schema) : motive s :=
  step s fun t _ => parts_induction step t
termination_by sizeOf s
decreasing_by exact sizeOf_lt_of_mem_parts ‹_›

/-- Induction with a case for each form of schema. -/
@[elab_as_elim]
theorem induction {motive : Schema → Prop} (leaf : ∀ kind, motive (.leaf kind))
    (object : ∀ fields, (∀ f ∈ fields, motive f.2) → motive (.object fields))
    (array : ∀ item, motive item → motive (.array item))
    (tuple : ∀ items, (∀ t ∈ items, motive t) → motive (.tuple items))
    (union : ∀ options, (∀ t ∈ options, motive t) → motive (.union options))
    (optional : ∀ inner, motive inner → motive (.optional inner))
    (table : ∀ key value, (∀ t ∈ key, motive t) → (∀ t ∈ value, motive t) → motive (.table key value))
    (literal : ∀ expected, motive (.literal expected))
    (custom : ∀ own, motive (.custom own)) (s : Schema) : motive s := by
  refine parts_induction (fun s ih => ?_) s
  cases s with
  | leaf kind => exact leaf kind
  | object fields => exact object fields fun f hf => ih f.2 (field_mem_parts hf)
  | array item => exact array item (ih item item_mem_parts)
  | tuple items => exact tuple items ih
  | union options => exact union options ih
  | optional inner => exact optional inner (ih inner inner_mem_parts)
  | table key value =>
    exact table key value (fun t ht => ih t (key_mem_parts ht)) fun t ht => ih t (value_mem_parts ht)
  | literal expected => exact literal expected
  | custom own => exact custom own

mutual

def everywhere (p : Schema → Bool) : Schema → Bool
  | .object fields => p (.object fields) && everywhereAmong p fields
  | .array item => p (.array item) && item.everywhere p
  | .tuple items => p (.tuple items) && everywhereIn p items
  | .union options => p (.union options) && everywhereIn p options
  | .optional inner => p (.optional inner) && inner.everywhere p
  | .table key value => p (.table key value) && (everywhereAt p key && everywhereAt p value)
  | .leaf kind => p (.leaf kind)
  | .literal expected => p (.literal expected)
  | .custom own => p (.custom own)
termination_by structural s => s

def everywhereAmong (p : Schema → Bool) : List (FieldName × Schema) → Bool
  | [] => true
  | (_, s) :: fields => s.everywhere p && everywhereAmong p fields
termination_by structural fields => fields

def everywhereIn (p : Schema → Bool) : List Schema → Bool
  | [] => true
  | s :: ss => s.everywhere p && everywhereIn p ss
termination_by structural ss => ss

def everywhereAt (p : Schema → Bool) : Option Schema → Bool
  | none => true
  | some s => s.everywhere p
termination_by structural part => part

end

theorem everywhereAmong_iff (p : Schema → Bool) (fields : List (FieldName × Schema)) :
    everywhereAmong p fields = true ↔ ∀ f ∈ fields, f.2.everywhere p = true := by
  induction fields with
  | nil => simp [everywhereAmong]
  | cons f fields ih => simp [everywhereAmong, ih]

theorem everywhereIn_iff (p : Schema → Bool) (ss : List Schema) :
    everywhereIn p ss = true ↔ ∀ s ∈ ss, s.everywhere p = true := by
  induction ss with
  | nil => simp [everywhereIn]
  | cons s ss ih => simp [everywhereIn, ih]

theorem everywhereAt_iff (p : Schema → Bool) (part : Option Schema) :
    everywhereAt p part = true ↔ ∀ s ∈ part, s.everywhere p = true := by
  cases part <;> simp [everywhereAt]

theorem everywhere_iff (p : Schema → Bool) (s : Schema) :
    s.everywhere p = true ↔ p s = true ∧ ∀ t ∈ s.parts, t.everywhere p = true := by
  cases s with
  | object fields =>
    rw [everywhere, Bool.and_eq_true, everywhereAmong_iff, parts, List.forall_mem_map]
  | array item => simp [everywhere, parts]
  | tuple items => simp [everywhere, parts, everywhereIn_iff]
  | union options => simp [everywhere, parts, everywhereIn_iff]
  | optional inner => simp [everywhere, parts]
  | table key value =>
    simp [everywhere, parts, everywhereAt_iff, or_imp, forall_and]
  | _ => simp [everywhere, parts]

theorem here_of_everywhere {p : Schema → Bool} {s : Schema} (h : s.everywhere p = true) : p s = true :=
  ((everywhere_iff p s).1 h).1

theorem everywhere_of_mem_parts {p : Schema → Bool} {s t : Schema} (h : s.everywhere p = true)
    (ht : t ∈ s.parts) : t.everywhere p = true :=
  ((everywhere_iff p s).1 h).2 t ht

theorem everywhere_mono {p q : Schema → Bool} (hpq : ∀ s, p s = true → q s = true) {s : Schema}
    (h : s.everywhere p = true) : s.everywhere q = true := by
  induction s using parts_induction with
  | step s ih =>
    rw [everywhere_iff] at h ⊢
    exact ⟨hpq s h.1, fun t ht => ih t ht (h.2 t ht)⟩

/-- Whether a property holds of all leaves of the user's own in a schema. -/
def EachOwn (P : Leaf → Prop) : Schema → Prop
  | .custom own => P own
  | .object fields => ∀ f ∈ fields, f.2.EachOwn P
  | .array item => item.EachOwn P
  | .tuple items => ∀ t ∈ items, t.EachOwn P
  | .union options => ∀ t ∈ options, t.EachOwn P
  | .optional inner => inner.EachOwn P
  | .table key value => (∀ t ∈ key, t.EachOwn P) ∧ ∀ t ∈ value, t.EachOwn P
  | .leaf _ => True
  | .literal _ => True
termination_by s => sizeOf s
decreasing_by
  all_goals apply sizeOf_lt_of_mem_parts
  · exact field_mem_parts ‹_›
  · exact item_mem_parts
  · exact ‹_›
  · exact ‹_›
  · exact inner_mem_parts
  · exact key_mem_parts ‹_›
  · exact value_mem_parts ‹_›

theorem EachOwn.of_mem_parts {P : Leaf → Prop} {s t : Schema} (h : s.EachOwn P) (ht : t ∈ s.parts) :
    t.EachOwn P := by
  cases s with
  | object fields =>
    rw [EachOwn] at h
    obtain ⟨f, hf, rfl⟩ := List.mem_map.1 ht
    exact h f hf
  | array item =>
    rw [EachOwn] at h
    rwa [List.mem_singleton.1 ht]
  | tuple items =>
    rw [EachOwn] at h
    exact h t ht
  | union options =>
    rw [EachOwn] at h
    exact h t ht
  | optional inner =>
    rw [EachOwn] at h
    rwa [List.mem_singleton.1 ht]
  | table key value =>
    rw [EachOwn] at h
    rcases List.mem_append.1 ht with ht | ht
    · exact h.1 t (Option.mem_toList.1 ht)
    · exact h.2 t (Option.mem_toList.1 ht)
  | _ => simp [parts] at ht

mutual

def height : Schema → Nat
  | .object fields => fieldsHeight fields + 1
  | .array item => item.height + 1
  | .tuple items => heightOf items + 1
  | .union options => heightOf options + 1
  | .optional inner => inner.height + 1
  | .table key value => max (partHeight key) (partHeight value) + 1
  | _ => 0
termination_by structural s => s

def fieldsHeight : List (FieldName × Schema) → Nat
  | [] => 0
  | (_, s) :: fields => max s.height (fieldsHeight fields)
termination_by structural fields => fields

def heightOf : List Schema → Nat
  | [] => 0
  | s :: ss => max s.height (heightOf ss)
termination_by structural ss => ss

def partHeight : Option Schema → Nat
  | none => 0
  | some s => s.height
termination_by structural part => part

end

theorem height_le_fieldsHeight {fields : List (FieldName × Schema)} {f : FieldName × Schema}
    (h : f ∈ fields) : f.2.height ≤ fieldsHeight fields := by
  induction fields with
  | nil => simp at h
  | cons g fields ih =>
    simp only [fieldsHeight]
    rcases List.mem_cons.1 h with rfl | h
    · omega
    · have := ih h
      omega

theorem height_le_heightOf {ss : List Schema} {s : Schema} (h : s ∈ ss) :
    s.height ≤ heightOf ss := by
  induction ss with
  | nil => simp at h
  | cons t ss ih =>
    simp only [heightOf]
    rcases List.mem_cons.1 h with rfl | h
    · omega
    · have := ih h
      omega

theorem height_lt_of_mem_parts {s t : Schema} (h : t ∈ s.parts) : t.height < s.height := by
  cases s with
  | object fields =>
    obtain ⟨f, hf, rfl⟩ := List.mem_map.1 h
    exact Nat.lt_succ_of_le (height_le_fieldsHeight hf)
  | array item =>
    rw [List.mem_singleton.1 h]
    exact Nat.lt_succ_self _
  | tuple items => exact Nat.lt_succ_of_le (height_le_heightOf h)
  | union options => exact Nat.lt_succ_of_le (height_le_heightOf h)
  | optional inner =>
    rw [List.mem_singleton.1 h]
    exact Nat.lt_succ_self _
  | table key value =>
    rcases List.mem_append.1 h with h | h
    · rw [Option.mem_toList.1 h]
      simp only [height, partHeight]
      omega
    · rw [Option.mem_toList.1 h]
      simp only [height, partHeight]
      omega
  | _ => simp [parts] at h

end Conform.Schema
