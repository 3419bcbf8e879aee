import Conform.Value.Equality
import Conform.Value.Parts

/-! The values in a value: elements of sequences, members of sets, keys and values of mappings. What holds
everywhere in a value holds of it and of all the values in it. -/

namespace Conform.Value

theorem everywhereIn_iff (p : Value → Bool) (xs : List Value) :
    everywhereIn p xs = true ↔ ∀ x ∈ xs, x.everywhere p = true := by
  induction xs with
  | nil => simp [everywhereIn]
  | cons x xs ih => simp [everywhereIn, ih]

theorem everywhereAmong_iff (p : Value → Bool) (es : List (Value × Value)) :
    everywhereAmong p es = true ↔
      ∀ e ∈ es, e.1.everywhere p = true ∧ e.2.everywhere p = true := by
  induction es with
  | nil => simp [everywhereAmong]
  | cons e es ih => simp [everywhereAmong, ih]

theorem everywhere_iff (p : Value → Bool) (v : Value) :
    v.everywhere p = true ↔ p v = true ∧ ∀ x ∈ v.parts, x.everywhere p = true := by
  cases v with
  | seq form xs => simp [everywhere, parts, everywhereIn_iff]
  | set frozen xs => simp [everywhere, parts, everywhereIn_iff]
  | map form es =>
    simp only [everywhere, parts, Bool.and_eq_true, everywhereAmong_iff, List.mem_append, List.mem_map]
    refine and_congr_right fun _ => ⟨?_, ?_⟩
    · rintro h x (⟨e, he, rfl⟩ | ⟨e, he, rfl⟩)
      · exact (h e he).1
      · exact (h e he).2
    · intro h e he
      exact ⟨h e.1 (.inl ⟨e, he, rfl⟩), h e.2 (.inr ⟨e, he, rfl⟩)⟩
  | _ => simp [everywhere, parts]

theorem here_of_everywhere {p : Value → Bool} {v : Value} (h : v.everywhere p = true) : p v = true :=
  ((everywhere_iff p v).1 h).1

theorem everywhere_of_mem_parts {p : Value → Bool} {v x : Value} (h : v.everywhere p = true)
    (hx : x ∈ v.parts) : x.everywhere p = true :=
  ((everywhere_iff p v).1 h).2 x hx

theorem sizeOf_lt_of_mem_parts {v x : Value} (h : x ∈ v.parts) : sizeOf x < sizeOf v := by
  cases v with
  | seq form xs =>
    have := List.sizeOf_lt_of_mem (show x ∈ xs from h)
    simp only [seq.sizeOf_spec]
    omega
  | set frozen xs =>
    have := List.sizeOf_lt_of_mem (show x ∈ xs from h)
    simp only [set.sizeOf_spec]
    omega
  | map form es =>
    have size_lt {e : Value × Value} (he : e ∈ es) : sizeOf e.1 + sizeOf e.2 < sizeOf es := by
      have := List.sizeOf_lt_of_mem he
      cases e
      simp only [Prod.mk.sizeOf_spec] at this
      simp only
      omega
    simp only [map.sizeOf_spec]
    rcases List.mem_append.1 h with h | h
    · obtain ⟨e, he, rfl⟩ := List.mem_map.1 h
      have := size_lt he
      omega
    · obtain ⟨e, he, rfl⟩ := List.mem_map.1 h
      have := size_lt he
      omega
  | _ => simp [parts] at h

@[elab_as_elim]
theorem parts_induction {motive : Value → Prop}
    (step : ∀ v, (∀ x ∈ v.parts, motive x) → motive v) (v : Value) : motive v :=
  step v fun x _ => parts_induction step x
termination_by sizeOf v
decreasing_by exact sizeOf_lt_of_mem_parts ‹_›

theorem everywhere_mono {p q : Value → Bool} (hpq : ∀ x, p x = true → q x = true) {v : Value}
    (h : v.everywhere p = true) : v.everywhere q = true := by
  induction v using parts_induction with
  | step v ih =>
    rw [everywhere_iff] at h ⊢
    exact ⟨hpq v h.1, fun x hx => ih x hx (h.2 x hx)⟩

theorem isNull_iff {v : Value} : v.isNull = true ↔ v = .null := by
  cases v <;> simp [isNull]

/-! Elements and entries are parts. -/

theorem exists_eq_map {v : Value} {es : Entries} (h : v.entries? = some es) : ∃ form, v = .map form es := by
  cases v with
  | map form fs => exact ⟨form, congrArg _ (Option.some.inj h)⟩
  | _ => simp [entries?] at h

theorem mem_parts_of_entries? {v : Value} {es : Entries} (h : v.entries? = some es) {e : Value × Value}
    (he : e ∈ es) : e.1 ∈ v.parts ∧ e.2 ∈ v.parts := by
  obtain ⟨form, rfl⟩ := exists_eq_map h
  simp only [parts, List.mem_append, List.mem_map]
  exact ⟨.inl ⟨e, he, rfl⟩, .inr ⟨e, he, rfl⟩⟩

theorem mem_of_get? {α : Type} {t : KeyTable α} {key : Value} {a : α} (h : t.get? key = some a) :
    ∃ e ∈ t, key.same e.1 = true ∧ e.2 = a := by
  simp only [KeyTable.get?, Option.map_eq_some_iff] at h
  obtain ⟨e, he, rfl⟩ := h
  exact ⟨e, List.mem_of_find?_eq_some he, by simpa using List.find?_some he, rfl⟩

theorem everywhere_of_mem_entries {p : Value → Bool} {v : Value} {es : Entries}
    (h : v.everywhere p = true) (he : v.entries? = some es) {e : Value × Value} (hm : e ∈ es) :
    e.1.everywhere p = true ∧ e.2.everywhere p = true :=
  have hp := mem_parts_of_entries? he hm
  ⟨everywhere_of_mem_parts h hp.1, everywhere_of_mem_parts h hp.2⟩

theorem everywhere_of_get? {p : Value → Bool} {v : Value} {es : Entries} (h : v.everywhere p = true)
    (he : v.entries? = some es) {key x : Value} (hx : es.get? key = some x) : x.everywhere p = true := by
  obtain ⟨e, hm, -, rfl⟩ := mem_of_get? hx
  exact (everywhere_of_mem_entries h he hm).2

theorem mem_spacedList {step : Int} {n : Nat} {start : Int} {x : Value}
    (h : x ∈ Elements.spacedList step start n) : ∃ k : Nat, k < n ∧ x = .int (start + k * step) := by
  induction n generalizing start with
  | zero => simp [Elements.spacedList] at h
  | succ n ih =>
    simp only [Elements.spacedList, List.mem_cons] at h
    rcases h with rfl | h
    · exact ⟨0, by omega, by simp⟩
    · obtain ⟨k, hk, rfl⟩ := ih h
      exact ⟨k + 1, by omega, by grind⟩

/-- The terms of a progression are not parts, but they are numbers without parts. -/
theorem everywhere_of_mem_elements {p : Value → Bool} {v : Value} {e : Elements}
    (h : v.everywhere p = true) (hp : ∀ n, p (.int n) = true) (he : v.elements? = some e) :
    ∀ x ∈ e.toList, x.everywhere p = true := by
  cases v with
  | seq form xs =>
    simp only [elements?, Option.some.injEq] at he
    subst he
    exact fun x hx => everywhere_of_mem_parts h hx
  | range start stop step =>
    simp only [elements?, Option.some.injEq] at he
    subst he
    intro x hx
    obtain ⟨k, -, rfl⟩ := mem_spacedList hx
    exact hp _
  | _ => simp [elements?] at he

end Conform.Value
