import Conform.Proofs.Basic
import Conform.Proofs.Value.Equality
import Conform.Proofs.Value.Keys
import Conform.Schema.Check

/-! Values that differ in the order of entries. A dictionary or a view of one keeps its entries in the order
in which they came; an ordered dictionary is left as it is, since its order counts when two of them are
compared. Keys hold no dictionary, so they stay. A literal cannot tell such values apart: its own value is the
second one of the comparison, where entries are looked up by key. -/

namespace Conform.Value

/-- A value and the same with the entries of its dictionaries in another order. -/
inductive Reordered : Value → Value → Prop
  | same (v : Value) : Reordered v v
  | sequence {form : SeqForm} {xs ys : List Value} : List.Forall₂ Reordered xs ys →
      Reordered (.seq form xs) (.seq form ys)
  | mapping {form : MapForm} {es es' fs : Entries} : es.Perm es' → (form = .ordered → es' = es) →
      es'.map (·.1) = fs.map (·.1) → List.Forall₂ Reordered (es'.map (·.2)) (fs.map (·.2)) →
      Reordered (.map form es) (.map form fs)

namespace Reordered

variable {v v' w : Value}

theorem type_eq (h : v.Reordered v') : v'.type = v.type := by
  cases h with
  | same => rfl
  | @sequence form => cases form <;> rfl
  | @mapping form => cases form <;> rfl

theorem isNull_eq (h : v.Reordered v') : v'.isNull = v.isNull := by
  cases h <;> rfl

theorem isHashable_eq (h : v.Reordered v') : v'.isHashable = v.isHashable := by
  cases h <;> rfl

theorem isSignaling_eq (h : v.Reordered v') : v'.isSignaling = v.isSignaling := by
  cases h <;> rfl

theorem admits_eq (kind : Kind) (h : v.Reordered v') : kind.admits v' = kind.admits v := by
  have ht := h.type_eq
  cases h with
  | same => rfl
  | sequence => cases kind <;> simp only [Kind.admits, ht] <;> rfl
  | mapping => cases kind <;> simp only [Kind.admits, ht] <;> rfl

/-! Elements and entries. -/

theorem elements? (h : v.Reordered v') :
    Option.Rel (fun e e' => e'.hasLength = e.hasLength ∧ List.Forall₂ Reordered e.toList e'.toList)
      v.elements? v'.elements? := by
  cases h with
  | same =>
    cases v.elements? with
    | none => exact .none
    | some e => exact .some ⟨rfl, List.forall₂_same.2 fun x _ => .same x⟩
  | sequence hx => exact .some ⟨rfl, hx⟩
  | mapping => exact .none

/-- Entries in another order, with their values reordered in turn. -/
def OfEntries (es fs : Entries) : Prop :=
  ∃ es', es.Perm es' ∧ List.Forall₂ (fun e f => e.1 = f.1 ∧ e.2.Reordered f.2) es' fs

theorem entries? (h : v.Reordered v') : Option.Rel OfEntries v.entries? v'.entries? := by
  cases h with
  | same =>
    cases v.entries? with
    | none => exact .none
    | some es => exact .some ⟨es, .refl es, List.forall₂_same.2 fun e _ => ⟨rfl, .same e.2⟩⟩
  | sequence => exact .none
  | @mapping _ _ es' _ hp _ hk hv => exact .some ⟨es', hp, forall₂_of_map_eq hk hv⟩

theorem isPart (h : v.Reordered v') {x' : Value} (hx : x' ∈ v'.parts) :
    ∃ x ∈ v.parts, x.Reordered x' := by
  cases h with
  | same => exact ⟨x', hx, .same x'⟩
  | sequence hs => exact exists_mem_of_forall₂ hs.flip hx
  | @mapping _ es es' fs hp _ hk hv =>
    rcases List.mem_append.1 hx with hx | hx
    · rw [← hk] at hx
      exact ⟨x', List.mem_append_left _ ((hp.map _).mem_iff.2 hx), .same x'⟩
    · obtain ⟨x, hm, hr⟩ := exists_mem_of_forall₂ hv.flip hx
      exact ⟨x, List.mem_append_right _ ((hp.map _).mem_iff.2 hm), hr⟩

/-- What does not depend on the order of entries holds everywhere in both or in neither. -/
theorem everywhere {p : Value → Bool} (hp : ∀ x x', x.Reordered x' → p x = true → p x' = true) {v : Value} :
    ∀ {v'}, v.Reordered v' → v.everywhere p = true → v'.everywhere p = true := by
  induction v using parts_induction with
  | step v ih =>
    intro v' h hv
    refine (everywhere_iff p v').2 ⟨hp v v' h (here_of_everywhere hv), fun x' hx' => ?_⟩
    obtain ⟨x, hx, hr⟩ := h.isPart hx'
    exact ih x hx hr (everywhere_of_mem_parts hv hx)

/-! Looking up by name. -/

theorem OfEntries.get? {es fs : Entries} (h : OfEntries es fs) (hd : areDistinct (es.map (·.1)) = true)
    (n : FieldName) : Option.Rel Reordered (es.get? n.value) (fs.get? n.value) := by
  obtain ⟨es', hp, hr⟩ := h
  have hd' : areDistinct (es'.map (·.1)) = true := by
    rw [areDistinct_iff] at hd ⊢
    exact ((hp.map _).pairwise_iff fun hkl => ⟨hkl.2, hkl.1⟩).1 hd
  have he : KeyTable.get? es n.value = KeyTable.get? es' n.value := by
    refine Option.ext fun x => ?_
    rw [KeyTable.get?_fieldName_eq_some_iff hd, KeyTable.get?_fieldName_eq_some_iff hd']
    exact exists_congr fun e => and_congr_left fun _ => hp.mem_iff
  rw [he, KeyTable.get?_fieldName, KeyTable.get?_fieldName]
  exact rel_map_of_rel (fun e f hef => hef.2)
    (rel_find?_of_forall₂ (fun e f hef => by rw [hef.1]) hr)

end Reordered

/-! Equality with a value, as a literal asks for it. -/

theorem andThen_eq_some_true_iff {a : Option Bool} {b : Unit → Option Bool} :
    andThen a b = some true ↔ a = some true ∧ b () = some true := by
  rcases a with _ | _ | _ <;> simp [andThen]

theorem equalList?_eq_some_true_iff {xs ys : List Value} :
    equalList? xs ys = some true ↔ List.Forall₂ (fun x y => x.equal? y = some true) xs ys := by
  induction xs generalizing ys with
  | nil => cases ys <;> simp [equalList?]
  | cons x xs ih =>
    cases ys with
    | nil => simp [equalList?]
    | cons y ys => rw [equalList?, andThen_eq_some_true_iff, ih, List.forall₂_cons]

theorem equalEntries?_eq_some_true_iff {es fs : Entries} :
    equalEntries? es fs = some true ↔
      ∀ e ∈ es, ∃ x, fs.get? e.1 = some x ∧ e.2.equal? x = some true := by
  induction es with
  | nil => simp [equalEntries?]
  | cons e es ih =>
    rw [equalEntries?, List.forall_mem_cons, ← ih]
    cases fs.get? e.1 with
    | none => simp
    | some x => simp [andThen_eq_some_true_iff]

theorem equal?_seq_iff {form : SeqForm} {xs : List Value} {w : Value} :
    (seq form xs).equal? w = some true ↔
      ∃ ys, w = seq form ys ∧ List.Forall₂ (fun x y => x.equal? y = some true) xs ys := by
  have of_length {ys : List Value} :
      (if xs.length = ys.length then equalList? xs ys else some false) = some true ↔
        List.Forall₂ (fun x y => x.equal? y = some true) xs ys := by
    split
    · exact equalList?_eq_some_true_iff
    · next hl => exact iff_of_false (by simp) fun h => hl h.length_eq
  cases w with
  | seq form' ys =>
    cases form <;> cases form' <;> simp [equal?, amount?, of_length, equalList?_eq_some_true_iff]
  | _ => cases form <;> simp [equal?, amount?]

theorem equal?_map_iff {form : MapForm} {es : Entries} {w : Value} :
    (map form es).equal? w = some true ↔
      ∃ (form' : MapForm) (fs : Entries), w = map form' fs ∧ es.length = fs.length ∧
        (∀ e ∈ es, ∃ x, fs.get? e.1 = some x ∧ e.2.equal? x = some true) ∧
        (form = .ordered → form' = .ordered → sameList (es.map (·.1)) (fs.map (·.1)) = true) := by
  cases w with
  | map form' fs =>
    have horder : (if form = .ordered && form' = .ordered then
          some (sameList (es.map (·.1)) (fs.map (·.1))) else some true) = some true ↔
        (form = .ordered → form' = .ordered → sameList (es.map (·.1)) (fs.map (·.1)) = true) := by
      cases form <;> cases form' <;> simp
    rw [equal?]
    split
    · next hl =>
      rw [andThen_eq_some_true_iff, equalEntries?_eq_some_true_iff, horder]
      refine ⟨fun h => ⟨form', fs, rfl, hl, h⟩, fun h => ?_⟩
      obtain ⟨_, _, hw, -, h⟩ := h
      cases hw
      exact h
    · next hl =>
      refine iff_of_false (by simp) fun h => ?_
      obtain ⟨_, _, hw, hl', -⟩ := h
      cases hw
      exact hl hl'
  | _ => simp [equal?, amount?]

theorem Reordered.equal?_iff {v : Value} : ∀ {v' w : Value}, v.Reordered v' →
    (v.equal? w = some true ↔ v'.equal? w = some true) := by
  induction v using parts_induction with
  | step v ih =>
    intro v' w h
    cases h with
    | same => rfl
    | sequence hs =>
      rw [equal?_seq_iff, equal?_seq_iff]
      refine exists_congr fun zs => and_congr_right fun _ => ?_
      exact forall₂_iff_of_forall₂ hs fun x hx y hr z => ih x hx hr
    | @mapping form es es' fs hp ho hk hv =>
      rw [equal?_map_iff, equal?_map_iff]
      refine exists_congr fun form' => exists_congr fun gs => and_congr_right fun _ => ?_
      have hpairs := forall₂_of_map_eq hk hv
      refine and_congr ?_ (and_congr ?_ (forall_congr' fun hf => ?_))
      · rw [hp.length_eq, hpairs.length_eq]
      · have hes : (∀ e ∈ es, ∃ x, gs.get? e.1 = some x ∧ e.2.equal? x = some true) ↔
            ∀ e ∈ es', ∃ x, gs.get? e.1 = some x ∧ e.2.equal? x = some true :=
          forall_congr' fun e => by rw [hp.mem_iff]
        rw [hes]
        refine forall_mem_iff_of_forall₂ hpairs fun e he f _ hef => exists_congr fun x => ?_
        have hm : e.2 ∈ (map form es).parts :=
          List.mem_append_right _ (List.mem_map_of_mem (hp.mem_iff.2 he))
        rw [hef.1, ih e.2 hm hef.2]
      · rw [← ho hf, hk]

end Conform.Value
