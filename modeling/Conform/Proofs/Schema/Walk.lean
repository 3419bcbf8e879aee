import Conform.Proofs.Basic
import Conform.Proofs.Schema.Tree
import Conform.Schema.Check

/-! What a walk can come to. Each of its loops accepts, rejects or breaks off as said here: what is
rejected is the first that is, after some that are accepted. A loop goes on as long as it accepts, or, among
the options of a union, as long as it rejects; its outcome depends on nothing but the parts that it comes
to. -/

namespace Conform

/-! Outcomes. -/

namespace Outcome

variable {α β : Type} {f : α → β} {o : Outcome α}

@[simp] theorem map_eq_accepted_iff {b : β} : o.map f = .accepted b ↔ ∃ a, o = .accepted a ∧ f a = b := by
  cases o <;> simp [map]

@[simp] theorem map_eq_rejected_iff {e : Fault} : o.map f = .rejected e ↔ o = .rejected e := by
  cases o <;> simp [map]

@[simp] theorem map_eq_broken_iff {b : Breakdown} : o.map f = .broken b ↔ o = .broken b := by
  cases o <;> simp [map]

/-- The fault of a rejection. -/
def fault? : Outcome α → Option Fault
  | rejected f => some f
  | _ => none

theorem fault?_eq_some_iff {f : Fault} : o.fault? = some f ↔ o = .rejected f := by
  cases o <;> simp [fault?]

theorem isAccepted_iff : o.isAccepted = true ↔ ∃ a, o = .accepted a := by
  cases o <;> simp [isAccepted]

end Outcome

/-- Whether a loop along a list comes to an element, where it goes on as long as the elements are good. -/
def ComesTo {α : Type} (good : α → Prop) : List α → α → Prop
  | [], _ => False
  | y :: ys, x => x = y ∨ (good y ∧ ComesTo good ys x)

theorem mem_of_comesTo {α : Type} {good : α → Prop} {xs : List α} {x : α} (h : ComesTo good xs x) :
    x ∈ xs := by
  induction xs with
  | nil => exact h.elim
  | cons y ys ih =>
    rcases h with rfl | ⟨-, h⟩
    · exact List.mem_cons_self
    · exact List.mem_cons_of_mem _ (ih h)

theorem comesTo_append {α : Type} {good : α → Prop} {before after : List α} {x : α}
    (h : ∀ y ∈ before, good y) : ComesTo good (before ++ x :: after) x := by
  induction before with
  | nil => exact .inl rfl
  | cons y before ih =>
    rw [List.forall_mem_cons] at h
    exact .inr ⟨h.1, ih h.2⟩

theorem comesTo_of_mem {α : Type} {good : α → Prop} {xs : List α} {x : α} (h : ∀ y ∈ xs, good y)
    (hx : x ∈ xs) : ComesTo good xs x := by
  obtain ⟨before, after, rfl⟩ := List.append_of_mem hx
  exact comesTo_append fun y hy => h y (List.mem_append_left _ hy)

/-- The step into a child schema. -/
abbrev Schema.child (c : Settings) (d : Nat) (s : Schema) (v : Value) : Verdict :=
  enter c d (s.check c (d + 1)) v

variable {c : Settings} {d : Nat}

theorem enter_eq_accepted_iff {f : Value → Verdict} {v w : Value} :
    enter c d f v = .accepted w ↔ (d : Int) < c.depthLimit ∧ f v = .accepted w := by
  unfold enter
  split <;> rename_i h
  · simp only [reduceCtorEq, false_iff, not_and]
    omega
  · simp only [Int.not_le] at h
    simp [h]

theorem isAccepted_enter_iff {f : Value → Verdict} {v : Value} :
    (enter c d f v).isAccepted = true ↔ (d : Int) < c.depthLimit ∧ (f v).isAccepted = true := by
  simp only [Outcome.isAccepted_iff, enter_eq_accepted_iff, exists_and_left]

theorem enter_eq_broken_iff {f : Value → Verdict} {v : Value} {b : Breakdown} :
    enter c d f v = .broken b ↔ (d : Int) < c.depthLimit ∧ f v = .broken b := by
  unfold enter
  split <;> rename_i h
  · simp only [reduceCtorEq, false_iff, not_and]
    omega
  · simp only [Int.not_le] at h
    simp [h]

theorem enter_eq_rejected_iff {f : Value → Verdict} {v : Value} {e : Fault} :
    enter c d f v = .rejected e ↔
      (c.depthLimit ≤ d ∧ e = .here (.tooDeep c.depthLimit)) ∨
        ((d : Int) < c.depthLimit ∧ f v = .rejected e) := by
  unfold enter
  split <;> rename_i h
  · have : ¬ (d : Int) < c.depthLimit := by omega
    simp [h, this, eq_comm]
  · have : (d : Int) < c.depthLimit := by omega
    simp [h, this]

theorem Schema.child_eq_check {s : Schema} {v : Value} (hd : (d : Int) < c.depthLimit) :
    s.child c d v = s.check c (d + 1) v := by
  unfold child enter
  rw [if_neg (by omega)]

/-! Refusals. -/

@[simp] theorem refuse_eq_rejected_iff {cause : Option Cause} {e : Fault} :
    refuse cause = .rejected e ↔ ∃ a, cause = some a ∧ e = .here a := by
  cases cause <;> simp [refuse, eq_comm]

@[simp] theorem refuse_eq_broken_iff {cause : Option Cause} {b : Breakdown} :
    refuse cause = .broken b ↔ cause = none ∧ b = .unwritable := by
  cases cause <;> simp [refuse, eq_comm]

@[simp] theorem refuse_ne_accepted {cause : Option Cause} {w : Value} : refuse cause ≠ .accepted w := by
  cases cause <;> simp [refuse]

theorem leafCause_eq_some_iff {k : Kind} {v : Value} {cause : Cause} :
    leafCause c k v = some cause ↔
      ∃ shown, (if k = .function then some v.label else describe v c.reprLimit) = some shown ∧
        cause = .wrongKind k shown := by
  simp only [leafCause, Option.map_eq_some_iff, @eq_comm _ cause]

theorem literalCause_eq_some_iff {expected v : Value} {cause : Cause} :
    literalCause c expected v = some cause ↔
      ∃ shownExpected shown, describe expected c.reprLimit = some shownExpected ∧
        describe v c.reprLimit = some shown ∧ cause = .notLiteral expected shownExpected shown := by
  simp [literalCause, Option.bind_eq_bind, Option.bind_eq_some_iff, @eq_comm _ cause]

/-! Elements. -/

theorem checkItems_eq_accepted_iff {f : Value → Verdict} {i : Nat} {vs ws : List Value} :
    checkItems f i vs = .accepted ws ↔ List.Forall₂ (fun v w => f v = .accepted w) vs ws := by
  induction vs generalizing i ws with
  | nil => simp [checkItems, eq_comm]
  | cons v vs ih =>
    rw [checkItems]
    cases ws with
    | nil => cases f v <;> simp
    | cons w ws => cases hv : f v <;> simp [hv, ih, and_comm]

theorem checkItems_eq_broken_iff {f : Value → Verdict} {i : Nat} {vs : List Value} {b : Breakdown} :
    checkItems f i vs = .broken b ↔
      ∃ v, ComesTo (fun u => (f u).isAccepted = true) vs v ∧ f v = .broken b := by
  induction vs generalizing i with
  | nil => simp [checkItems, ComesTo]
  | cons v vs ih =>
    rw [checkItems]
    cases hv : f v <;> simp [ComesTo, hv, ih, Outcome.isAccepted, or_and_right, exists_or]

theorem checkItems_congr {f g : Value → Verdict} {i : Nat} {vs : List Value}
    (h : ∀ v, ComesTo (fun u => (f u).isAccepted = true) vs v → f v = g v) :
    checkItems f i vs = checkItems g i vs := by
  induction vs generalizing i with
  | nil => rfl
  | cons v vs ih =>
    rw [checkItems, checkItems, ← h v (.inl rfl)]
    cases hv : f v with
    | accepted w =>
      have hg : (f v).isAccepted = true := by rw [hv]; rfl
      simp only [ih fun x hx => h x (.inr ⟨hg, hx⟩)]
    | rejected e => rfl
    | broken b => rfl

theorem rejected_of_checkItems {f : Value → Verdict} {i : Nat} {vs : List Value} {e : Fault}
    (h : checkItems f i vs = .rejected e) :
    ∃ before v after e', vs = before ++ v :: after ∧ (∀ u ∈ before, (f u).isAccepted = true) ∧
      f v = .rejected e' ∧ e = e'.under (.int ↑(i + before.length)) := by
  induction vs generalizing i with
  | nil => simp [checkItems] at h
  | cons v vs ih =>
    rw [checkItems] at h
    cases hv : f v with
    | accepted w =>
      simp only [hv, Outcome.map_eq_rejected_iff] at h
      obtain ⟨before, x, after, e', rfl, hb, hx, rfl⟩ := ih h
      refine ⟨v :: before, x, after, e', rfl, List.forall_mem_cons.2 ⟨by rw [hv]; rfl, hb⟩, hx, ?_⟩
      rw [List.length_cons, Nat.add_right_comm, Nat.add_assoc]
    | rejected e' =>
      simp only [hv, Outcome.rejected.injEq] at h
      exact ⟨[], v, vs, e', rfl, by simp, hv, h.symm⟩
    | broken b => simp [hv] at h

/-! Fields. -/

theorem checkFields_eq_accepted_iff {fields : List (FieldName × Schema)} {es done : Entries} :
    checkFields c fields d es = .accepted done ↔
      List.Forall₂ (fun f e => e.1 = f.1.value ∧
        ∃ x, es.get? f.1.value = some x ∧ f.2.child c d x = .accepted e.2) fields done := by
  induction fields generalizing done with
  | nil => simp [checkFields, eq_comm]
  | cons f fields ih =>
    obtain ⟨name, s⟩ := f
    rw [checkFields]
    cases hx : es.get? name.value with
    | none => cases done <;> simp [hx]
    | some x =>
      cases done with
      | nil => cases hv : s.child c d x <;> simp [hv]
      | cons e done =>
        obtain ⟨k, w⟩ := e
        cases hv : s.child c d x <;> simp [hv, hx, ih, and_comm, @eq_comm _ k]

/-- Whether a field is there with a value that its schema accepts. -/
def FieldPasses (c : Settings) (d : Nat) (es : Entries) (f : FieldName × Schema) : Prop :=
  ∃ x, es.get? f.1.value = some x ∧ (f.2.child c d x).isAccepted = true

theorem checkFields_eq_broken_iff {fields : List (FieldName × Schema)} {es : Entries} {b : Breakdown} :
    checkFields c fields d es = .broken b ↔
      ∃ f x, ComesTo (FieldPasses c d es) fields f ∧ es.get? f.1.value = some x ∧
        f.2.child c d x = .broken b := by
  induction fields with
  | nil => simp [checkFields, ComesTo]
  | cons f fields ih =>
    obtain ⟨name, s⟩ := f
    rw [checkFields]
    cases hx : es.get? name.value with
    | none => simp [ComesTo, FieldPasses, hx]
    | some x =>
      cases hv : s.child c d x <;>
        simp [ComesTo, FieldPasses, hx, hv, ih, Outcome.isAccepted, or_and_right, exists_or]

theorem checkFields_congr {c' : Settings} {d' : Nat} {fields : List (FieldName × Schema)} {es : Entries}
    (h : ∀ f x, ComesTo (FieldPasses c d es) fields f → es.get? f.1.value = some x →
      f.2.child c d x = f.2.child c' d' x) :
    checkFields c fields d es = checkFields c' fields d' es := by
  induction fields with
  | nil => simp [checkFields]
  | cons f fields ih =>
    obtain ⟨name, s⟩ := f
    rw [checkFields, checkFields]
    cases hx : es.get? name.value with
    | none => rfl
    | some x =>
      have hs : s.child c' d' x = s.child c d x := (h (name, s) x (.inl rfl) hx).symm
      cases hv : s.child c d x with
      | accepted w =>
        have hp : FieldPasses c d es (name, s) := ⟨x, hx, by rw [hv]; rfl⟩
        simp only [hv, hs, ih fun f y hf => h f y (.inr ⟨hp, hf⟩)]
      | rejected e => simp only [hv, hs]
      | broken b => simp only [hv, hs]

theorem rejected_of_checkFields {fields : List (FieldName × Schema)} {es : Entries} {e : Fault}
    (h : checkFields c fields d es = .rejected e) :
    ∃ before f after, fields = before ++ f :: after ∧
      (∀ g ∈ before, ∃ x, es.get? g.1.value = some x ∧ (g.2.child c d x).isAccepted = true) ∧
      ((es.get? f.1.value = none ∧ e = missing f.1) ∨
        ∃ x e', es.get? f.1.value = some x ∧ f.2.child c d x = .rejected e' ∧
          e = fieldFault f.1 x e') := by
  induction fields with
  | nil => simp [checkFields] at h
  | cons f fields ih =>
    obtain ⟨name, s⟩ := f
    rw [checkFields] at h
    cases hx : es.get? name.value with
    | none =>
      simp only [hx, Outcome.rejected.injEq] at h
      exact ⟨[], (name, s), fields, rfl, by simp, .inl ⟨hx, h.symm⟩⟩
    | some x =>
      cases hv : s.child c d x with
      | accepted w =>
        simp only [hx, hv, Outcome.map_eq_rejected_iff] at h
        obtain ⟨before, f, after, rfl, hb, he⟩ := ih h
        have hs : (s.child c d x).isAccepted = true := by rw [hv]; rfl
        exact ⟨(name, s) :: before, f, after, rfl, List.forall_mem_cons.2 ⟨⟨x, hx, hs⟩, hb⟩, he⟩
      | rejected e' =>
        simp only [hx, hv, Outcome.rejected.injEq] at h
        exact ⟨[], (name, s), fields, rfl, by simp, .inr ⟨x, e', hx, hv, h.symm⟩⟩
      | broken b => simp [hx, hv] at h

/-! Positions. -/

/-- The fault of a tuple with the wrong number of elements. -/
def lengthFault (declared found : Nat) : Fault :=
  if declared < found then .atToken (.int declared) (.extraElement declared)
  else .atToken (.int found) (.missingElement found)

theorem lengthFault_of_lt {declared found : Nat} (h : declared < found) :
    lengthFault declared found = .atToken (.int declared) (.extraElement declared) := if_pos h

theorem lengthFault_of_le {declared found : Nat} (h : found ≤ declared) :
    lengthFault declared found = .atToken (.int found) (.missingElement found) := if_neg (by omega)

/-- One element more than declared is enough to see that there are too many. -/
theorem lengthFault_min (declared found : Nat) :
    lengthFault declared (min (declared + 1) found) = lengthFault declared found := by
  rcases Nat.lt_or_ge declared found with h | h
  · rw [lengthFault_of_lt h, lengthFault_of_lt (by omega)]
  · rw [Nat.min_eq_right (by omega)]

theorem checkPositions_eq_accepted_iff {items : List Schema} {i : Nat} {vs ws : List Value} :
    checkPositions c items d i vs = .accepted ws ↔
      items.length = vs.length ∧
        List.Forall₂ (fun p w => p.1.child c d p.2 = .accepted w) (items.zip vs) ws := by
  induction items generalizing i vs ws with
  | nil => cases vs <;> simp [checkPositions, eq_comm]
  | cons s items ih =>
    cases vs with
    | nil => simp [checkPositions]
    | cons v vs =>
      rw [checkPositions]
      cases ws with
      | nil => cases hv : s.child c d v <;> simp [hv]
      | cons w ws => cases hv : s.child c d v <;> simp [hv, ih, and_assoc, and_comm, and_left_comm]

theorem checkPositions_eq_broken_iff {items : List Schema} {i : Nat} {vs : List Value} {b : Breakdown} :
    checkPositions c items d i vs = .broken b ↔
      ∃ p, ComesTo (fun q => (q.1.child c d q.2).isAccepted = true) (items.zip vs) p ∧
        p.1.child c d p.2 = .broken b := by
  induction items generalizing i vs with
  | nil => cases vs <;> simp [checkPositions, ComesTo]
  | cons s items ih =>
    cases vs with
    | nil => simp [checkPositions, ComesTo]
    | cons v vs =>
      rw [checkPositions]
      cases hv : s.child c d v <;>
        simp [ComesTo, hv, ih, Outcome.isAccepted, or_and_right, exists_or]

theorem checkPositions_congr {c' : Settings} {d' : Nat} {items : List Schema} {i : Nat} {vs : List Value}
    (h : ∀ p, ComesTo (fun q => (q.1.child c d q.2).isAccepted = true) (items.zip vs) p →
      p.1.child c d p.2 = p.1.child c' d' p.2) :
    checkPositions c items d i vs = checkPositions c' items d' i vs := by
  induction items generalizing i vs with
  | nil => cases vs <;> simp [checkPositions]
  | cons s items ih =>
    cases vs with
    | nil => simp [checkPositions]
    | cons v vs =>
      have hs : s.child c' d' v = s.child c d v := (h (s, v) (.inl rfl)).symm
      rw [checkPositions, checkPositions]
      cases hv : s.child c d v with
      | accepted w =>
        have hg : (s.child c d v).isAccepted = true := by rw [hv]; rfl
        simp only [hv, hs, ih fun p hp => h p (.inr ⟨hg, hp⟩)]
      | rejected e => simp only [hv, hs]
      | broken b => simp only [hv, hs]

theorem rejected_of_checkPositions {items : List Schema} {i : Nat} {vs : List Value} {e : Fault}
    (h : checkPositions c items d i vs = .rejected e) :
    (items.length ≠ vs.length ∧ (∀ p ∈ items.zip vs, (p.1.child c d p.2).isAccepted = true) ∧
        e = lengthFault (i + items.length) (i + vs.length)) ∨
      ∃ before p after e', items.zip vs = before ++ p :: after ∧
        (∀ q ∈ before, (q.1.child c d q.2).isAccepted = true) ∧
        p.1.child c d p.2 = .rejected e' ∧ e = e'.under (.int ↑(i + before.length)) := by
  induction items generalizing i vs with
  | nil =>
    cases vs with
    | nil => simp [checkPositions] at h
    | cons v vs =>
      simp only [checkPositions, Outcome.rejected.injEq] at h
      exact .inl ⟨by simp, by simp, h ▸ (lengthFault_of_lt (by simp)).symm⟩
  | cons s items ih =>
    cases vs with
    | nil =>
      simp only [checkPositions, Outcome.rejected.injEq] at h
      exact .inl ⟨by simp, by simp, h ▸ (lengthFault_of_le (by simp)).symm⟩
    | cons v vs =>
      rw [checkPositions] at h
      cases hv : s.child c d v with
      | accepted w =>
        simp only [hv, Outcome.map_eq_rejected_iff] at h
        have ha : (s.child c d v).isAccepted = true := by rw [hv]; rfl
        have shift (n : Nat) : i + 1 + n = i + (n + 1) := by omega
        rcases ih h with ⟨hl, hz, rfl⟩ | ⟨before, p, after, e', hp, hb, hr, rfl⟩
        · refine .inl ⟨by simpa using hl, List.forall_mem_cons.2 ⟨ha, hz⟩, ?_⟩
          rw [shift, shift, List.length_cons, List.length_cons]
        · refine .inr ⟨(s, v) :: before, p, after, e', ?_, List.forall_mem_cons.2 ⟨ha, hb⟩, hr, ?_⟩
          · rw [List.zip_cons_cons, hp, List.cons_append]
          · rw [shift, List.length_cons]
      | rejected e' =>
        simp only [hv, Outcome.rejected.injEq] at h
        exact .inr ⟨[], (s, v), items.zip vs, e', rfl, by simp, hv, h.symm⟩
      | broken b => simp [hv] at h

/-! Options. -/

/-- Whether an option passes the value on to the options behind it. -/
def Declines (c : Settings) (d : Nat) (v : Value) (s : Schema) : Prop :=
  ∃ e, s.child c d v = .rejected e ∧ e.isWritable = true

theorem checkOptions_eq_accepted_iff {options : List Schema} {v w : Value} {i : Nat}
    {rs : List (Int × Fault)} :
    checkOptions c options d v i rs = .accepted w ↔
      ∃ before s after, options = before ++ s :: after ∧
        (∀ t ∈ before, Declines c d v t) ∧ s.child c d v = .accepted w := by
  induction options generalizing i rs with
  | nil => simp [checkOptions]
  | cons t options ih =>
    rw [checkOptions]
    refine ⟨fun h => ?_, fun h => ?_⟩
    · cases hv : t.child c d v with
      | accepted u =>
        simp only [hv, Outcome.accepted.injEq] at h
        exact ⟨[], t, options, rfl, by simp, h ▸ hv⟩
      | rejected e =>
        simp only [hv] at h
        split at h
        · next he =>
          obtain ⟨before, s, after, rfl, hb, hs⟩ := ih.1 h
          exact ⟨t :: before, s, after, rfl, List.forall_mem_cons.2 ⟨⟨e, hv, he⟩, hb⟩, hs⟩
        · cases h
      | broken b => simp [hv] at h
    · obtain ⟨before, s, after, ho, hb, hs⟩ := h
      cases before with
      | nil =>
        obtain ⟨rfl, rfl⟩ := List.cons.inj ho
        simp [hs]
      | cons u before =>
        obtain ⟨rfl, rfl⟩ := List.cons.inj ho
        obtain ⟨⟨e, he, hw⟩, hb⟩ := List.forall_mem_cons.1 hb
        simp only [he, hw, if_true]
        exact ih.2 ⟨before, s, after, rfl, hb, hs⟩

theorem checkOptions_eq_broken_iff {options : List Schema} {v : Value} {i : Nat} {rs : List (Int × Fault)}
    {b : Breakdown} :
    checkOptions c options d v i rs = .broken b ↔
      ∃ s, ComesTo (Declines c d v) options s ∧
        (s.child c d v = .broken b ∨
          b = .unwritable ∧ ∃ e, s.child c d v = .rejected e ∧ e.isWritable = false) := by
  induction options generalizing i rs with
  | nil => simp [checkOptions, ComesTo]
  | cons s options ih =>
    rw [checkOptions]
    cases hv : s.child c d v with
    | rejected e =>
      cases he : e.isWritable <;>
        simp [ComesTo, Declines, hv, he, ih, or_and_right, exists_or, @eq_comm _ b]
    | _ => simp [ComesTo, Declines, hv]

theorem checkOptions_congr {c' : Settings} {d' : Nat} {options : List Schema} {v : Value} {i : Nat}
    {rs : List (Int × Fault)}
    (h : ∀ s, ComesTo (Declines c d v) options s → s.child c d v = s.child c' d' v) :
    checkOptions c options d v i rs = checkOptions c' options d' v i rs := by
  induction options generalizing i rs with
  | nil => simp [checkOptions]
  | cons s options ih =>
    have hs : s.child c' d' v = s.child c d v := (h s (.inl rfl)).symm
    rw [checkOptions, checkOptions]
    cases hv : s.child c d v with
    | accepted w => simp only [hv, hs]
    | rejected e =>
      simp only [hv, hs]
      split
      · next he => exact ih fun t ht => h t (.inr ⟨⟨e, hv, he⟩, ht⟩)
      · rfl
    | broken b => simp only [hv, hs]

theorem rejected_of_checkOptions {options : List Schema} {v : Value} {i : Nat}
    {rs : List (Int × Fault)} {e : Fault} (h : checkOptions c options d v i rs = .rejected e) :
    ∃ fs, List.Forall₂ (fun s f => s.child c d v = .rejected f) options fs ∧
      e = .here (.exhausted (rs ++ (fs.zipIdx i).map fun p => ((p.2 : Int), p.1))) := by
  induction options generalizing i rs with
  | nil =>
    simp only [checkOptions, Outcome.rejected.injEq] at h
    exact ⟨[], .nil, by simp [← h]⟩
  | cons s options ih =>
    rw [checkOptions] at h
    cases hv : s.child c d v with
    | accepted w => simp [hv] at h
    | rejected e' =>
      simp only [hv] at h
      split at h
      · obtain ⟨fs, hfs, rfl⟩ := ih h
        exact ⟨e' :: fs, .cons hv hfs, by simp⟩
      · cases h
    | broken b => simp [hv] at h

/-- Where the options are exhausted each of them passed the value on. -/
theorem declines_of_checkOptions {options : List Schema} {v : Value} {i : Nat} {rs : List (Int × Fault)}
    {e : Fault} (h : checkOptions c options d v i rs = .rejected e) : ∀ s ∈ options, Declines c d v s := by
  induction options generalizing i rs with
  | nil => simp
  | cons s options ih =>
    rw [checkOptions] at h
    cases hv : s.child c d v with
    | accepted w => simp [hv] at h
    | rejected e' =>
      simp only [hv] at h
      split at h
      · next he => exact List.forall_mem_cons.2 ⟨⟨e', hv, he⟩, ih h⟩
      · cases h
    | broken b => simp [hv] at h

/-! Entries. -/

theorem checkPart_none {v : Value} : checkPart c none d v = .accepted v := by rw [checkPart]

theorem checkPart_some {s : Schema} {v : Value} : checkPart c (some s) d v = s.child c d v := by
  rw [checkPart]

section Entries

variable {key value : Value → Verdict}

theorem checkEntries_eq_accepted_iff {done es r : Entries} :
    checkEntries key value done es = .accepted r ↔
      ∃ fs : Entries, List.Forall₂ (fun e f => key e.1 = .accepted f.1 ∧ value e.2 = .accepted f.2 ∧
        f.1.isHashable = true) es fs ∧ r = fs.foldl (fun t p => KeyTable.put t p.1 p.2) done := by
  induction es generalizing done with
  | nil => simp [checkEntries, @eq_comm _ r]
  | cons e es ih =>
    obtain ⟨k, v⟩ := e
    rw [checkEntries]
    refine ⟨fun h => ?_, fun h => ?_⟩
    · cases hk : key k with
      | accepted k' =>
        cases hv : value v with
        | accepted v' =>
          simp only [hk, hv] at h
          split at h
          · next hh =>
            obtain ⟨fs, hfs, rfl⟩ := ih.1 h
            exact ⟨(k', v') :: fs, .cons ⟨hk, hv, hh⟩ hfs, rfl⟩
          · simp at h
        | rejected _ => simp [hk, hv] at h
        | broken _ => simp [hk, hv] at h
      | rejected _ => simp [hk] at h
      | broken _ => simp [hk] at h
    · obtain ⟨_, _ | ⟨⟨hk, hv, hh⟩, hfs⟩, rfl⟩ := h
      simp only [hk, hv, hh, if_true]
      exact ih.2 ⟨_, hfs, rfl⟩

/-- Whether an entry passes: its key and its value are accepted, and the checked key still is a key. -/
def EntryPasses (key value : Value → Verdict) (e : Value × Value) : Prop :=
  ∃ k, key e.1 = .accepted k ∧ k.isHashable = true ∧ (value e.2).isAccepted = true

theorem checkEntries_eq_broken_iff {done es : Entries} {b : Breakdown} :
    checkEntries key value done es = .broken b ↔
      ∃ e, ComesTo (EntryPasses key value) es e ∧
        (key e.1 = .broken b ∨ ((key e.1).isAccepted = true ∧ value e.2 = .broken b)) := by
  induction es generalizing done with
  | nil => simp [checkEntries, ComesTo]
  | cons e es ih =>
    obtain ⟨k, v⟩ := e
    rw [checkEntries]
    cases hk : key k with
    | accepted k' =>
      cases hv : value v with
      | accepted v' =>
        by_cases hh : k'.isHashable = true <;>
          simp [ComesTo, EntryPasses, hk, hv, hh, ih, Outcome.isAccepted, or_and_right, exists_or]
      | _ => simp [ComesTo, EntryPasses, hk, hv, Outcome.isAccepted]
    | _ => simp [ComesTo, EntryPasses, hk, Outcome.isAccepted]

theorem checkEntries_congr {key' value' : Value → Verdict} {done es : Entries}
    (hk : ∀ e, ComesTo (EntryPasses key value) es e → key e.1 = key' e.1)
    (hv : ∀ e, ComesTo (EntryPasses key value) es e → (key e.1).isAccepted = true →
      value e.2 = value' e.2) :
    checkEntries key value done es = checkEntries key' value' done es := by
  induction es generalizing done with
  | nil => rfl
  | cons e es ih =>
    obtain ⟨k, v⟩ := e
    rw [checkEntries, checkEntries, ← hk (k, v) (.inl rfl)]
    cases hkk : key k with
    | accepted k' =>
      have ha : (key k).isAccepted = true := by rw [hkk]; rfl
      simp only [← hv (k, v) (.inl rfl) ha]
      cases hvv : value v with
      | accepted v' =>
        simp only
        split
        · next hh =>
          have hp : EntryPasses key value (k, v) := ⟨k', hkk, hh, by rw [hvv]; rfl⟩
          exact ih (fun e he => hk e (.inr ⟨hp, he⟩)) fun e he => hv e (.inr ⟨hp, he⟩)
        · rfl
      | rejected e => rfl
      | broken b => rfl
    | rejected e => rfl
    | broken b => rfl

theorem rejected_of_checkEntries {done es : Entries} {f : Fault}
    (h : checkEntries key value done es = .rejected f) :
    ∃ before e after, es = before ++ e :: after ∧
      (∀ g ∈ before, ∃ k, key g.1 = .accepted k ∧ k.isHashable = true ∧
        (value g.2).isAccepted = true) ∧
      ((∃ f', key e.1 = .rejected f' ∧ f = f'.under e.1) ∨
        ∃ k, key e.1 = .accepted k ∧ ((∃ f', value e.2 = .rejected f' ∧ f = f'.under e.1) ∨
          ((value e.2).isAccepted = true ∧ k.isHashable = false ∧
            f = .atToken e.1 (.unhashableKey k.label)))) := by
  induction es generalizing done with
  | nil => simp [checkEntries] at h
  | cons e es ih =>
    obtain ⟨k, v⟩ := e
    rw [checkEntries] at h
    cases hk : key k with
    | accepted k' =>
      cases hv : value v with
      | accepted v' =>
        simp only [hk, hv] at h
        have ha : (value v).isAccepted = true := by rw [hv]; rfl
        split at h
        · next hh =>
          obtain ⟨before, e, after, rfl, hb, he⟩ := ih h
          exact ⟨(k, v) :: before, e, after, rfl, List.forall_mem_cons.2 ⟨⟨k', hk, hh, ha⟩, hb⟩, he⟩
        · next hh =>
          simp only [Outcome.rejected.injEq] at h
          exact ⟨[], (k, v), es, rfl, by simp, .inr ⟨k', hk, .inr ⟨ha, by simpa using hh, h.symm⟩⟩⟩
      | rejected f' =>
        simp only [hk, hv, Outcome.rejected.injEq] at h
        exact ⟨[], (k, v), es, rfl, by simp, .inr ⟨k', hk, .inl ⟨f', hv, h.symm⟩⟩⟩
      | broken _ => simp [hk, hv] at h
    | rejected f' =>
      simp only [hk, Outcome.rejected.injEq] at h
      exact ⟨[], (k, v), es, rfl, by simp, .inl ⟨f', hk, h.symm⟩⟩
    | broken _ => simp [hk] at h

end Entries

end Conform
