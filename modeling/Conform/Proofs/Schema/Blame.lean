import Conform.Proofs.Schema.Placement

/-! Which part a fault blames. A walk stops at the first part that is not accepted: of the fields of an object
in the order of their declaration, of the elements of a sequence by their index, of the entries of a table in
the order of the mapping, each with its key before its value. Only when all positions of a tuple have passed is
it told from one that is too short or too long. So at every container on the way to a fault everything that
comes before the blamed part is accepted, at the depth that the container leaves for its parts. -/

namespace Conform.Schema

/-- The kind of container that a schema asks for. -/
def container? : Schema → Option Container
  | object _ => some .object
  | table _ _ => some .table
  | array _ => some .array
  | tuple _ => some .tuple
  | _ => none

end Schema

/-- Whether a value is a container of a kind. -/
def Container.fits : Container → Value → Bool
  | object, v => v.isMapping
  | table, v => v.isMapping
  | array, v => v.isSequence
  | tuple, v => v.isSequence

theorem Value.isMapping_of_none {v : Value} (h : v.entries? = none) : v.isMapping = false := by
  rw [isMapping, h]
  rfl

theorem Value.isSequence_of_none {v : Value} (h : v.elements? = none) : v.isSequence = false := by
  rw [isSequence, h]
  rfl

namespace Schema

/-- Whether a fault, of a check at some depth, blames the first part that is not accepted, at each container that
its path passes. Where the path ends at a union, so do the faults of its options. -/
inductive Blames (c : Settings) : Schema → Nat → Value → Fault → Prop
  | limit {s : Schema} {d : Nat} {v : Value} : c.depthLimit ≤ d →
      Blames c s (d + 1) v (.here (.tooDeep c.depthLimit))
  | leaf {kind : Kind} {d : Nat} {v : Value} {cause : Cause} : kind.admits v = false →
      leafCause c kind v = some cause → Blames c (.leaf kind) d v (.here cause)
  | literal {expected v : Value} {d : Nat} {cause : Cause} :
      (v.type = expected.type → v.equal? expected = some false) → literalCause c expected v = some cause →
      Blames c (.literal expected) d v (.here cause)
  | custom {own : Leaf} {d : Nat} {v : Value} : own.takes v = false →
      Blames c (.custom own) d v (.here (.stated .validation (own.refusal v)))
  | container {s : Schema} {k : Container} {d : Nat} {v : Value} : s.container? = some k →
      k.fits v = false → Blames c s d v (.here (.wrongContainer k v.label))
  | absent {fields before after : List (FieldName × Schema)} {g : FieldName × Schema} {d : Nat} {v : Value}
      {es : Entries} : v.entries? = some es → fields = before ++ g :: after →
      (∀ h ∈ before, FieldPasses c d es h) → es.get? g.1.value = none →
      Blames c (.object fields) d v (missing g.1)
  | null {fields before after : List (FieldName × Schema)} {g : FieldName × Schema} {d : Nat} {v : Value}
      {es : Entries} {f : Fault} : v.entries? = some es → fields = before ++ g :: after →
      (∀ h ∈ before, FieldPasses c d es h) → es.get? g.1.value = some .null →
      g.2.child c d .null = .rejected f → f.faultClass ≠ .depthLimit →
      Blames c (.object fields) d v (missing g.1)
  | field {fields before after : List (FieldName × Schema)} {g : FieldName × Schema} {d : Nat} {v x : Value}
      {es : Entries} {f : Fault} : v.entries? = some es → fields = before ++ g :: after →
      (∀ h ∈ before, FieldPasses c d es h) → es.get? g.1.value = some x → Blames c g.2 (d + 1) x f →
      Blames c (.object fields) d v (f.under g.1.value)
  | item {t : Schema} {d : Nat} {v x : Value} {e : Elements} {before after : List Value} {f : Fault} :
      v.elements? = some e → e.toList = before ++ x :: after →
      (∀ y ∈ before, (t.child c d y).isAccepted = true) → Blames c t (d + 1) x f →
      Blames c (.array t) d v (f.under (.int ↑before.length))
  | position {items : List Schema} {d : Nat} {v : Value} {e : Elements} {p : Schema × Value}
      {before after : List (Schema × Value)} {f : Fault} :
      v.elements? = some e → items.zip e.toList = before ++ p :: after →
      (∀ q ∈ before, (q.1.child c d q.2).isAccepted = true) → Blames c p.1 (d + 1) p.2 f →
      Blames c (.tuple items) d v (f.under (.int ↑before.length))
  | tooShort {items : List Schema} {d : Nat} {v : Value} {e : Elements} {n : Nat} :
      v.elements? = some e → e.toList.length = n → n < items.length →
      (∀ q ∈ items.zip e.toList, (q.1.child c d q.2).isAccepted = true) →
      Blames c (.tuple items) d v (.atToken (.int n) (.missingElement n))
  | tooLong {items : List Schema} {d : Nat} {v : Value} {e : Elements} {n : Nat} :
      v.elements? = some e → items.length = n → n < e.toList.length →
      (∀ q ∈ items.zip e.toList, (q.1.child c d q.2).isAccepted = true) →
      Blames c (.tuple items) d v (.atToken (.int n) (.extraElement n))
  | inner {t : Schema} {d : Nat} {v : Value} {f : Fault} : v.isNull = false → Blames c t (d + 1) v f →
      Blames c (.optional t) d v f
  | key {t : Schema} {value : Option Schema} {d : Nat} {v : Value} {es before after : Entries}
      {e : Value × Value} {f : Fault} : v.entries? = some es → es = before ++ e :: after →
      (∀ g ∈ before, EntryPasses (checkPart c (some t) d) (checkPart c value d) g) →
      Blames c t (d + 1) e.1 f → Blames c (.table (some t) value) d v (f.under e.1)
  | value {key : Option Schema} {t : Schema} {d : Nat} {v : Value} {es before after : Entries}
      {e : Value × Value} {f : Fault} : v.entries? = some es → es = before ++ e :: after →
      (∀ g ∈ before, EntryPasses (checkPart c key d) (checkPart c (some t) d) g) →
      (checkPart c key d e.1).isAccepted = true → Blames c t (d + 1) e.2 f →
      Blames c (.table key (some t)) d v (f.under e.1)
  | unhashable {key value : Option Schema} {d : Nat} {v k : Value} {es before after : Entries}
      {e : Value × Value} : v.entries? = some es → es = before ++ e :: after →
      (∀ g ∈ before, EntryPasses (checkPart c key d) (checkPart c value d) g) →
      checkPart c key d e.1 = .accepted k → k.isHashable = false →
      (checkPart c value d e.2).isAccepted = true →
      Blames c (.table key value) d v (.atToken e.1 (.unhashableKey k.label))
  | union {options : List Schema} {d : Nat} {v : Value} {fs : List Fault} : fs.length = options.length →
      (∀ (i : Nat) (t : Schema) (g : Fault), options[i]? = some t → fs[i]? = some g →
        Blames c t (d + 1) v g) →
      Blames c (.union options) d v (.here (.exhausted (numbered fs)))

variable {c : Settings} {s t : Schema} {d : Nat} {v x : Value} {f : Fault}

theorem blames_of_child (h : t.child c d x = .rejected f)
    (ih : t.check c (d + 1) x = .rejected f → t.Blames c (d + 1) x f) : t.Blames c (d + 1) x f := by
  rcases enter_eq_rejected_iff.1 h with ⟨hd, rfl⟩ | ⟨-, h⟩
  · exact .limit hd
  · exact ih h

theorem blames_of_rejected : ∀ {d : Nat} {v : Value} {f : Fault}, s.check c d v = .rejected f →
    s.Blames c d v f := by
  induction s using induction with
  | leaf kind =>
    intro d v f h
    obtain ⟨hk, shown, hc, rfl⟩ := rejected_of_check_leaf h
    exact .leaf hk hc
  | literal expected =>
    intro d v f h
    obtain ⟨he, shownExpected, shown, hc, rfl⟩ := rejected_of_check_literal h
    exact .literal he hc
  | custom own =>
    intro d v f h
    obtain ⟨ht, rfl⟩ := rejected_of_check_custom h
    exact .custom ht
  | array item ih =>
    intro d v f h
    rcases rejected_of_check_array h with ⟨hn, rfl⟩ | ⟨e, before, x, after, f', he, hx, hb, hf, rfl⟩
    · exact .container rfl (Value.isSequence_of_none hn)
    · exact .item he hx hb (blames_of_child hf ih)
  | tuple items ih =>
    intro d v f h
    rcases rejected_of_check_tuple h with
      ⟨hn, rfl⟩ | ⟨e, he, ⟨hl, hz, rfl⟩ | ⟨before, p, after, f', hp, hb, hf, rfl⟩⟩
    · exact .container rfl (Value.isSequence_of_none hn)
    · rcases Nat.lt_or_gt_of_ne hl with hlt | hgt
      · rw [lengthFault_of_lt hlt]
        exact .tooLong he rfl hlt hz
      · rw [lengthFault_of_le (Nat.le_of_lt hgt)]
        exact .tooShort he rfl hgt hz
    · have hm : p.1 ∈ items := (List.of_mem_zip (show p ∈ items.zip e.toList by simp [hp])).1
      exact .position he hp hb (blames_of_child hf (ih p.1 hm))
  | object fields ih =>
    intro d v f h
    rcases rejected_of_check_object h with ⟨hn, rfl⟩ | ⟨es, before, g, after, he, hg, hb, h⟩
    · exact .container rfl (Value.isMapping_of_none hn)
    rcases h with ⟨hx, rfl⟩ | ⟨x, f', hx, hf, rfl⟩
    · exact .absent he hg hb hx
    · unfold fieldFault
      split
      · next hnull =>
        simp only [Bool.and_eq_true, Value.isNull_iff, decide_eq_true_eq] at hnull
        obtain ⟨rfl, hc⟩ := hnull
        exact .null he hg hb hx hf hc
      · exact .field he hg hb hx (blames_of_child hf (ih g (by simp [hg])))
  | union options ih =>
    intro d v f h
    obtain ⟨fs, hfs, rfl⟩ := rejected_of_check_union h
    refine .union hfs.length_eq.symm fun i t g hi hg => ?_
    have hr := rel_getElem?_of_forall₂ hfs i
    rw [hi, hg, Option.rel_some_some] at hr
    exact blames_of_child hr (ih t (List.mem_of_getElem? hi))
  | optional inner ih =>
    intro d v f h
    obtain ⟨hn, hf⟩ := rejected_of_check_optional h
    exact .inner hn (blames_of_child hf ih)
  | table key value ihk ihv =>
    intro d v f h
    rcases rejected_of_check_table h with ⟨hn, rfl⟩ | ⟨es, before, e, after, he, hes, hb, h⟩
    · exact .container rfl (Value.isMapping_of_none hn)
    rcases h with ⟨f', hf, rfl⟩ | ⟨k, hk, ⟨f', hf, rfl⟩ | ⟨ha, hh, rfl⟩⟩
    · cases key with
      | none => simp [checkPart_none] at hf
      | some t =>
        rw [checkPart_some] at hf
        exact .key he hes hb (blames_of_child hf (ihk t rfl))
    · cases value with
      | none => simp [checkPart_none] at hf
      | some t =>
        rw [checkPart_some] at hf
        exact .value he hes hb (Outcome.isAccepted_iff.2 ⟨k, hk⟩) (blames_of_child hf (ihv t rfl))
    · exact .unhashable he hes hb hk hh ha

/-- A validation that fails blames the first part that is not accepted, on every level. -/
theorem blames_of_validate (h : s.validate c v = .rejected f) : s.Blames c 0 v f :=
  blames_of_rejected h

/-- Of a field, an element and an entry that are all at fault the first one of each is blamed. -/
theorem blames_of_validate_first :
    let s : Schema := .object [(.text "a", .leaf .any),
      (.text "b", .tuple [.leaf .string, .table (some (.leaf .string)) (some (.leaf .integer)), .leaf .null]),
      (.text "c", .leaf .string)]
    let v : Value := .dict [(.str "c", .int 0), (.str "b", .list [.str "x", .dict [(.str "k", .int 1),
      (.str "l", .str "y"), (.int 2, .null)], .int 3, .int 4]), (.str "a", .null)]
    ∃ f, s.validate {} v = .rejected f ∧ f.path = [.str "b", .int 1, .str "l"] ∧ s.Blames {} 0 v f := by
  intro s v
  exact ⟨_, rfl, rfl, blames_of_validate rfl⟩

end Schema

end Conform
