import Conform.Path
import Conform.Proofs.Value.Parts
import Mathlib.Data.List.Infix

/-! Following paths. A path leads from a value to a part of a part of it, as long as each token is a key of a
mapping or an index of a sequence. -/

namespace Conform

theorem findSome?_congr_of_mem {α β : Type} {l : List α} {g h : α → Option β}
    (hg : ∀ a ∈ l, g a = h a) : l.findSome? g = l.findSome? h := by
  induction l with
  | nil => rfl
  | cons a l ih =>
    rw [List.forall_mem_cons] at hg
    rw [List.findSome?_cons, List.findSome?_cons, hg.1, ih hg.2]

/-- The last prefix of a list at which a function gives something is the first from the back. -/
theorem findSome?_reverse_inits {α β : Type} {l : List α} : ∀ {g : List α → Option β} {b : β},
    l.inits.reverse.findSome? g = some b →
      ∃ p, p <+: l ∧ g p = some b ∧ ∀ q, q <+: l → (g q).isSome = true → q.length ≤ p.length := by
  induction l with
  | nil =>
    intro g b h
    refine ⟨[], List.prefix_refl _, by simpa using h, fun q hq _ => ?_⟩
    rw [List.prefix_nil.1 hq]
  | cons a l ih =>
    intro g b h
    have hl : (a :: l).inits.reverse = l.inits.reverse.map (fun q => a :: q) ++ [[]] := by
      rw [List.inits_cons, List.reverse_cons, List.map_reverse]
    rw [hl, List.findSome?_append, List.findSome?_map] at h
    cases hf : l.inits.reverse.findSome? (g ∘ fun q => a :: q) with
    | some b' =>
      obtain ⟨p, hp, hb, hmax⟩ := ih hf
      rw [hf, Option.some_or, Option.some.injEq] at h
      subst h
      refine ⟨a :: p, (List.prefix_cons_inj a).2 hp, hb, fun q hq hs => ?_⟩
      cases q with
      | nil => exact Nat.zero_le _
      | cons c q =>
        obtain ⟨rfl, hq'⟩ := List.cons_prefix_cons.1 hq
        exact Nat.succ_le_succ (hmax q hq' hs)
    | none =>
      rw [hf, Option.none_or] at h
      refine ⟨[], List.nil_prefix, by simpa using h, fun q hq hs => ?_⟩
      cases q with
      | nil => exact Nat.le_refl _
      | cons c q =>
        -- nothing is found beyond the first element
        obtain ⟨rfl, hq'⟩ := List.cons_prefix_cons.1 hq
        have hn := List.findSome?_eq_none_iff.1 hf q (List.mem_reverse.2 ((List.mem_inits q l).2 hq'))
        rw [Function.comp_apply] at hn
        simp [hn] at hs

namespace Value

/-- The part of a value at a token. -/
def part? (v token : Value) : Option Value :=
  match v.entries?, v.elements?, token with
  | some es, _, _ => es.get? token
  | none, some e, .int n => if n < 0 then none else e.toList[n.toNat]?
  | _, _, _ => none

/-- What a path leads to, if it leads to something. -/
def follow (v : Value) (path : Path) : Option Value := path.foldlM part? v

@[simp] theorem follow_nil (v : Value) : v.follow [] = some v := rfl

theorem follow_cons (v token : Value) (path : Path) :
    v.follow (token :: path) = (v.part? token).bind fun x => x.follow path := by
  rw [follow, List.foldlM_cons]
  rfl

theorem part?_of_entries? {v token : Value} {es : Entries} (h : v.entries? = some es) :
    v.part? token = es.get? token := by
  simp only [part?, h]

theorem part?_of_elements? {v : Value} {e : Elements} (h : v.elements? = some e) (i : Nat) :
    v.part? (.int i) = e.toList[i]? := by
  have hm : v.entries? = none := by cases v <;> simp [elements?, entries?] at h ⊢
  have hi : ¬ (i : Int) < 0 := by omega
  simp only [part?, hm, h, if_neg hi, Int.toNat_natCast]

/-- What a token leads to. A key that is not even the same as itself is not found by comparing; it leads to
what the entry with this very key holds. -/
def Holds (v token x : Value) : Prop :=
  v.part? token = some x ∨
    (token.same token = false ∧ ∃ es, v.entries? = some es ∧ (token, x) ∈ es)

/-- What a path leads to, token by token. -/
def Reaches : Value → Path → Value → Prop
  | v, [], x => x = v
  | v, token :: path, x => ∃ y, v.Holds token y ∧ y.Reaches path x
termination_by structural _ path => path

theorem reaches_append {p q : Path} : ∀ {v x : Value},
    v.Reaches (p ++ q) x ↔ ∃ y, v.Reaches p y ∧ y.Reaches q x := by
  induction p with
  | nil => simp [Reaches]
  | cons token p ih =>
    intro v x
    simp only [List.cons_append, Reaches, ih]
    refine ⟨fun h => ?_, fun h => ?_⟩
    · obtain ⟨y, hy, z, hz, hx⟩ := h
      exact ⟨z, ⟨y, hy, hz⟩, hx⟩
    · obtain ⟨z, ⟨y, hy, hz⟩, hx⟩ := h
      exact ⟨y, hy, z, hz, hx⟩

theorem reaches_singleton {v token x : Value} (h : v.Holds token x) : v.Reaches [token] x :=
  ⟨x, h, rfl⟩

/-- A path that leads to something does so without its last token. -/
theorem exists_reaches_dropLast {v x : Value} {path : Path} (h : v.Reaches path x) :
    ∃ y, v.Reaches path.dropLast y := by
  rcases List.eq_nil_or_concat path with rfl | ⟨p, token, rfl⟩
  · exact ⟨x, h⟩
  · rw [List.concat_eq_append] at h ⊢
    obtain ⟨y, hy, -⟩ := reaches_append.1 h
    exact ⟨y, by rwa [List.dropLast_concat]⟩

/-- Whether a token is a key of a mapping, as it stands there, or an index of a sequence, and what is there. -/
def Shows (v token x : Value) : Prop :=
  (∃ es, v.entries? = some es ∧ (token, x) ∈ es) ∨
    ∃ e, ∃ i : Nat, v.elements? = some e ∧ token = .int i ∧ e.toList[i]? = some x

/-- Whether a path consists of such tokens all the way. -/
def HasPath : Value → Path → Prop
  | _, [] => True
  | v, token :: path => ∃ x, v.Shows token x ∧ x.HasPath path
termination_by structural _ path => path

theorem shows_list_iff {xs : List Value} {token x : Value} :
    (Value.list xs).Shows token x ↔ ∃ i : Nat, token = .int i ∧ xs[i]? = some x := by
  refine ⟨?_, fun ⟨i, ht, hi⟩ => .inr ⟨_, i, rfl, ht, hi⟩⟩
  rintro (⟨es, h, -⟩ | ⟨e, i, h, ht, hi⟩)
  · cases h
  · obtain rfl := Option.some.inj h
    exact ⟨i, ht, hi⟩

theorem shows_dict_iff {es : Entries} {token x : Value} :
    (Value.dict es).Shows token x ↔ (token, x) ∈ es := by
  refine ⟨?_, fun h => .inl ⟨es, rfl, h⟩⟩
  rintro (⟨fs, h, hm⟩ | ⟨e, i, h, -⟩)
  · obtain rfl := Option.some.inj h
    exact hm
  · cases h

theorem eq_nil_of_hasPath {v : Value} {path : Path} (h : v.HasPath path) (hs : v.elements? = none)
    (hm : v.entries? = none) : path = [] := by
  cases path with
  | nil => rfl
  | cons token path =>
    obtain ⟨x, ⟨es, he, -⟩ | ⟨e, i, he, -⟩, -⟩ := h
    · rw [hm] at he
      cases he
    · rw [hs] at he
      cases he

/-- Whether a token is a name for a mapping or an index for a sequence. -/
def Takes (v token : Value) : Prop :=
  (v.isMapping = true ∧ ∃ s, token = .str s) ∨ (v.isSequence = true ∧ ∃ i : Nat, token = .int i)

/-- Whether a path takes names in mappings and indices in sequences, and ends at what is neither. Where it
leads to nothing it may go on in any way. -/
def Leads : Value → Path → Prop
  | _, [] => True
  | v, token :: path => v.Takes token ∧ ∀ x, v.part? token = some x → x.Leads path
termination_by structural _ path => path

theorem leads_key {v : Value} {es : Entries} {s : String} {path : Path} (he : v.entries? = some es)
    (h : ∀ x, es.get? (.str s) = some x → x.Leads path) : v.Leads (.str s :: path) := by
  refine ⟨.inl ⟨by simp [isMapping, he], s, rfl⟩, ?_⟩
  rwa [part?_of_entries? he]

theorem leads_index {v : Value} {e : Elements} {i : Nat} {path : Path} (he : v.elements? = some e)
    (h : ∀ x, e.toList[i]? = some x → x.Leads path) : v.Leads (.int i :: path) := by
  refine ⟨.inr ⟨by simp [isSequence, he], i, rfl⟩, ?_⟩
  rwa [part?_of_elements? he]

theorem Leads.of_prefix {q : Path} : ∀ {v : Value} {p : Path}, v.Leads p → q <+: p → v.Leads q := by
  induction q with
  | nil =>
    intro v p _ _
    trivial
  | cons token q ih =>
    intro v p hp hq
    obtain ⟨r, rfl⟩ := hq
    exact ⟨hp.1, fun x hx => ih (hp.2 x hx) (List.prefix_append q r)⟩

theorem eq_nil_of_leads {v : Value} {path : Path} (h : v.Leads path) (hs : v.elements? = none)
    (hm : v.entries? = none) : path = [] := by
  cases path with
  | nil => rfl
  | cons token path =>
    obtain ⟨⟨h, -⟩ | ⟨h, -⟩, -⟩ := h
    · simp [isMapping, hm] at h
    · simp [isSequence, hs] at h

end Value

end Conform
