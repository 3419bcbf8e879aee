import Conform.Logging
import Mathlib.Data.List.Chain
import Mathlib.Data.List.Infix

/-! The loggers above a logger. By its name these are the ones whose names stand before the dots of its own,
and the root. The parents that logging finds are the ones of them that are in use, with two exceptions: of two
dots in a row only the later one separates, and a logger whose name begins the name of the root is not found
by a logger that was in use before it. Elsewhere whatever is looked for along the parents, and cannot be at a
logger that is as new, is found along the names. -/

namespace Conform.Logging

/-- What stands before the dots of a name that is turned round, the longest first. -/
def heads : List Char → List (List Char)
  | [] => []
  | c :: cs => if c = '.' ∧ cs ≠ [] then cs.reverse :: heads cs else heads cs

/-- The names that stand before the dots of a name, the longest first. -/
def ancestors (name : String) : List String := (heads name.toList.reverse).map String.ofList

/-- A logger, the ones above it by its name, and the root. -/
def lineage (name : String) : List String := name :: (ancestors name ++ [rootName])

/-- Whether no two dots of a name stand in a row. -/
def HasSingleDots (name : String) : Prop := name.toList.IsChain fun c d => ¬ (c = '.' ∧ d = '.')

instance (name : String) : Decidable (HasSingleDots name) :=
  inferInstanceAs (Decidable (name.toList.IsChain _))

theorem mem_heads_iff {p cs : List Char} : p ∈ heads cs ↔ p ≠ [] ∧ ∃ rest, cs = rest ++ '.' :: p.reverse := by
  induction cs with
  | nil => simp [heads]
  | cons c cs ih =>
    rw [heads]
    split
    · next h =>
      obtain ⟨rfl, hcs⟩ := h
      rw [List.mem_cons, ih]
      constructor
      · rintro (rfl | ⟨hp, rest, rfl⟩)
        · exact ⟨by simpa using hcs, [], by simp⟩
        · exact ⟨hp, '.' :: rest, rfl⟩
      · rintro ⟨hp, _ | ⟨_, rest⟩, h⟩
        · simp only [List.nil_append, List.cons.injEq, true_and] at h
          exact .inl (by simp [h])
        · exact .inr ⟨hp, rest, (List.cons.inj h).2⟩
    · next h =>
      rw [ih]
      refine and_congr_right fun hp => ⟨fun ⟨rest, hr⟩ => ⟨c :: rest, by rw [hr]; rfl⟩, ?_⟩
      rintro ⟨_ | ⟨_, rest⟩, hr⟩
      · simp only [List.nil_append, List.cons.injEq] at hr
        exact absurd ⟨hr.1, by simpa [hr.2] using hp⟩ h
      · exact ⟨rest, (List.cons.inj hr).2⟩

/-- The ancestors of a logger are the names that a dot ends in its own. -/
theorem mem_ancestors_iff {a name : String} :
    a ∈ ancestors name ↔ a ≠ "" ∧ ∃ rest : String, name = a ++ "." ++ rest := by
  have toList_ne {cs : List Char} : cs ≠ [] ↔ String.ofList cs ≠ "" := by
    rw [← not_iff_not, not_not, not_not, ← String.toList_inj, String.toList_ofList]
    rfl
  rw [ancestors, List.mem_map]
  constructor
  · rintro ⟨p, hp, rfl⟩
    obtain ⟨hne, rest, hr⟩ := mem_heads_iff.1 hp
    refine ⟨toList_ne.1 hne, String.ofList rest.reverse, ?_⟩
    rw [List.reverse_eq_iff] at hr
    rw [← String.toList_inj, hr]
    simp
  · rintro ⟨hne, rest, rfl⟩
    refine ⟨a.toList, mem_heads_iff.2 ⟨?_, rest.toList.reverse, by simp⟩, String.ofList_toList⟩
    rwa [toList_ne, String.ofList_toList]

theorem length_lt_of_mem_ancestors {a name : String} (h : a ∈ ancestors name) : a.length < name.length := by
  obtain ⟨-, rest, rfl⟩ := mem_ancestors_iff.1 h
  simp only [String.length_append]
  have : ".".length = 1 := rfl
  omega

theorem mem_ancestors_trans {a b name : String} (hb : b ∈ ancestors a) (ha : a ∈ ancestors name) :
    b ∈ ancestors name := by
  obtain ⟨-, rest, rfl⟩ := mem_ancestors_iff.1 ha
  obtain ⟨hne, rest', rfl⟩ := mem_ancestors_iff.1 hb
  exact mem_ancestors_iff.2 ⟨hne, rest' ++ "." ++ rest, by simp only [String.append_assoc]⟩

/-- Behind an ancestor come its own, and it is one of those before it. -/
theorem ancestors_of_eq_append {a name : String} {nearer farther : List String}
    (h : ancestors name = nearer ++ a :: farther) :
    farther = ancestors a ∧ ∀ b ∈ nearer, a ∈ ancestors b := by
  have heads_of_eq_append {p : List Char} : ∀ {cs : List Char} {nearer farther : List (List Char)},
      heads cs = nearer ++ p :: farther →
      farther = heads p.reverse ∧ ∀ q ∈ nearer, p ∈ heads q.reverse := by
    intro cs
    induction cs with
    | nil => simp [heads]
    | cons c cs ih =>
      intro nearer farther h
      rw [heads] at h
      split at h
      · cases nearer with
        | nil =>
          obtain ⟨rfl, rfl⟩ := List.cons.inj h
          simp
        | cons q nearer =>
          obtain ⟨rfl, hq⟩ := List.cons.inj h
          obtain ⟨hf, hn⟩ := ih hq
          refine ⟨hf, List.forall_mem_cons.2 ⟨?_, hn⟩⟩
          rw [List.reverse_reverse, hq]
          exact List.mem_append_right _ List.mem_cons_self
      · exact ih h
  obtain ⟨ps, qs, hpq, rfl, hq⟩ := List.map_eq_append_iff.1 h
  obtain ⟨p, rs, rfl, rfl, rfl⟩ := List.map_eq_cons_iff.1 hq
  obtain ⟨hf, hn⟩ := heads_of_eq_append hpq
  refine ⟨by rw [ancestors, String.toList_ofList, hf], fun b hb => ?_⟩
  obtain ⟨q, hq, rfl⟩ := List.mem_map.1 hb
  rw [ancestors, String.toList_ofList]
  exact List.mem_map_of_mem (hn q hq)

theorem ancestors_root : ancestors rootName = [] := by decide

theorem HasSingleDots.of_mem_ancestors {a name : String} (hs : HasSingleDots name)
    (h : a ∈ ancestors name) : HasSingleDots a := by
  obtain ⟨-, rest, rfl⟩ := mem_ancestors_iff.1 h
  rw [HasSingleDots, String.toList_append, String.toList_append, List.append_assoc] at hs
  exact hs.left_of_append

/-! The parents. -/

/-- Without dots in a row every dot separates. -/
theorem stems_eq_heads {cs : List Char} (h : cs.IsChain fun c d => ¬ (c = '.' ∧ d = '.')) :
    stems cs = heads cs := by
  fun_induction stems cs with
  | case1 c cs ih =>
    have hc : ¬ (c = '.' ∧ cs ≠ []) := fun hc => (List.isChain_cons_cons.1 h).1 ⟨rfl, hc.1⟩
    rw [ih h.tail.tail, heads, if_pos ⟨rfl, by simp⟩, heads, if_neg hc]
  | case2 c cs hcs ih =>
    rw [ih h.tail, heads, if_neg]
    rintro ⟨rfl, hne⟩
    obtain ⟨d, ds, rfl⟩ := List.exists_cons_of_ne_nil hne
    exact hcs d ds rfl rfl
  | case3 => rfl

theorem stems_of_hasSingleDots {name : String} (h : HasSingleDots name) :
    (stems name.toList.reverse).map String.ofList = ancestors name := by
  rw [ancestors, stems_eq_heads]
  rw [List.isChain_reverse]
  exact h.imp fun _ _ hcd hdc => hcd ⟨hdc.2, hdc.1⟩

namespace Loggers

variable {ls : Loggers} {name : String}

/-- Whether a logger came into use before another one. -/
def precedes (ls : Loggers) (a n : String) : Bool := Loggers.isUsed (ls.takeWhile (·.1 ≠ n)) a

/-- Whether no logger of a lineage was in use before one above it whose name begins the name of the root. -/
def InOrder (ls : Loggers) (name : String) : Prop :=
  ∀ n ∈ name :: ancestors name, ∀ a ∈ ancestors n, a ∈ ["r", "ro", "roo"] → ls.isUsed a = true →
    ls.precedes a n = true

instance (ls : Loggers) (name : String) : Decidable (ls.InOrder name) :=
  inferInstanceAs (Decidable (∀ n ∈ name :: ancestors name, ∀ a ∈ ancestors n, _ → _ → _))

theorem InOrder.of_mem_ancestors {a : String} (ho : ls.InOrder name) (h : a ∈ ancestors name) :
    ls.InOrder a := by
  intro n hn
  refine ho n (List.mem_cons_of_mem _ ?_)
  rcases List.mem_cons.1 hn with rfl | hn
  · exact h
  · exact mem_ancestors_trans hn h

/-- The names of the loggers in use, in the order in which they came into use. -/
abbrev names (ls : Loggers) : List String := ls.map (·.1)

theorem isUsed_iff {a : String} : ls.isUsed a = true ↔ a ∈ ls.names := by
  rw [isUsed, List.lookup_isSome_iff, List.mem_map]
  simp only [beq_iff_eq, @eq_comm _ a]

theorem precedes_iff {a n : String} : ls.precedes a n = true ↔ a ∈ ls.names.takeWhile (· ≠ n) := by
  rw [precedes, isUsed_iff, names, names, List.takeWhile_map]
  rfl

theorem mem_of_begins_root {a : String} (h : a ≠ "") (hr : a ≠ rootName)
    (hb : a.toList.isPrefixOf rootName.toList = true) : a ∈ ["r", "ro", "roo"] := by
  rw [List.isPrefixOf_iff_prefix, ← List.mem_inits] at hb
  have hm : a.toList ∈ ["", "r", "ro", "roo", "root"].map String.toList := hb
  rw [List.mem_map_of_injective fun _ _ => String.toList_inj.1] at hm
  simp only [List.mem_cons, List.not_mem_nil, or_false] at hm ⊢
  rcases hm with hm | hm | hm | hm | hm
  · exact absurd hm h
  · exact .inl hm
  · exact .inr (.inl hm)
  · exact .inr (.inr hm)
  · exact absurd hm hr

/-- Ancestors that are in use are found, where all is in order; the root needs not be found. -/
theorem finds_eq {a : String} (ho : ls.InOrder name) (h : a ∈ ancestors name) (hr : a ≠ rootName) :
    ls.finds name a = ls.isUsed a := by
  rw [finds]
  split
  · next hb =>
    have hm := mem_of_begins_root (mem_ancestors_iff.1 h).1 hr hb
    rw [Bool.eq_iff_iff]
    refine ⟨fun hu => ?_, ho name List.mem_cons_self a h hm⟩
    rw [isUsed_iff] at hu ⊢
    exact ((List.takeWhile_sublist _).map _).subset hu
  · rfl

theorem chainWithin_root (n : Nat) : ls.chainWithin n rootName = [rootName] := by
  cases n <;> simp [chainWithin]

theorem find?_append_cons {p : String → Bool} {xs ys : List String} {r : String}
    (h : ∀ x ∈ xs, p x = false ∨ x = r) : (xs ++ r :: ys).find? p = (r :: ys).find? p := by
  induction xs with
  | nil => rfl
  | cons x xs ih =>
    obtain ⟨hx, hxs⟩ := List.forall_mem_cons.1 h
    rw [List.cons_append, List.find?_cons]
    cases hp : p x with
    | false => exact ih hxs
    | true =>
      obtain rfl := hx.resolve_left (by simp [hp])
      rw [List.find?_cons, hp]

/-- What is looked for along the parents, and is not at loggers that are not in use, is found along the
lineage. -/
theorem find?_chain {p : String → Bool} (hs : HasSingleDots name) (ho : ls.InOrder name)
    (hp : ∀ n, n ≠ rootName → ls.isUsed n = false → p n = false) :
    (ls.chain name).find? p = (lineage name).find? p := by
  have hroot : (lineage rootName).find? p = [rootName].find? p := by
    rw [lineage, ancestors_root, List.nil_append]
    cases h : p rootName <;> simp [h]
  have find?_chainWithin {n : Nat} {name : String} (hn : name.length < n)
      (hs : HasSingleDots name) (ho : ls.InOrder name) :
      (ls.chainWithin n name).find? p = (lineage name).find? p := by
    induction n generalizing name with
    | zero => omega
    | succ n ih =>
      rw [chainWithin]
      split
      · next hr => rw [hr, hroot]
      · next hr =>
        rw [lineage, List.find?_cons, List.find?_cons]
        cases p name with
        | true => rfl
        | false =>
          rw [parent, stems_of_hasSingleDots hs]
          have unused {a : String} (ha : a ∈ ancestors name) (hf : ls.finds name a = false) :
              p a = false ∨ a = rootName := by
            by_cases hr : a = rootName
            · exact .inr hr
            · rw [finds_eq ho ha hr] at hf
              exact .inl (hp a hr hf)
          cases hf : (ancestors name).find? (ls.finds name) with
          | none =>
            have hn := List.find?_eq_none.1 hf
            rw [Option.getD_none, chainWithin_root]
            exact (find?_append_cons fun a ha => unused ha (by simpa using hn a ha)).symm
          | some a =>
            obtain ⟨-, nearer, farther, hnf, hn⟩ := List.find?_eq_some_iff_append.1 hf
            obtain ⟨rfl, habove⟩ := ancestors_of_eq_append hnf
            have ha : a ∈ ancestors name := by simp [hnf]
            have hla := length_lt_of_mem_ancestors ha
            rw [Option.getD_some, ih (by omega) (hs.of_mem_ancestors ha) (ho.of_mem_ancestors ha),
              hnf, List.append_assoc, List.cons_append, find?_append_cons]
            · rfl
            · intro b hb
              rcases unused (a := b) (by simp [hnf, hb]) (by simpa using hn b hb) with h | rfl
              · exact .inl h
              · -- the root has no ancestors
                have := habove _ hb
                rw [ancestors_root] at this
                cases this
  exact find?_chainWithin (Nat.lt_succ_self _) hs ho

end Loggers

end Conform.Logging
