import Conform.Proofs.Path.Following
import Conform.Proofs.Path.Pointer
import Mathlib.Logic.Function.Iterate

/-! The search for the place of a pointer, round by round. A round looks one text up, and without an entry goes
on with what stands before the last slash; it ends at an entry and at the empty text. No round changes what the
search comes to, and each one that does not end takes a slash away as long as there are slashes. So the rounds
end after at most one more than there are slashes, or never: text that does not start with a slash comes down
to what stands before its first slash, and without an entry stays there.

The pointer of a path starts with a slash. The search for it ends at the longest part of the path from its
front that has an entry. -/

namespace Conform

namespace Pointer

/-- What stands before the last slash; all of it if there is none. -/
def parent : List Char → List Char
  | [] => []
  | c :: cs => if '/' ∈ cs then c :: parent cs else if c = '/' then [] else c :: cs

theorem parent_of_not_mem {cs : List Char} (h : '/' ∉ cs) : parent cs = cs := by
  cases cs with
  | nil => rfl
  | cons c cs =>
    rw [List.mem_cons, not_or] at h
    rw [parent, if_neg h.2, if_neg (Ne.symm h.1)]

/-- The parent ends where the last slash is. -/
theorem exists_eq_parent_append {cs : List Char} (h : '/' ∈ cs) :
    ∃ a, '/' ∉ a ∧ cs = parent cs ++ '/' :: a := by
  induction cs with
  | nil => simp at h
  | cons c cs ih =>
    by_cases hs : '/' ∈ cs
    · obtain ⟨a, ha, heq⟩ := ih hs
      refine ⟨a, ha, ?_⟩
      rw [parent, if_pos hs, List.cons_append, ← heq]
    · have hc : c = '/' := ((List.mem_cons.1 h).resolve_right hs).symm
      refine ⟨cs, hs, ?_⟩
      rw [parent, if_neg hs, if_pos hc, hc, List.nil_append]

theorem count_parent {cs : List Char} (h : '/' ∈ cs) : (parent cs).count '/' + 1 = cs.count '/' := by
  obtain ⟨a, ha, heq⟩ := exists_eq_parent_append h
  conv_rhs => rw [heq]
  rw [List.count_append, List.count_cons_self, List.count_eq_zero_of_not_mem ha]

theorem isRooted_parent {cs : List Char} (h : '/' ∈ cs) : isRooted (parent cs) = isRooted cs := by
  cases cs with
  | nil => rfl
  | cons c cs =>
    by_cases hs : '/' ∈ cs
    · rw [parent, if_pos hs, isRooted, isRooted]
    · have hc : c = '/' := ((List.mem_cons.1 h).resolve_right hs).symm
      rw [parent, if_neg hs, if_pos hc, isRooted, isRooted, hc]
      rfl

theorem ancestors_append_slash {a : List Char} (ha : '/' ∉ a) (b front : List Char) :
    ancestors front (b ++ '/' :: a) = (front.reverse ++ b) :: ancestors front b := by
  induction b generalizing front with
  | nil =>
    have hn : ancestors ('/' :: front) a = [] := by
      simpa [ancestors] using ancestors_append ha ('/' :: front) []
    simp [ancestors, hn]
  | cons c b ih =>
    have hc : ancestors front (c :: b) = ancestors (c :: front) b ++ if c = '/' then [front.reverse] else [] :=
      rfl
    rw [List.cons_append, ancestors, ih, hc, List.cons_append, List.reverse_cons, List.append_assoc,
      List.singleton_append]

/-- The search climbs from parent to parent. -/
theorem climb_eq (cs : List Char) : climb cs = cs :: if '/' ∈ cs then climb (parent cs) else [] := by
  rw [climb]
  by_cases hs : '/' ∈ cs
  · obtain ⟨a, ha, heq⟩ := exists_eq_parent_append hs
    have hc : ancestors [] cs = parent cs :: ancestors [] (parent cs) := by
      conv_lhs => rw [heq, ancestors_append_slash ha]
      rw [List.reverse_nil, List.nil_append]
    rw [if_pos hs, hc, climb]
  · have hn : ancestors [] cs = [] := by simpa [ancestors] using ancestors_append hs [] []
    rw [if_neg hs, hn]

theorem mem_ancestors_iff {q cs front : List Char} :
    q ∈ ancestors front cs ↔ ∃ p, q = front.reverse ++ p ∧ p ++ ['/'] <+: cs := by
  induction cs generalizing front with
  | nil => simp [ancestors]
  | cons c cs ih =>
    rw [ancestors, List.mem_append, ih]
    constructor
    · rintro (⟨p, rfl, hp⟩ | h)
      · exact ⟨c :: p, by simp, (List.prefix_cons_inj c).2 hp⟩
      · split at h
        · next hc => exact ⟨[], by simpa using h, by simp [hc]⟩
        · simp at h
    · rintro ⟨_ | ⟨d, p⟩, rfl, hp⟩
      · have hc : '/' = c := (List.cons_prefix_cons.1 hp).1
        exact .inr (by simp [← hc])
      · obtain ⟨rfl, hp'⟩ := List.cons_prefix_cons.1 hp
        exact .inl ⟨p, by simp, hp'⟩

/-- What is looked up is the text and what stands before its slashes. -/
theorem mem_climb_iff {q cs : List Char} : q ∈ climb cs ↔ q = cs ∨ q ++ ['/'] <+: cs := by
  simp [climb, mem_ancestors_iff]

end Pointer

/-- Where a search is: at a text that it looks up next, or at its end, with or without an entry. -/
inductive Stage where
  | looking (cs : List Char)
  | ended (entry : Option Spot)
  deriving DecidableEq, Repr

namespace SourceMap

open Pointer

variable {m : SourceMap} {pointer : String}

def round (m : SourceMap) : Stage → Stage
  | .looking cs =>
    match m.spot? (String.ofList cs) with
    | some s => .ended (some s)
    | none => if cs = [] then .ended none else .looking (parent cs)
  | .ended entry => .ended entry

/-- What a search comes to from a stage on. -/
def outcome (m : SourceMap) : Stage → Search
  | .looking cs => m.search (String.ofList cs)
  | .ended (some s) => .found s
  | .ended none => .absent

/-! The search. -/

theorem search_eq (cs : List Char) :
    m.search (String.ofList cs) =
      match m.spot? (String.ofList cs) with
      | some s => .found s
      | none =>
        if cs = [] then .absent
        else if '/' ∈ cs then m.search (String.ofList (parent cs)) else .endless := by
  rw [search, String.toList_ofList, climb_eq, List.findSome?_cons]
  cases m.spot? (String.ofList cs) with
  | some s => rfl
  | none =>
    cases cs with
    | nil => rfl
    | cons c cs =>
      simp only [if_neg (List.cons_ne_nil c cs)]
      by_cases hs : '/' ∈ c :: cs
      · rw [if_pos hs, if_pos hs, search, String.toList_ofList, isRooted_parent hs]
      · have hc : c ≠ '/' := fun h => hs (h ▸ List.mem_cons_self)
        rw [if_neg hs, if_neg hs, List.findSome?_nil, isRooted, decide_eq_false hc]
        rfl

theorem search_ne_endless_iff :
    m.search pointer ≠ .endless ↔ isRooted pointer.toList = true ∨
      ∃ q, (q = pointer.toList ∨ q ++ ['/'] <+: pointer.toList) ∧
        (m.spot? (String.ofList q)).isSome = true := by
  simp only [← mem_climb_iff, ← List.findSome?_isSome_iff, search]
  cases (climb pointer.toList).findSome? fun cs => m.spot? (String.ofList cs) with
  | some s => simp
  | none => cases isRooted pointer.toList <;> simp

theorem locate?_of_found {s : Spot} (h : m.search pointer = .found s) (file : Option String) :
    m.locate? (some pointer) file = some ⟨file, some pointer, s.line, s.column⟩ := by
  cases m with
  | nil =>
    have hn : ((climb pointer.toList).findSome? fun cs => spot? [] (String.ofList cs)) = none := by
      rw [List.findSome?_eq_none_iff]
      exact fun _ _ => rfl
    simp only [search, hn] at h
    split at h <;> cases h
  | cons e m => simp only [locate?, h]

theorem locate?_of_absent (h : m.search pointer = .absent) (file : Option String) :
    m.locate? (some pointer) file = some ⟨file, some pointer, none, none⟩ := by
  cases m with
  | nil => rfl
  | cons e m => simp only [locate?, h]

theorem locate?_eq_none_iff {file : Option String} :
    m.locate? (some pointer) file = none ↔ m ≠ [] ∧ m.search pointer = .endless := by
  cases m with
  | nil => simp [locate?]
  | cons e m => cases h : search (e :: m) pointer <;> simp [locate?, h]

theorem locate?_of_outcome {e : Option Spot} (h : m.search pointer = m.outcome (.ended e))
    (file : Option String) :
    m.locate? (some pointer) file =
      some ⟨file, some pointer, e.bind (·.line), e.bind (·.column)⟩ := by
  cases e with
  | none => exact locate?_of_absent h file
  | some s => exact locate?_of_found h file

theorem outcome_ended_ne_endless (e : Option Spot) : m.outcome (.ended e) ≠ .endless := by
  cases e <;> simp [outcome]

theorem outcome_ended_inj {e e' : Option Spot} (h : m.outcome (.ended e) = m.outcome (.ended e')) :
    e = e' := by
  cases e <;> cases e' <;> simp_all [outcome]

/-! Rounds. -/

/-- A round does not change what the search comes to. -/
theorem outcome_round (st : Stage) : m.outcome (m.round st) = m.outcome st := by
  cases st with
  | ended e => rfl
  | looking cs =>
    rw [round]
    cases hm : m.spot? (String.ofList cs) with
    | some s => simp only [outcome, search_eq, hm]
    | none =>
      by_cases hn : cs = []
      · rw [outcome, search_eq cs, hm]
        simp only [if_pos hn, outcome]
      · by_cases hs : '/' ∈ cs
        · rw [outcome, search_eq cs, hm]
          simp only [if_neg hn, if_pos hs, outcome]
        · -- without a slash the round leaves the search where it is
          simp only [if_neg hn, parent_of_not_mem hs]

theorem outcome_rounds (n : Nat) (st : Stage) : m.outcome (m.round^[n] st) = m.outcome st := by
  induction n generalizing st with
  | zero => rfl
  | succ n ih => rw [Function.iterate_succ_apply, ih, outcome_round]

/-- A round of a search that has an end ends it or takes a slash away. -/
theorem round_looking {cs : List Char} (h : m.search (String.ofList cs) ≠ .endless) :
    (∃ e, m.round (.looking cs) = .ended e) ∨
      ('/' ∈ cs ∧ m.round (.looking cs) = .looking (parent cs)) := by
  rw [search_eq] at h
  rw [round]
  cases hm : m.spot? (String.ofList cs) with
  | some s => exact .inl ⟨some s, rfl⟩
  | none =>
    by_cases hn : cs = []
    · exact .inl ⟨none, if_pos hn⟩
    · by_cases hs : '/' ∈ cs
      · exact .inr ⟨hs, if_neg hn⟩
      · simp [hm, hn, hs] at h

/-- By induction on the slashes that are left. -/
theorem exists_ended {cs : List Char} {n : Nat} (hn : cs.count '/' = n)
    (h : m.search (String.ofList cs) ≠ .endless) : ∃ e, m.round^[n + 1] (.looking cs) = .ended e := by
  induction n generalizing cs with
  | zero =>
    rcases round_looking h with he | ⟨hs, -⟩
    · exact he
    · have hp := List.count_pos_iff.2 hs
      omega
  | succ n ih =>
    rw [Function.iterate_succ_apply]
    rcases round_looking h with ⟨e, he⟩ | ⟨hs, hr⟩
    · rw [he]
      exact ⟨e, Function.iterate_fixed rfl _⟩
    · have hc := count_parent hs
      have ho : m.search (String.ofList (parent cs)) = m.search (String.ofList cs) := by
        simpa only [hr, outcome] using outcome_round (m := m) (.looking cs)
      rw [hr]
      exact ih (by omega) (by rwa [ho])

/-- The rounds end exactly if the text is empty or starts with a slash, or if it or what stands before one of its
slashes has an entry. Then one round more than there are slashes is enough, and the place is the one that the
rounds end with; there is none if they do not end. -/
theorem rounds_end_iff (m : SourceMap) (pointer : String) (file : Option String) :
    ((∃ n e, m.round^[n] (.looking pointer.toList) = .ended e) ↔ isRooted pointer.toList = true ∨
        ∃ q, (q = pointer.toList ∨ q ++ ['/'] <+: pointer.toList) ∧
          (m.spot? (String.ofList q)).isSome = true) ∧
      (∀ n e, m.round^[n] (.looking pointer.toList) = .ended e →
        m.round^[pointer.toList.count '/' + 1] (.looking pointer.toList) = .ended e ∧
          m.locate? (some pointer) file = some ⟨file, some pointer, e.bind (·.line), e.bind (·.column)⟩) ∧
      (m.locate? (some pointer) file = none ↔
        m ≠ [] ∧ ∀ n e, m.round^[n] (.looking pointer.toList) ≠ .ended e) := by
  have hout (n : Nat) : m.outcome (m.round^[n] (.looking pointer.toList)) = m.search pointer := by
    rw [outcome_rounds, outcome, String.ofList_toList]
  have hends (h : m.search pointer ≠ .endless) :
      ∃ e, m.round^[pointer.toList.count '/' + 1] (.looking pointer.toList) = .ended e :=
    exists_ended rfl (by rwa [String.ofList_toList])
  have hiff : (∃ n e, m.round^[n] (.looking pointer.toList) = .ended e) ↔ m.search pointer ≠ .endless := by
    refine ⟨?_, fun h => ⟨_, hends h⟩⟩
    rintro ⟨n, e, he⟩
    rw [← hout n, he]
    exact outcome_ended_ne_endless e
  refine ⟨by rw [hiff, search_ne_endless_iff], fun n e he => ?_, ?_⟩
  · have hs : m.search pointer = m.outcome (.ended e) := by rw [← hout n, he]
    obtain ⟨e', he'⟩ := hends (hiff.1 ⟨n, e, he⟩)
    have hs' : m.search pointer = m.outcome (.ended e') := by rw [← hout _, he']
    obtain rfl : e = e' := outcome_ended_inj (hs.symm.trans hs')
    exact ⟨he', locate?_of_outcome hs file⟩
  · have hnone : m.search pointer = .endless ↔
        ∀ n e, m.round^[n] (.looking pointer.toList) ≠ .ended e := by
      rw [← not_ne_iff, ← hiff]
      simp only [not_exists, ne_eq]
    rw [locate?_eq_none_iff, hnone]

/-- A text without a slash is its own parent. -/
theorem rounds_without_end :
    let m : SourceMap := [("/a", ⟨some 1, some 1⟩)]
    (∀ n, m.round^[n] (.looking "abc".toList) = .looking "abc".toList) ∧
      m.locate? (some "abc") none = none := by
  intro m
  exact ⟨Function.iterate_fixed (by decide), by decide⟩

/-! Pointers of paths. -/

theorem search_of_path (m : SourceMap) (p : Path) :
    m.search p.pointer = (p.inits.reverse.findSome? fun q => m.spot? (Path.pointer q)).elim .absent .found := by
  have hc : ((climb p.pointer.toList).findSome? fun cs => m.spot? (String.ofList cs)) =
      p.inits.reverse.findSome? fun q => m.spot? (Path.pointer q) := by
    rw [Path.climb_pointer, ← List.map_reverse, List.findSome?_map]
    simp only [Function.comp_def, String.ofList_toList]
  rw [search, hc, Path.toList_pointer, Path.isRooted_chars]
  cases p.inits.reverse.findSome? fun q => m.spot? (Path.pointer q) with
  | none => rfl
  | some s => rfl

/-- The pointer of a path has the place of the longest part of the path from its front that has a non-empty
entry, or none if no part has one. -/
theorem place_of_path (m : SourceMap) (p : Path) (file : Option String) :
    ∃ l, m.locate? (some p.pointer) file = some l ∧ l.file = file ∧ l.pointer = some p.pointer ∧
      ((∃ (q : Path) (s : Spot), q <+: p ∧ m.lookup q.pointer = some s ∧ s.isEmpty = false ∧
          (∀ r : Path, r <+: p → q.length < r.length → m.spot? r.pointer = none) ∧
          l.line = s.line ∧ l.column = s.column) ∨
        ((∀ q : Path, q <+: p → m.spot? q.pointer = none) ∧ l.line = none ∧ l.column = none)) := by
  have hs := m.search_of_path p
  cases hf : p.inits.reverse.findSome? fun q => m.spot? (Path.pointer q) with
  | none =>
    rw [hf] at hs
    refine ⟨_, locate?_of_absent hs file, rfl, rfl, .inr ⟨fun q hq => ?_, rfl, rfl⟩⟩
    exact List.findSome?_eq_none_iff.1 hf q (List.mem_reverse.2 ((List.mem_inits q p).2 hq))
  | some s =>
    rw [hf] at hs
    obtain ⟨q, hq, hspot, hmax⟩ := findSome?_reverse_inits hf
    obtain ⟨hl, hne⟩ := Option.filter_eq_some_iff.1 hspot
    refine ⟨_, locate?_of_found hs file, rfl, rfl, .inl ⟨q, s, hq, hl, by simpa using hne, ?_, rfl, rfl⟩⟩
    intro r hr hlt
    by_contra hn
    have hle := hmax r hr (Option.isSome_iff_ne_none.2 hn)
    omega

/-- An empty entry is passed over, and an escaped slash is no end of a token. -/
example : locate? [("", ⟨some 1, some 1⟩), ("/a~1b", ⟨some 2, some 3⟩), ("/a~1b/c", ⟨none, none⟩)]
    (some (Path.pointer [.str "a/b", .str "c", .int 0])) none =
      some ⟨none, some "/a~1b/c/0", some 2, some 3⟩ := by decide

end SourceMap

end Conform
