import Conform.Proofs.Schema.RemainingDepth
import Conform.Proofs.Schema.Unions

/-! How deep a walk goes. Each call leads one level deeper, and from the limit on calls are refused, so no check is
made below the limit and no more checks are nested than the limit and the one at the top. What a schema holds below
that makes no difference. A path grows by one token where a check passes on the fault of a call, and a check by itself
tells of nothing that is further away than one token, so the paths of faults are no longer either. -/

namespace Conform.Schema

variable {c : Settings} {d n : Nat} {s s' t : Schema} {v x : Value} {f g : Fault}

/-! Nested checks. -/

/-- Checks that are nested in a walk, from the outermost on: each is made by a call of the one before. -/
inductive Stack (c : Settings) : List (Schema × Nat × Value) → Prop
  | single (s : Schema) (d : Nat) (v : Value) : Stack c [(s, d, v)]
  | call {s t : Schema} {d : Nat} {v x : Value} {rest : List (Schema × Nat × Value)} : s.Calls c d v t x →
      (d : Int) < c.depthLimit → Stack c ((t, d + 1, x) :: rest) → Stack c ((s, d, v) :: (t, d + 1, x) :: rest)

theorem Stack.depth_le {rest : List (Schema × Nat × Value)} (h : Stack c ((s, d, v) :: rest)) :
    (d + rest.length : Int) ≤ max c.depthLimit d := by
  induction rest generalizing s d v with
  | nil =>
    rw [List.length_nil]
    omega
  | cons r rest ih =>
    cases h with
    | call _ hd h =>
      have := ih h
      rw [List.length_cons]
      omega

/-- Every check that is made is the innermost of some that are nested. -/
theorem exists_stack_of_visits (h : s.Visits c d v t n x) :
    ∃ rest, Stack c ((s, d, v) :: rest) ∧ ((s, d, v) :: rest).getLast? = some (t, n, x) ∧ n = d + rest.length := by
  induction h with
  | here s d v => exact ⟨[], .single s d v, rfl, rfl⟩
  | @call s t u d n v x y hc hd _ ih =>
    obtain ⟨rest, hs, hl, hn⟩ := ih
    refine ⟨(t, d + 1, x) :: rest, .call hc hd hs, ?_, ?_⟩
    · rw [List.getLast?_cons_cons, hl]
    · rw [List.length_cons]
      omega

theorem depth_le_of_visits (h : s.Visits c d v t n x) : (n : Int) ≤ max c.depthLimit d := by
  obtain ⟨rest, hs, -, rfl⟩ := exists_stack_of_visits h
  exact hs.depth_le

/-! What stands deeper. -/

theorem SameForm.imp {R R' : Schema → Schema → Prop} (hR : ∀ t t', R t t' → R' t t') (h : SameForm R s s') :
    SameForm R' s s' := by
  have part_imp {part part' : Option Schema} (hp : Option.Rel R part part') : Option.Rel R' part part' := by
    cases hp with
    | none => exact .none
    | some hp => exact .some (hR _ _ hp)
  cases h with
  | leaf kind => exact .leaf kind
  | literal expected => exact .literal expected
  | custom own => exact .custom own
  | array ht => exact .array (hR _ _ ht)
  | tuple hs => exact .tuple (hs.imp hR)
  | object hs => exact .object (hs.imp fun _ _ h => ⟨h.1, hR _ _ h.2⟩)
  | union hs => exact .union (hs.imp hR)
  | optional ht => exact .optional (hR _ _ ht)
  | table hk hv => exact .table (part_imp hk) (part_imp hv)

/-- Whether two schemas are the same on their first levels, whatever stands deeper. -/
def SameTo : Nat → Schema → Schema → Prop
  | 0, _, _ => True
  | n + 1, s, s' => SameForm (SameTo n) s s'

theorem check_eq_of_sameTo (hn : c.depthLimit ≤ d + n) (h : SameTo (n + 1) s s') (v : Value) :
    s.check c d v = s'.check c d v := by
  induction n generalizing d s s' v with
  | zero =>
    refine (alike_check (l := c.depthLimit) rfl (h.imp fun t t' _ x => ?_) v).eq
    rw [child, child, enter, enter, if_pos (by simpa using hn), if_pos (by simpa using hn)]
    exact .rejected .tooDeep
  | succ n ih =>
    refine (alike_check (l := c.depthLimit) rfl (h.imp fun t t' ht x => ?_) v).eq
    unfold child enter
    split
    · exact .rejected .tooDeep
    · rw [ih (by omega) ht x]
      exact alike_check_of_remaining t' c c rfl rfl x

/-! The lengths of paths. -/

/-- A fault stands at most one token further away than the fault of a call that it comes from, if it comes from
one. -/
theorem length_path_of_rejected (h : s.check c d v = .rejected f) :
    f.path.length ≤ 1 ∨ ∃ t ∈ s.parts, ∃ x f', t.child c d x = .rejected f' ∧
      f.path.length ≤ f'.path.length + 1 := by
  cases s with
  | leaf kind =>
    obtain ⟨-, shown, -, rfl⟩ := rejected_of_check_leaf h
    exact .inl (Nat.zero_le 1)
  | literal expected =>
    obtain ⟨-, shownExpected, shown, -, rfl⟩ := rejected_of_check_literal h
    exact .inl (Nat.zero_le 1)
  | custom own =>
    obtain ⟨-, rfl⟩ := rejected_of_check_custom h
    exact .inl (Nat.zero_le 1)
  | array item =>
    rcases rejected_of_check_array h with ⟨-, rfl⟩ | ⟨e, before, x, after, f', he, hx, hb, hf, rfl⟩
    · exact .inl (Nat.zero_le 1)
    · exact .inr ⟨item, item_mem_parts, x, f', hf, by simp⟩
  | tuple items =>
    rcases rejected_of_check_tuple h with
      ⟨-, rfl⟩ | ⟨e, he, ⟨-, -, rfl⟩ | ⟨before, p, after, f', hp, hb, hf, rfl⟩⟩
    · exact .inl (Nat.zero_le 1)
    · unfold lengthFault
      split <;> exact .inl (Nat.le_refl 1)
    · have hm : p ∈ items.zip e.toList := by simp [hp]
      exact .inr ⟨p.1, (List.of_mem_zip hm).1, p.2, f', hf, by simp⟩
  | object fields =>
    rcases rejected_of_check_object h with
      ⟨-, rfl⟩ | ⟨es, before, g, after, he, hg, hb, ⟨-, rfl⟩ | ⟨x, f', hx, hf, rfl⟩⟩
    · exact .inl (Nat.zero_le 1)
    · exact .inl (Nat.le_refl 1)
    · have hm : g ∈ fields := by simp [hg]
      unfold fieldFault
      split
      · exact .inl (Nat.le_refl 1)
      · exact .inr ⟨g.2, field_mem_parts hm, x, f', hf, by simp⟩
  | union options =>
    obtain ⟨fs, -, rfl⟩ := rejected_of_check_union h
    exact .inl (Nat.zero_le 1)
  | optional inner =>
    obtain ⟨-, hf⟩ := rejected_of_check_optional h
    exact .inr ⟨inner, inner_mem_parts, v, f, hf, Nat.le_succ _⟩
  | table key value =>
    rcases rejected_of_check_table h with
      ⟨-, rfl⟩ | ⟨es, before, e, after, he, hes, hb, ⟨f', hf, rfl⟩ | ⟨k, hk, ⟨f', hf, rfl⟩ | ⟨-, -, rfl⟩⟩⟩
    · exact .inl (Nat.zero_le 1)
    · cases key with
      | none => simp [checkPart_none] at hf
      | some t =>
        rw [checkPart_some] at hf
        exact .inr ⟨t, key_mem_parts rfl, e.1, f', hf, by simp⟩
    · cases value with
      | none => simp [checkPart_none] at hf
      | some t =>
        rw [checkPart_some] at hf
        exact .inr ⟨t, value_mem_parts rfl, e.2, f', hf, by simp⟩
    · exact .inl (Nat.le_refl 1)

theorem length_path_le (h : s.check c d v = .rejected f) :
    (f.path.length : Int) ≤ max (c.depthLimit - d) 0 + 1 := by
  induction s using parts_induction generalizing d v f with
  | step s ih =>
    rcases length_path_of_rejected h with hl | ⟨t, ht, x, f', hf, hl⟩
    · omega
    rcases enter_eq_rejected_iff.1 hf with ⟨-, rfl⟩ | ⟨hd, hf⟩
    · have : (Fault.here (.tooDeep c.depthLimit)).path.length = 0 := rfl
      omega
    · have := ih t ht hf
      omega

/-- What holds of the faults in the fault of a check one level deeper holds of those in that of the call. -/
theorem length_path_le_of_child (hf : t.child c d x = .rejected f) (hg : f.Contains g)
    (ih : t.check c (d + 1) x = .rejected f → (g.path.length : Int) ≤ max (c.depthLimit - ↑(d + 1)) 0 + 1) :
    (g.path.length : Int) ≤ max (c.depthLimit - d) 0 + 1 := by
  rcases enter_eq_rejected_iff.1 hf with ⟨-, rfl⟩ | ⟨hd, hf⟩
  · rw [Fault.eq_of_contains rfl hg]
    have : (Fault.here (.tooDeep c.depthLimit)).path.length = 0 := rfl
    omega
  · have := ih hf
    omega

theorem length_path_le_of_contains : ∀ {d : Nat} {v : Value} {f g : Fault}, s.check c d v = .rejected f →
    f.Contains g → (g.path.length : Int) ≤ max (c.depthLimit - d) 0 + 1 := by
  induction s using parts_induction with
  | step s ih =>
    intro d v f g h hf
    cases hf with
    | self => exact length_path_le h
    | @rejection _ e _ i hm he =>
      rcases origin_of_rejected h with
        ⟨-, -, hr, -⟩ | ⟨options, fs, rfl, hfs, rfl⟩ | ⟨t, x, f', hc, hf', heq⟩
      · simp [hr] at hm
      · obtain ⟨t, ht, hte⟩ := exists_mem_of_forall₂ hfs.flip (mem_numbered hm)
        exact length_path_le_of_child hte he fun hte => ih t ht hte he
      · have hcause : f.cause = f'.cause := by
          rcases heq with rfl | ⟨token, rfl⟩
          · rfl
          · exact Fault.cause_under token f'
        have he' : f'.Contains g := .rejection (hcause ▸ hm) he
        exact length_path_le_of_child hf' he' fun hf' => ih t hc.mem_parts hf' he'

/-- No check of a validation is made below the limit, and no more checks are nested than the limit and one, whatever
the heights of the schema and of the value; what the schema holds below that makes no difference. No path is longer,
neither that of the fault nor those of the faults in it. -/
theorem validate_within_limit (s : Schema) (c : Settings) (v : Value) :
    (∀ t n x, s.Visits c 0 v t n x → (n : Int) ≤ max c.depthLimit 0) ∧
      (∀ rest, Stack c ((s, 0, v) :: rest) → (((s, 0, v) :: rest).length : Int) ≤ max c.depthLimit 0 + 1) ∧
      (∀ s', SameTo (c.depthLimit.toNat + 1) s s' → s'.validate c v = s.validate c v) ∧
      ∀ f g, s.validate c v = .rejected f → f.Contains g → (g.path.length : Int) ≤ max c.depthLimit 0 + 1 := by
  refine ⟨fun t n x h => depth_le_of_visits h, fun rest h => ?_, fun s' h => ?_, fun f g h hg => ?_⟩
  · have := h.depth_le
    rw [List.length_cons]
    omega
  · exact (check_eq_of_sameTo (by omega) h v).symm
  · simpa using length_path_le_of_contains h hg

/-- Two nested checks and two tokens under the limit 1. -/
theorem validate_within_limit_reached :
    let t : Schema := .object [(.text "b", .leaf .any)]
    let s : Schema := .object [(.text "a", t)]
    let v : Value := .dict [(.str "a", .dict [])]
    let c : Settings := { depthLimit := 1 }
    Stack c [(s, 0, v), (t, 1, .dict [])] ∧
      (([(s, 0, v), (t, 1, .dict [])] : List (Schema × Nat × Value)).length : Int) ≤ max 1 0 + 1 ∧
      ∃ f, s.validate c v = .rejected f ∧ f.path = [.str "a", .str "b"] ∧ (f.path.length : Int) ≤ max 1 0 + 1 := by
  intro t s v c
  obtain ⟨-, hs, -, hp⟩ := validate_within_limit s c v
  have hstack : Stack c [(s, 0, v), (t, 1, .dict [])] :=
    .call (.field rfl (.inl rfl) rfl) (by decide) (.single t 1 (.dict []))
  have hf : s.validate c v = .rejected (.under (.str "a") (missing (.text "b"))) := rfl
  exact ⟨hstack, hs _ hstack, _, hf, rfl, hp _ _ hf (.self _)⟩

end Conform.Schema
