import Conform.Proofs.Schema.Unions

/-! The depth limit. A call from a depth that reaches the limit is refused. A walk in which no call is refused
is the same under every larger limit. No call is refused where the limit allows for the height of the schema,
and none where a schema without unions accepts, since only a union goes on after a refusal. That is why a union
may give one value under a small limit and another one under a large limit.

A fault that tells of the limit comes from a call that was refused, wherever it is in the fault of the walk. So
a limit that allows for the height cannot be told from any other such limit. -/

namespace Conform.Schema

variable {c : Settings} {d : Nat} {s t : Schema} {v w x : Value}

/-- Whether the limit refuses a call in a walk. -/
def IsCut (c : Settings) (s : Schema) (d : Nat) (v : Value) : Prop :=
  ∃ t n x u y, s.Visits c d v t n x ∧ t.Calls c n x u y ∧ c.depthLimit ≤ n

theorem IsCut.of_refused (h : s.Calls c d v t x) (hd : c.depthLimit ≤ d) : s.IsCut c d v :=
  ⟨s, d, v, t, x, .here s d v, h, hd⟩

theorem IsCut.of_call (h : s.Calls c d v t x) (hd : (d : Int) < c.depthLimit)
    (ht : t.IsCut c (d + 1) x) : s.IsCut c d v := by
  obtain ⟨u, n, y, r, z, hv, hc, hn⟩ := ht
  exact ⟨u, n, y, r, z, .call h hd hv, hc, hn⟩

theorem isCut_iff : s.IsCut c d v ↔
    ∃ t x, s.Calls c d v t x ∧ (c.depthLimit ≤ d ∨ t.IsCut c (d + 1) x) := by
  constructor
  · rintro ⟨t, n, x, u, y, hv, hc, hn⟩
    cases hv with
    | here => exact ⟨u, y, hc, .inl hn⟩
    | @call _ r _ _ _ _ z _ hc' _ hv => exact ⟨r, z, hc', .inr ⟨t, n, x, u, y, hv, hc, hn⟩⟩
  · rintro ⟨t, x, hc, hd | ht⟩
    · exact .of_refused hc hd
    · rcases Int.lt_or_le d c.depthLimit with hd | hd
      · exact .of_call hc hd ht
      · exact .of_refused hc hd

theorem check_eq_of_not_isCut {c' : Settings} (hr : c'.reprLimit = c.reprLimit)
    (hl : c.depthLimit ≤ c'.depthLimit) (h : ¬ s.IsCut c d v) : s.check c d v = s.check c' d v := by
  induction s using parts_induction generalizing d v with
  | step s ih =>
    apply check_congr hr
    intro t x hc
    rcases Int.lt_or_le d c.depthLimit with hd | hd
    · rw [child_eq_check hd, child_eq_check (by omega)]
      exact ih t hc.mem_parts fun ht => h (.of_call hc hd ht)
    · exact absurd (IsCut.of_refused hc hd) h

theorem not_isCut_of_height_le (h : (d + s.height : Int) ≤ c.depthLimit) : ¬ s.IsCut c d v := by
  induction s using parts_induction generalizing d v with
  | step s ih =>
    intro hcut
    obtain ⟨t, x, hc, ht⟩ := isCut_iff.1 hcut
    have hh := height_lt_of_mem_parts hc.mem_parts
    rcases ht with hd | ht
    · omega
    · exact ih t hc.mem_parts (by omega) ht

/-! Schemas without unions. -/

def hasNoUnion (s : Schema) : Bool :=
  s.everywhere fun
    | .union _ => false
    | _ => true

/-- What is accepted was accepted in all its parts, but for the options of a union. -/
theorem child_isAccepted_of_calls (hs : s.hasNoUnion = true) (h : (s.check c d v).isAccepted = true)
    (hc : s.Calls c d v t x) : (t.child c d x).isAccepted = true := by
  cases hc with
  | item he hx =>
    obtain ⟨e, he', h⟩ := isAccepted_check_array_iff.1 h
    obtain rfl := Option.some.inj (he.symm.trans he')
    exact h x (mem_of_comesTo hx)
  | position he _ hp =>
    obtain ⟨e, he', -, -, h⟩ := isAccepted_check_tuple_iff.1 h
    obtain rfl := Option.some.inj (he.symm.trans he')
    exact h (t, x) (mem_of_comesTo hp)
  | field he hf hx =>
    obtain ⟨es, he', h⟩ := isAccepted_check_object_iff.1 h
    obtain rfl := Option.some.inj (he.symm.trans he')
    obtain ⟨y, hy, ha⟩ := h _ (mem_of_comesTo hf)
    rwa [Option.some.inj (hx.symm.trans hy)]
  | option => exact absurd (here_of_everywhere hs) (by simp)
  | inner hn => exact (isAccepted_check_optional_iff.1 h).resolve_left (by simp [hn])
  | key he hm =>
    obtain ⟨es, he', ⟨hk, -⟩ | h⟩ := isAccepted_check_table_iff.1 h
    · simp at hk
    · obtain rfl := Option.some.inj (he.symm.trans he')
      obtain ⟨k, hk, -⟩ := h _ (mem_of_comesTo hm)
      rw [checkPart_some] at hk
      exact Outcome.isAccepted_iff.2 ⟨k, hk⟩
  | value he hm _ =>
    obtain ⟨es, he', ⟨-, hv⟩ | h⟩ := isAccepted_check_table_iff.1 h
    · simp at hv
    · obtain rfl := Option.some.inj (he.symm.trans he')
      obtain ⟨k, -, -, hv⟩ := h _ (mem_of_comesTo hm)
      rwa [checkPart_some] at hv

theorem not_isCut_of_isAccepted (hs : s.hasNoUnion = true) (h : (s.check c d v).isAccepted = true) :
    ¬ s.IsCut c d v := by
  induction s using parts_induction generalizing d v with
  | step s ih =>
    intro hcut
    obtain ⟨t, x, hc, ht⟩ := isCut_iff.1 hcut
    obtain ⟨hd, hx⟩ := isAccepted_enter_iff.1 (child_isAccepted_of_calls hs h hc)
    rcases ht with hd' | ht
    · omega
    · exact ih t hc.mem_parts (everywhere_of_mem_parts hs hc.mem_parts) hx ht

/-- What is accepted is accepted with the same result under a larger limit, if the limit refused no call or if
the schema has no unions. -/
theorem validate_of_depthLimit_le {s : Schema} {c : Settings} {v w : Value} {limit : Int}
    (hl : c.depthLimit ≤ limit) (hs : s.hasNoUnion = true ∨ ¬ s.IsCut c 0 v)
    (h : s.validate c v = .accepted w) :
    s.validate { c with depthLimit := limit } v = .accepted w := by
  have hn : ¬ s.IsCut c 0 v := by
    rcases hs with hs | hs
    · exact not_isCut_of_isAccepted hs (Outcome.isAccepted_iff.2 ⟨w, h⟩)
    · exact hs
  rw [← h]
  refine (check_eq_of_not_isCut ?_ hl hn).symm
  rfl

theorem validate_union_of_depthLimit_le :
    let s : Schema := .union [.array (.array (.leaf .string)), .array (.leaf .integer), .leaf .any]
    let v : Value := .seq .tuple [.int 1]
    s.validate { depthLimit := 3 } v = .accepted (.list [.int 1]) ∧
      s.validate { depthLimit := 100 } v = .accepted (.list [.int 1]) := by
  intro s v
  have h : s.validate { depthLimit := 3 } v = .accepted (.list [.int 1]) := by rfl
  have hn : ¬ s.IsCut { depthLimit := 3 } 0 v := not_isCut_of_height_le (by decide)
  exact ⟨h, validate_of_depthLimit_le (by decide) (.inr hn) h⟩

/-- A larger limit may change the result, and may turn it into a rejection: an option that the small limit cut
off takes the value. -/
theorem validate_not_of_depthLimit_le :
    let s : Schema := .union [.array (.leaf .integer), .leaf .any]
    let v : Value := .seq .tuple [.int 1]
    let es : Entries := [(v, .int 0)]
    s.validate { depthLimit := 1 } v = .accepted v ∧
      s.validate { depthLimit := 2 } v = .accepted (.list [.int 1]) ∧ v ≠ .list [.int 1] ∧
      (table (some s) none).validate { depthLimit := 2 } (.dict es) = .accepted (.dict es) ∧
      (table (some s) none).validate { depthLimit := 3 } (.dict es) =
        .rejected (.atToken v (.unhashableKey "list")) := by
  intro s v es
  exact ⟨by rfl, by rfl, by simp [v], by rfl, by rfl⟩

/-! Limits that allow for the height of the schema. -/

theorem isCut_of_contains {f g : Fault} (h : s.check c d v = .rejected f) (hf : f.Contains g)
    (hg : g.faultClass = .depthLimit) : s.IsCut c d v := by
  obtain ⟨t, n, x, e, hv, hm, hcause, -⟩ := raises_of_rejected h hf
  rw [Fault.faultClass, hcause] at hg
  cases hm with
  | single _ _ hl => exact absurd hg hl
  | union _ => cases hg
  | refusal hc hn => exact ⟨t, n, x, _, _, hv, hc, hn⟩

/-- Under all limits that allow for the height of a schema a validation comes to the same, and neither its
fault nor any fault in it tells of the limit. -/
theorem validate_eq_of_height_le {s : Schema} {c : Settings} {v : Value} {limit : Int}
    (hc : s.height ≤ c.depthLimit) (hl : s.height ≤ limit) :
    s.validate { c with depthLimit := limit } v = s.validate c v ∧
      ∀ f g, s.validate c v = .rejected f → f.Contains g → g.faultClass ≠ .depthLimit := by
  have hn {c : Settings} (h : s.height ≤ c.depthLimit) : ¬ s.IsCut c 0 v :=
    not_isCut_of_height_le (by omega)
  have heq {c : Settings} (l : Int) (h : c.depthLimit ≤ l) (hs : s.height ≤ c.depthLimit) :
      s.check c 0 v = s.check { c with depthLimit := l } 0 v :=
    check_eq_of_not_isCut rfl h (hn hs)
  refine ⟨?_, fun f g h hf hg => hn hc (isCut_of_contains h hf hg)⟩
  rcases Int.le_total limit c.depthLimit with h | h
  · exact heq c.depthLimit h hl
  · exact (heq limit h hc).symm

/-- Four levels are enough for a schema of that height, for a value of five levels too. -/
theorem validate_eq_of_height_le_union :
    let s : Schema := .union [.leaf .integer, .array (.optional (.union [.leaf .string, .leaf .null]))]
    let v : Value := .list [.list [.list [.list [.list []]]]]
    s.validate { depthLimit := 100 } v = s.validate { depthLimit := 4 } v ∧
      ∃ f g, s.validate { depthLimit := 4 } v = .rejected f ∧ f.Contains g ∧ g.path = [.int 0] ∧
        g.faultClass ≠ .depthLimit := by
  intro s v
  have hs : s.height = 4 := by decide
  obtain ⟨heq, hno⟩ := validate_eq_of_height_le (s := s) (c := { depthLimit := 4 }) (v := v)
    (show (s.height : Int) ≤ 4 by omega) (show (s.height : Int) ≤ 100 by omega)
  have ⟨f, hf, g, hg, hp⟩ : ∃ f, s.validate { depthLimit := 4 } v = .rejected f ∧ ∃ g, f.Contains g ∧
      g.path = [.int 0] :=
    ⟨_, rfl, _, .rejection (List.mem_cons_of_mem _ List.mem_cons_self) (.self _), rfl⟩
  exact ⟨heq, f, g, hf, hg, hp, hno f g hf hg⟩

end Conform.Schema
