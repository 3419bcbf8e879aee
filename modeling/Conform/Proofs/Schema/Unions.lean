import Conform.Proofs.Schema.Calls
import Conform.Proofs.Schema.Placement

/-! Faults of unions, wherever they are in the fault of a validation. A fault keeps the message that it was made
with while its path grows, and it goes on unchanged but for its path, so what a union has collected stays as it
was: one fault for each option, in their order, each the one that the option comes to by itself. The message
of the union still tells these faults as they are. -/

namespace Conform

/-- The faults that a cause holds, with the numbers of their options. -/
def Cause.rejections : Cause → List (Int × Fault)
  | .exhausted rs => rs
  | _ => []

namespace Fault

/-- A fault and the faults in it, at any depth. -/
inductive Contains : Fault → Fault → Prop
  | self (f : Fault) : Contains f f
  | rejection {f g h : Fault} {i : Int} : (i, g) ∈ f.cause.rejections → Contains g h → Contains f h

/-- Seen from one level up a fault contains what it contained, but for its own path. -/
theorem Contains.of_under {token : Value} {f g : Fault} (h : (f.under token).Contains g) :
    ∃ g', f.Contains g' ∧ g.cause = g'.cause ∧ g.message = g'.message := by
  cases h with
  | self => exact ⟨f, .self f, cause_under token f, message_under token f⟩
  | rejection hm hg =>
    rw [cause_under] at hm
    exact ⟨g, .rejection hm hg, rfl, rfl⟩

theorem eq_of_contains {f g : Fault} (hf : f.cause.rejections = []) (h : f.Contains g) : g = f := by
  cases h with
  | self => rfl
  | rejection hm _ => simp [hf] at hm

end Fault

namespace Schema

theorem mem_numbered {fs : List Fault} {r : Int × Fault} (h : r ∈ numbered fs) : r.2 ∈ fs := by
  obtain ⟨p, hp, rfl⟩ := List.mem_map.1 h
  exact List.mem_of_getElem? (List.mem_zipIdx_iff_getElem?.1 hp)

theorem getElem?_numbered {fs : List Fault} {i : Nat} {f : Fault} (h : fs[i]? = some f) :
    (numbered fs)[i]? = some (↑i, f) := by
  simp [numbered, h]

theorem length_numbered (fs : List Fault) : (numbered fs).length = fs.length := by simp [numbered]

variable {c : Settings} {d : Nat} {s t : Schema} {v x : Value} {f g : Fault}

/-- Where the fault of a check comes from: it is of the check itself and holds no other faults, where only an object
tells of a missing field, the first that does not pass; or it holds those of all the options of a union; or it is
the fault of a call, perhaps as seen from one level up. -/
theorem origin_of_rejected (h : s.check c d v = .rejected f) :
    (f.faultClass ≠ .unionExhausted ∧ f.faultClass ≠ .depthLimit ∧ f.cause.rejections = [] ∧
        (f.faultClass = .missingField → ∃ fields g es, s = .object fields ∧ v.entries? = some es ∧
          ComesTo (FieldPasses c d es) fields g ∧ ¬ FieldPasses c d es g ∧ f = missing g.1)) ∨
      (∃ options fs, s = .union options ∧
        List.Forall₂ (fun t g => t.child c d v = .rejected g) options fs ∧
        f = .here (.exhausted (numbered fs))) ∨
      ∃ t x f', s.Calls c d v t x ∧ t.child c d x = .rejected f' ∧
        (f = f' ∨ ∃ token, f = f'.under token) := by
  cases s with
  | leaf kind =>
    obtain ⟨-, shown, -, rfl⟩ := rejected_of_check_leaf h
    exact .inl ⟨nofun, nofun, rfl, nofun⟩
  | literal expected =>
    obtain ⟨-, shownExpected, shown, -, rfl⟩ := rejected_of_check_literal h
    exact .inl ⟨nofun, nofun, rfl, nofun⟩
  | custom own =>
    obtain ⟨-, rfl⟩ := rejected_of_check_custom h
    exact .inl ⟨nofun, nofun, rfl, nofun⟩
  | array item =>
    rcases rejected_of_check_array h with ⟨-, rfl⟩ | ⟨e, before, x, after, f', he, hx, hb, hf, rfl⟩
    · exact .inl ⟨nofun, nofun, rfl, nofun⟩
    · have hc : ComesTo (fun y => (item.child c d y).isAccepted = true) e.toList x := hx ▸ comesTo_append hb
      exact .inr (.inr ⟨item, x, f', .item he hc, hf, .inr ⟨_, rfl⟩⟩)
  | tuple items =>
    have hl : ∀ e, v.elements? = some e → e.hasLength = true := fun e he => by
      by_contra hn
      rw [check_tuple_eq_broken_iff.2 ⟨e, he, .inl ⟨by simpa using hn, rfl⟩⟩] at h
      cases h
    rcases rejected_of_check_tuple h with
      ⟨-, rfl⟩ | ⟨e, he, ⟨-, -, rfl⟩ | ⟨before, p, after, f', hp, hb, hf, rfl⟩⟩
    · exact .inl ⟨nofun, nofun, rfl, nofun⟩
    · unfold lengthFault
      split <;> exact .inl ⟨nofun, nofun, rfl, nofun⟩
    · have hc : ComesTo (fun q => (q.1.child c d q.2).isAccepted = true) (items.zip e.toList) p :=
        hp ▸ comesTo_append hb
      exact .inr (.inr ⟨p.1, p.2, f', .position he (hl e he) hc, hf, .inr ⟨_, rfl⟩⟩)
  | object fields =>
    rcases rejected_of_check_object h with ⟨-, rfl⟩ | ⟨es, before, g, after, he, hg, hb, h⟩
    · exact .inl ⟨nofun, nofun, rfl, nofun⟩
    have hc : ComesTo (FieldPasses c d es) fields g := hg ▸ comesTo_append hb
    rcases h with ⟨hx, rfl⟩ | ⟨x, f', hx, hf, rfl⟩
    · have hn : ¬ FieldPasses c d es g := fun ⟨x, hx', _⟩ => by simp [hx] at hx'
      exact .inl ⟨nofun, nofun, rfl, fun _ => ⟨fields, g, es, rfl, he, hc, hn, rfl⟩⟩
    · have hn : ¬ FieldPasses c d es g := fun ⟨y, hy, ha⟩ => by
        obtain rfl := Option.some.inj (hx.symm.trans hy)
        rw [hf] at ha
        cases ha
      unfold fieldFault
      split
      · exact .inl ⟨nofun, nofun, rfl, fun _ => ⟨fields, g, es, rfl, he, hc, hn, rfl⟩⟩
      · exact .inr (.inr ⟨g.2, x, f', .field he hc hx, hf, .inr ⟨_, rfl⟩⟩)
  | union options =>
    obtain ⟨fs, hfs, rfl⟩ := rejected_of_check_union h
    exact .inr (.inl ⟨options, fs, rfl, hfs, rfl⟩)
  | optional inner =>
    obtain ⟨hn, hf⟩ := rejected_of_check_optional h
    exact .inr (.inr ⟨inner, v, f, .inner hn, hf, .inl rfl⟩)
  | table key value =>
    rcases rejected_of_check_table h with ⟨-, rfl⟩ | ⟨es, before, e, after, he, hes, hb, h⟩
    · exact .inl ⟨nofun, nofun, rfl, nofun⟩
    have hc : ComesTo (EntryPasses (checkPart c key d) (checkPart c value d)) es e :=
      hes ▸ comesTo_append hb
    rcases h with ⟨f', hf, rfl⟩ | ⟨k, hk, ⟨f', hf, rfl⟩ | ⟨-, -, rfl⟩⟩
    · cases key with
      | none => simp [checkPart_none] at hf
      | some t =>
        rw [checkPart_some] at hf
        exact .inr (.inr ⟨t, e.1, f', .key he hc, hf, .inr ⟨_, rfl⟩⟩)
    · cases value with
      | none => simp [checkPart_none] at hf
      | some t =>
        rw [checkPart_some] at hf
        have ha : (checkPart c key d e.1).isAccepted = true := Outcome.isAccepted_iff.2 ⟨k, hk⟩
        exact .inr (.inr ⟨t, e.2, f', .value he hc ha, hf, .inr ⟨_, rfl⟩⟩)
    · exact .inl ⟨nofun, nofun, rfl, nofun⟩

/-- The faults that a check makes and does not have from its calls: its own, that of a union whose options all
reject, and that of the limit where it refuses a call. -/
inductive Makes (c : Settings) (d : Nat) : Schema → Value → Fault → Prop
  | single {s : Schema} {v : Value} {f : Fault} : s.check c d v = .rejected f →
      f.faultClass ≠ .unionExhausted → f.faultClass ≠ .depthLimit → Makes c d s v f
  | union {options : List Schema} {v : Value} {fs : List Fault} :
      List.Forall₂ (fun t g => t.child c d v = .rejected g) options fs →
      Makes c d (.union options) v (.here (.exhausted (numbered fs)))
  | refusal {s t : Schema} {v x : Value} : s.Calls c d v t x → c.depthLimit ≤ d →
      Makes c d s v (.here (.tooDeep c.depthLimit))

/-- Whether a fault is one that some check in the walk makes, but for its path. -/
def Raises (c : Settings) (s : Schema) (d : Nat) (v : Value) (g : Fault) : Prop :=
  ∃ t n x h, s.Visits c d v t n x ∧ t.Makes c n x h ∧ g.cause = h.cause ∧ g.message = h.message

theorem Raises.of_makes (h : s.Makes c d v g) : s.Raises c d v g :=
  ⟨s, d, v, g, .here s d v, h, rfl, rfl⟩

theorem raises_of_child (hc : s.Calls c d v t x) (h : t.child c d x = .rejected f)
    (ih : t.check c (d + 1) x = .rejected f → f.Contains g → t.Raises c (d + 1) x g)
    (hf : f.Contains g) : s.Raises c d v g := by
  rcases enter_eq_rejected_iff.1 h with ⟨hd, rfl⟩ | ⟨hd, h⟩
  · rw [Fault.eq_of_contains rfl hf]
    exact .of_makes (.refusal hc hd)
  · obtain ⟨u, n, y, e, hv, he⟩ := ih h hf
    exact ⟨u, n, y, e, .call hc hd hv, he⟩

/-- Every fault in the fault of a walk is as a check made it, but for its path. -/
theorem raises_of_rejected : ∀ {d : Nat} {v : Value} {f g : Fault}, s.check c d v = .rejected f →
    f.Contains g → s.Raises c d v g := by
  induction s using parts_induction with
  | step s ih =>
    intro d v f g h hf
    rcases origin_of_rejected h with
      ⟨hu, hl, hr, -⟩ | ⟨options, fs, rfl, hfs, rfl⟩ | ⟨t, x, f', hc, hf', heq⟩
    · rw [Fault.eq_of_contains hr hf]
      exact .of_makes (.single h hu hl)
    · cases hf with
      | self => exact .of_makes (.union hfs)
      | @rejection _ e _ i hm he =>
        obtain ⟨t, ht, hte⟩ := exists_mem_of_forall₂ hfs.flip (mem_numbered hm)
        have hc : (union options).Calls c d v t v := .option (comesTo_of_mem (declines_of_check_union h) ht)
        exact raises_of_child hc hte (ih t hc.mem_parts) he
    · rcases heq with rfl | ⟨token, rfl⟩
      · exact raises_of_child hc hf' (ih t hc.mem_parts) hf
      · obtain ⟨g', hg', hcause, hmessage⟩ := hf.of_under
        obtain ⟨u, n, y, e, hv, hm, hc', hm'⟩ := raises_of_child hc hf' (ih t hc.mem_parts) hg'
        exact ⟨u, n, y, e, hv, hm, hcause.trans hc', hmessage.trans hm'⟩

/-- Whether a fault is what a union, met by the walk, makes of the faults of its options, but for its path. -/
def Exhausts (c : Settings) (s : Schema) (d : Nat) (v : Value) (g : Fault) : Prop :=
  ∃ options n x fs, s.Visits c d v (.union options) n x ∧
    List.Forall₂ (fun t h => t.child c n x = .rejected h) options fs ∧
    g.cause = .exhausted (numbered fs) ∧ g.message = Cause.message (.exhausted (numbered fs))

theorem exhausts_of_rejected (h : s.check c d v = .rejected f) (hf : f.Contains g)
    (hg : g.faultClass = .unionExhausted) : s.Exhausts c d v g := by
  obtain ⟨t, n, x, e, hv, hm, hcause, hmessage⟩ := raises_of_rejected h hf
  rw [Fault.faultClass, hcause] at hg
  cases hm with
  | single _ hu _ => exact absurd hg hu
  | union hfs => exact ⟨_, n, x, _, hv, hfs, hcause, hmessage⟩
  | refusal => cases hg

/-- Each fault of a union in the fault of a validation, at any depth, has one fault for each option of a union
that the walk met, in their order, and each is the one that the option comes to by itself, one level deeper;
its message tells them as they are. -/
theorem unions_of_validate (h : s.validate c v = .rejected f) (hf : f.Contains g)
    (hg : g.faultClass = .unionExhausted) :
    ∃ options n x rs, s.Visits c 0 v (.union options) n x ∧ g.cause = .exhausted rs ∧
      rs.length = options.length ∧
      (∀ (i : Nat) (t : Schema), options[i]? = some t →
        ∃ e, rs[i]? = some (↑i, e) ∧ t.child c n x = .rejected e) ∧
      g.message = "Union validation failed. Errors: " ++ String.intercalate "; "
        (rs.map fun r => "Option " ++ intString r.1 ++ ": " ++ r.2.text) := by
  obtain ⟨options, n, x, fs, hv, hfs, hcause, hmessage⟩ := exhausts_of_rejected h hf hg
  refine ⟨options, n, x, numbered fs, hv, hcause, ?_, fun i t hi => ?_, hmessage⟩
  · rw [length_numbered, hfs.length_eq]
  · obtain ⟨e, he, hr⟩ := exists_getElem?_of_forall₂ hfs hi
    exact ⟨e, getElem?_numbered he, hr⟩

/-- A union inside an option of a union keeps its place and its message, whatever stands in front. -/
theorem unions_of_validate_inner :
    let s : Schema := .object [(.text "a",
      .union [.leaf .integer, .array (.union [.leaf .string, .optional (.leaf .boolean)])])]
    let v : Value := .dict [(.str "a", .list [.null, .int 1])]
    ∃ f g rs, s.validate {} v = .rejected f ∧ f.Contains g ∧ f.path = [.str "a"] ∧ g.path = [.int 1] ∧
      g.cause = .exhausted rs ∧ g.message = "Union validation failed. Errors: " ++ String.intercalate "; "
        (rs.map fun r => "Option " ++ intString r.1 ++ ": " ++ r.2.text) := by
  intro s v
  have ⟨f, hf, g, hg, hfp, hgp, hgc⟩ : ∃ f, s.validate {} v = .rejected f ∧ ∃ g, f.Contains g ∧
      f.path = [.str "a"] ∧ g.path = [.int 1] ∧ g.faultClass = .unionExhausted :=
    ⟨_, rfl, _, .rejection (List.mem_cons_of_mem _ List.mem_cons_self) (.self _), rfl, rfl, rfl⟩
  obtain ⟨-, -, -, rs, -, hc, -, -, hm⟩ := unions_of_validate hf hg hgc
  exact ⟨f, g, rs, hf, hg, hfp, hgp, hc, hm⟩

end Schema

end Conform
