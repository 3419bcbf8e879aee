import Conform.Proofs.Value.Digits
import Conform.Proofs.Value.Order
import Conform.Value.Abridged

/-! How much of a value is shown. A value can be shown if all its integers can be written, and whatever is shown
of it fits the limit. A string whose literal fits is shown by its literal. Of any other string two ends are quoted
as one string, which is long enough to be cut in the middle: what is left of it fills the limit, with the dots in
the same place whatever the string, so it is not cut again. -/

namespace Conform

/-! Quoted text. -/

namespace Text

theorem escapeChar_ne_nil (mark c : Char) : escapeChar mark c ≠ [] := by
  unfold escapeChar
  repeat' split
  all_goals simp

theorem length_le_length_escaped (mark : Char) (cs : List Char) :
    cs.length ≤ (cs.flatMap (escapeChar mark)).length := by
  induction cs with
  | nil => exact Nat.le_refl _
  | cons c cs ih =>
    have := List.length_pos_iff.2 (escapeChar_ne_nil mark c)
    rw [List.flatMap_cons, List.length_append, List.length_cons]
    omega

theorem length_quote (cs : List Char) : cs.length + 2 ≤ (quote cs).length := by
  have := length_le_length_escaped (quoteMark (cs.contains '\x27') (cs.contains '\x22')) cs
  simp only [quote, List.length_cons, List.length_append, List.length_nil]
  omega

/-- Characters that occur already change nothing about the quotation marks, so they make the text longer. -/
theorem length_quote_le_append {cs ds : List Char} (h : ∀ c ∈ ds, c ∈ cs) :
    (quote cs).length ≤ (quote (cs ++ ds)).length := by
  have hc (c : Char) : (cs ++ ds).contains c = cs.contains c := by
    rw [Bool.eq_iff_iff]
    simpa using h c
  simp only [quote, hc, List.flatMap_append, List.length_cons, List.length_append, List.length_nil]
  omega

end Text

/-! Text cut in the middle. -/

variable {w k : Nat} {cs : List Char} {c : Char}

theorem mem_of_mem_fromEnd (h : c ∈ fromEnd k cs) : c ∈ cs := by
  unfold fromEnd at h
  split at h <;> exact List.mem_of_mem_drop h

theorem length_fromEnd (h : k ≤ cs.length) : (fromEnd k cs).length = k := by
  rw [fromEnd, if_pos h, List.length_drop]
  omega

theorem headLength_add_tailLength (hw : 3 ≤ w) : headLength w + 3 + tailLength w = w := by
  unfold tailLength headLength
  omega

theorem headLength_le_tailLength (w : Nat) : headLength w ≤ tailLength w := by
  unfold tailLength headLength
  omega

theorem tailLength_le_headLength (w : Nat) : tailLength w ≤ headLength w + 1 := by
  unfold tailLength headLength
  omega

theorem length_joinEnds (hw : 3 ≤ w) (h : tailLength w ≤ cs.length) : (joinEnds w cs).length = w := by
  have hh : headLength w ≤ cs.length := Nat.le_trans (headLength_le_tailLength w) h
  have hs := headLength_add_tailLength hw
  simp only [joinEnds, List.length_append, List.length_take, length_fromEnd h, Nat.min_eq_left hh]
  exact hs

/-- The dots stand where the head ends. -/
theorem dots_of_joinEnds (h : tailLength w ≤ cs.length) :
    ((joinEnds w cs).drop (headLength w)).take 3 = dots := by
  have hh : headLength w ≤ cs.length := Nat.le_trans (headLength_le_tailLength w) h
  rw [joinEnds, List.append_assoc, List.drop_append_of_le_length (by simp [hh]), List.drop_take_self]
  rfl

/-! Strings. -/

/-- The two ends of a long string, quoted as one string, are long enough for the ends that are shown. Where the
string is so short that both ends are all of it, its literal is too long to begin with. -/
theorem tailLength_le_length_quote_ends (h : w < (Text.quote (cs.take w)).length) :
    tailLength w ≤ (Text.quote (cs.take (headLength w) ++ fromEnd (tailLength w) cs)).length := by
  by_cases hl : tailLength w ≤ cs.length
  · have := Text.length_quote (cs.take (headLength w) ++ fromEnd (tailLength w) cs)
    rw [List.length_append, length_fromEnd hl] at this
    omega
  · have ht := tailLength_le_headLength w
    have htw : tailLength w ≤ w := by
      unfold tailLength
      omega
    rw [List.take_of_length_le (by omega)] at h
    rw [List.take_of_length_le (by omega)]
    have hm (c : Char) (hc : c ∈ fromEnd (tailLength w) cs) : c ∈ cs := mem_of_mem_fromEnd hc
    have := Text.length_quote_le_append hm
    omega

theorem abridgedString_of_le (h : (Text.quote cs).length ≤ w) : abridgedString w cs = Text.quote cs := by
  have := Text.length_quote cs
  rw [abridgedString, List.take_of_length_le (by omega), if_neg (by omega)]

theorem exists_abridgedString_eq_joinEnds (h : w < (Text.quote cs).length) :
    ∃ ds, abridgedString w cs = joinEnds w ds ∧ tailLength w ≤ ds.length := by
  have ht : w < (Text.quote (cs.take w)).length := by
    rcases Nat.le_total cs.length w with hl | hl
    · rwa [List.take_of_length_le hl]
    · have := Text.length_quote (cs.take w)
      rw [List.length_take, Nat.min_eq_left hl] at this
      omega
  exact ⟨_, if_pos ht, tailLength_le_length_quote_ends ht⟩

/-! Values. -/

namespace Value

theorem abridge_str (l : Limits) (d : Nat) (s : String) :
    Value.abridge l d (.str s) = some (abridgedString l.width s.toList) := rfl

theorem abridge_int (l : Limits) (d : Nat) (n : Int) :
    Value.abridge l d (.int n) =
      if Number.isWritable n then some (cutMiddle l.digits (Number.intText n)) else none := rfl

theorem literal_str (s : String) : (Value.str s).literal = Text.quote s.toList := rfl

/-! What can be shown. -/

section Shown

variable {l : Limits} {d : Nat}

theorem isSome_abridgedList {shown total : Nat} {left right : String} {mark : List Char}
    {parts : Option (List (List Char))} (h : parts.isSome = true) :
    (abridgedList shown total d left right mark parts).isSome = true := by
  unfold abridgedList
  split
  · rfl
  · rwa [Option.isSome_map]

theorem isSome_abridgeList {xs : List Value} {n : Nat} (h : ∀ x ∈ xs, (x.abridge l d).isSome = true) :
    (abridgeList l d n xs).isSome = true := by
  induction xs generalizing n with
  | nil => cases n <;> rfl
  | cons x xs ih =>
    cases n with
    | zero => rfl
    | succ n =>
      obtain ⟨hx, hxs⟩ := List.forall_mem_cons.1 h
      obtain ⟨part, hp⟩ := Option.isSome_iff_exists.1 hx
      obtain ⟨parts, hps⟩ := Option.isSome_iff_exists.1 (ih (n := n) hxs)
      simp [abridgeList, hp, hps]

theorem abridgeMembers_eq {xs : List Value} : abridgeMembers l d xs = xs.map fun x => (x, x.abridge l d) := by
  induction xs with
  | nil => rfl
  | cons x xs ih => rw [abridgeMembers, ih, List.map_cons]

theorem abridgeEntries_eq {es : Entries} :
    abridgeEntries l d es = es.map fun e => (e.1, e.1.abridge l d, e.2.abridge l d) := by
  induction es with
  | nil => rfl
  | cons e es ih => rw [abridgeEntries, ih, List.map_cons]

theorem isSome_mapM {α β : Type} {f : α → Option β} {xs : List α} (h : ∀ x ∈ xs, (f x).isSome = true) :
    (xs.mapM f).isSome = true := by
  induction xs with
  | nil => rfl
  | cons x xs ih =>
    obtain ⟨hx, hxs⟩ := List.forall_mem_cons.1 h
    obtain ⟨y, hy⟩ := Option.isSome_iff_exists.1 hx
    obtain ⟨ys, hys⟩ := Option.isSome_iff_exists.1 (ih hxs)
    simp [List.mapM_cons, hy, hys]

/-- What is taken of the values in order are some of the values. -/
theorem mem_of_mem_take_inOrder {α : Type} {key : α → Value} {xs : List α} {n : Nat} {x : α}
    (h : x ∈ (inOrder key xs).take n) : x ∈ xs :=
  (inOrder_perm key xs).mem_iff.1 (List.mem_of_mem_take h)

theorem isSome_abridgedMap {es : List (Value × Option (List Char) × Option (List Char))}
    (h : ∀ e ∈ es, e.2.1.isSome = true ∧ e.2.2.isSome = true) : (abridgedMap l d es).isSome = true := by
  unfold abridgedMap
  split
  · rfl
  · split
    · rfl
    · have hs : (((inOrder (·.1) es).take l.entries).mapM fun e => abridgedEntry e.2.1 e.2.2).isSome = true := by
        refine isSome_mapM fun e he => ?_
        obtain ⟨hk, hv⟩ := h e (mem_of_mem_take_inOrder he)
        obtain ⟨k, hk⟩ := Option.isSome_iff_exists.1 hk
        obtain ⟨v, hv⟩ := Option.isSome_iff_exists.1 hv
        simp [abridgedEntry, hk, hv]
      obtain ⟨parts, hp⟩ := Option.isSome_iff_exists.1 hs
      simp [hp]

theorem isSome_abridge {v : Value} : ∀ {d : Nat}, v.isWritable = true → (v.abridge l d).isSome = true := by
  induction v using parts_induction with
  | step v ih =>
    intro d h
    have part {x : Value} (hx : x ∈ v.parts) (d : Nat) : (x.abridge l d).isSome = true :=
      ih x hx (everywhere_of_mem_parts h hx)
    cases v with
    | int n =>
      have hn : Number.isWritable n = true := here_of_everywhere h
      rw [abridge_int, if_pos hn]
      rfl
    | seq form xs => exact isSome_abridgedList (isSome_abridgeList fun x hx => part hx _)
    | set frozen xs =>
      rw [abridge]
      split
      · rfl
      · refine isSome_abridgedList (isSome_mapM fun e he => ?_)
        have hm := mem_of_mem_take_inOrder he
        rw [abridgeMembers_eq] at hm
        obtain ⟨x, hx, rfl⟩ := List.mem_map.1 hm
        exact part hx _
    | map form es =>
      cases form with
      | dict =>
        refine isSome_abridgedMap fun e he => ?_
        rw [abridgeEntries_eq] at he
        obtain ⟨e, hm, rfl⟩ := List.mem_map.1 he
        have hp := mem_parts_of_entries? (v := .map .dict es) rfl hm
        exact ⟨part hp.1 _, part hp.2 _⟩
      | ordered => rfl
      | view => rfl
    | _ => rfl

end Shown

end Value

section

variable {limit : Int} {v : Value} {t : String}

theorem isSome_describe (h : v.isWritable = true) : (describe v limit).isSome = true := by
  obtain ⟨cs, hcs⟩ := Option.isSome_iff_exists.1
    (Value.isSome_abridge (l := .ofWidth (max limit 3).toNat) (d := 6) h)
  rw [describe, show (Limits.ofWidth (max limit 3).toNat).depth = 6 from rfl, hcs]
  rfl

theorem describe_int_eq_none_iff {n : Int} : describe (.int n) limit = none ↔ 10 ^ Number.digitLimit ≤ n.natAbs := by
  rw [← Nat.not_lt, ← Number.isWritable_iff]
  by_cases h : Number.isWritable n = true <;> simp [describe, Value.abridge_int, h]

theorem length_describe_le (hl : 3 ≤ limit) (h : describe v limit = some t) : (t.length : Int) ≤ limit := by
  simp only [describe, Option.bind_eq_bind, Option.bind_eq_some_iff] at h
  obtain ⟨cs, -, h⟩ := h
  obtain rfl := Option.some.inj h
  split
  · rw [String.length_ofList, List.length_append, List.length_take]
    simp only [dots, List.length_cons, List.length_nil]
    omega
  · rw [String.length_ofList]
    omega

theorem describe_string (hl : 3 ≤ limit) (s : String)
    (h : ((abridgedString limit.toNat s.toList).length : Int) ≤ limit) :
    describe (.str s) limit = some (String.ofList (abridgedString limit.toNat s.toList)) := by
  have hw : (max limit 3).toNat = limit.toNat := by omega
  simp only [describe, Value.abridge_str, Limits.ofWidth, hw, Option.bind_eq_bind, Option.bind_some]
  rw [if_neg (Int.not_lt.2 h)]
  rfl

end

/-- What is shown of a value fits a limit that has room for the dots. A string is shown by its literal if that
fits; if not, what is shown of it fills the limit and has the dots in the middle. Every value is shown in which all
integers can be written; an integer that cannot be is not shown itself. -/
theorem describe_spec {limit : Int} (hl : 3 ≤ limit) :
    (∀ v t, describe v limit = some t → (t.length : Int) ≤ limit) ∧
    (∀ v : Value, v.isWritable = true → ∃ t, describe v limit = some t) ∧
    (∀ n : Int, describe (.int n) limit = none ↔ 10 ^ Number.digitLimit ≤ n.natAbs) ∧
    ∀ s : String, ∃ t, describe (.str s) limit = some t ∧
      (((Value.str s).literal.length : Int) ≤ limit ∧ t = String.ofList (Value.str s).literal ∨
        limit < (Value.str s).literal.length ∧ (t.length : Int) = limit ∧
          (t.toList.drop ((limit - 3) / 2).toNat).take 3 = ['.', '.', '.']) := by
  refine ⟨fun v t => length_describe_le hl, fun v hv => Option.isSome_iff_exists.1 (isSome_describe hv),
    fun n => describe_int_eq_none_iff, fun s => ?_⟩
  rw [Value.literal_str]
  by_cases hq : ((Text.quote s.toList).length : Int) ≤ limit
  · have ha : abridgedString limit.toNat s.toList = _ := abridgedString_of_le (by omega)
    exact ⟨_, describe_string hl s (by rwa [ha]), .inl ⟨hq, by rw [ha]⟩⟩
  · have hq : limit.toNat < (Text.quote s.toList).length := by omega
    obtain ⟨ds, hds, ht⟩ := exists_abridgedString_eq_joinEnds hq
    have hlen := length_joinEnds (w := limit.toNat) (by omega) ht
    have hh : ((limit - 3) / 2).toNat = headLength limit.toNat := by
      unfold headLength
      omega
    refine ⟨_, describe_string hl s (by rw [hds]; omega), .inr ?_⟩
    rw [hds, String.length_ofList, String.toList_ofList, hh]
    exact ⟨by omega, by omega, dots_of_joinEnds ht⟩

/-- Five line feeds make a literal of twelve characters, of which the first two and the last three are shown. -/
theorem describe_line_feeds :
    (3 : Int) ≤ 8 ∧ ∃ t, describe (.str "\n\n\n\n\n") 8 = some t ∧ (t.length : Int) = 8 ∧
      (t.toList.drop 2).take 3 = ['.', '.', '.'] ∧ t = "'\\...\\n'" := by
  obtain ⟨t, ht, ⟨hle, -⟩ | ⟨-, hlen, hdots⟩⟩ :=
    (describe_spec (show (3 : Int) ≤ 8 by decide)).2.2.2 "\n\n\n\n\n"
  · exact absurd hle (by decide)
  · have hs : describe (.str "\n\n\n\n\n") 8 = some "'\\...\\n'" := by rfl
    exact ⟨by decide, t, ht, hlen, hdots, Option.some.inj (ht.symm.trans hs)⟩

/-- An integer of 4301 digits is not shown under any limit. -/
theorem describe_long_integer : describe (.int (10 ^ Number.digitLimit)) 80 = none :=
  describe_int_eq_none_iff.2 (by simp)

end Conform
