import Conform.Proofs.Value.Parts

/-! Comparing values always has an answer where no signaling number occurs. -/

namespace Conform

namespace Amount

theorem isSome_equal? {a b : Amount} (ha : a.isSignaling = false) (hb : b.isSignaling = false) :
    (a.equal? b).isSome = true := by
  unfold equal?
  split
  · rfl
  · split
    · simp [ha, hb]
    · rfl

end Amount

namespace Value

def isSignaling : Value → Bool
  | .decimal d => d.isSignaling
  | _ => false

/-- Whether no signaling number occurs in a value. -/
def isQuiet (v : Value) : Bool := v.everywhere (!·.isSignaling)

theorem isSignaling_of_amount? {v : Value} {a : Amount} (h : v.amount? = some a) :
    a.isSignaling = v.isSignaling := by
  cases v <;> simp only [amount?, Option.some.injEq, reduceCtorEq] at h <;> subst h <;> rfl

theorem isSome_andThen {a : Option Bool} {b : Unit → Option Bool} (ha : a.isSome = true)
    (hb : (b ()).isSome = true) : (andThen a b).isSome = true := by
  unfold andThen
  split
  · exact hb
  · exact ha

theorem isSome_equalList? {xs ys : List Value}
    (h : ∀ x ∈ xs, ∀ y ∈ ys, (x.equal? y).isSome = true) : (equalList? xs ys).isSome = true := by
  induction xs generalizing ys with
  | nil => cases ys <;> rfl
  | cons x xs ih =>
    cases ys with
    | nil => rfl
    | cons y ys =>
      refine isSome_andThen (h x List.mem_cons_self y List.mem_cons_self) (ih fun a ha b hb => ?_)
      exact h a (List.mem_cons_of_mem _ ha) b (List.mem_cons_of_mem _ hb)

theorem isSome_equalEntries? {es fs : Entries}
    (h : ∀ e ∈ es, ∀ f ∈ fs, (e.2.equal? f.2).isSome = true) :
    (equalEntries? es fs).isSome = true := by
  induction es with
  | nil => rfl
  | cons e es ih =>
    rw [equalEntries?]
    cases hw : fs.get? e.1 with
    | none => rfl
    | some w =>
      obtain ⟨f, hf, -, rfl⟩ := mem_of_get? hw
      exact isSome_andThen (h e List.mem_cons_self f hf)
        (ih fun a ha b hb => h a (List.mem_cons_of_mem _ ha) b hb)

theorem isSome_equal? {v w : Value} (hv : v.isQuiet = true) (hw : w.isQuiet = true) :
    (v.equal? w).isSome = true := by
  induction v using parts_induction generalizing w with
  | step v ih =>
    have parts_isSome {x y : Value} (hx : x ∈ v.parts) (hy : y ∈ w.parts) : (x.equal? y).isSome = true :=
      ih x hx (everywhere_of_mem_parts hv hx) (everywhere_of_mem_parts hw hy)
    rw [equal?.eq_def]
    split
    case h_10 xs ys => exact isSome_equalList? fun x hx y hy => parts_isSome hx hy
    case h_11 xs ys =>
      split
      · exact isSome_equalList? fun x hx y hy => parts_isSome hx hy
      · rfl
    case h_12 xs ys =>
      split
      · exact isSome_equalList? fun x hx y hy => parts_isSome hx hy
      · rfl
    case h_14 form es form' fs =>
      split
      · refine isSome_andThen (isSome_equalEntries? fun e he f hf => ?_) (by split <;> rfl)
        exact parts_isSome (List.mem_append_right _ (List.mem_map_of_mem he))
          (List.mem_append_right _ (List.mem_map_of_mem hf))
      · rfl
    case h_15 =>
      -- only two numbers are left to compare
      split
      · next a b ha hb =>
        have hva := here_of_everywhere hv
        have hwb := here_of_everywhere hw
        rw [← isSignaling_of_amount? ha] at hva
        rw [← isSignaling_of_amount? hb] at hwb
        exact Amount.isSome_equal? (by simpa using hva) (by simpa using hwb)
      · rfl
    all_goals rfl

end Value

end Conform
