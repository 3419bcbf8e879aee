import Conform.Proofs.Value.Parts
import Conform.Value.Printer
import Mathlib.Data.Nat.Digits.Lemmas

/-! Integers that can be written have at most as many digits as the limit says. A value is short if all the
integers in it can be written, and with them the numbers of its elements. Whatever a walk comes to in a short
value is short again, the terms of a progression included, which lie between its ends. -/

namespace Conform

theorem Number.isWritable_iff {n : Int} : isWritable n = true ↔ n.natAbs < 10 ^ digitLimit := by
  rw [isWritable, decide_eq_true_iff]
  exact Nat.length_toDigits_le_iff (by decide) (by decide)

theorem Number.isWritable_of_le {m n : Int} (hm : isWritable m = true) (h : n.natAbs ≤ m.natAbs) :
    isWritable n = true :=
  isWritable_iff.2 (Nat.lt_of_le_of_lt h (isWritable_iff.1 hm))

namespace Value

/-- Whether a sequence can number its elements. -/
def hasShortCount : Value → Bool
  | .seq _ xs => Number.isWritable xs.length
  | .range start stop step => Number.isWritable (rangeLength start stop step)
  | _ => true

/-- Whether no integer in a value, and no number of elements, has more digits than can be written. -/
def isShort (v : Value) : Bool := v.everywhere fun x => x.hasShortDigits && x.hasShortCount

theorem isWritable_of_isShort {v : Value} (h : v.isShort = true) : v.isWritable = true :=
  everywhere_mono (fun _ hx => (Bool.and_eq_true_iff.1 hx).1) h

theorem isWritable_int {n : Int} : (Value.int n).isWritable = Number.isWritable n := rfl

theorem length_spacedList {step : Int} {n : Nat} {start : Int} :
    (Elements.spacedList step start n).length = n := by
  induction n generalizing start with
  | zero => rfl
  | succ n ih => rw [Elements.spacedList, List.length_cons, ih]

/-- The number of the elements of a short sequence can be written. -/
theorem isWritable_length {v : Value} (h : v.isShort = true) {e : Elements} (he : v.elements? = some e) :
    Number.isWritable e.toList.length = true := by
  have hc := (Bool.and_eq_true_iff.1 (here_of_everywhere h)).2
  cases v with
  | seq form xs =>
    obtain rfl := Option.some.inj he
    exact hc
  | range start stop step =>
    obtain rfl := Option.some.inj he
    rwa [Elements.toList, length_spacedList]
  | _ => simp [elements?] at he

/-- A term of a progression lies between its ends. -/
theorem natAbs_term_le {start stop step : Int} {k : Nat} (h : k < rangeLength start stop step) :
    (start + k * step).natAbs ≤ max start.natAbs stop.natAbs := by
  unfold rangeLength at h
  split at h
  · next hs =>
    have := Int.mul_le_of_le_ediv hs (show (k : Int) + 1 ≤ (stop - start + step - 1) / step by omega)
    have : 0 ≤ (k : Int) * step := Int.mul_nonneg (by omega) (by omega)
    grind
  · split at h
    · next hs =>
      have := Int.mul_le_of_le_ediv (show 0 < -step by omega)
        (show (k : Int) + 1 ≤ (start - stop - step - 1) / -step by omega)
      have : 0 ≤ (k : Int) * -step := Int.mul_nonneg (by omega) (by omega)
      grind
    · omega

theorem isShort_of_mem_elements {v x : Value} {e : Elements} (h : v.isShort = true)
    (he : v.elements? = some e) (hx : x ∈ e.toList) : x.isShort = true := by
  cases v with
  | seq form xs =>
    obtain rfl := Option.some.inj he
    exact everywhere_of_mem_parts h hx
  | range start stop step =>
    obtain rfl := Option.some.inj he
    obtain ⟨k, hk, rfl⟩ := mem_spacedList hx
    have hd := (Bool.and_eq_true_iff.1 (here_of_everywhere h)).1
    simp only [hasShortDigits, Bool.and_eq_true] at hd
    have hle := natAbs_term_le hk
    have : Number.isWritable (start + k * step) = true := by
      rcases Nat.le_total start.natAbs stop.natAbs with hs | hs
      · exact Number.isWritable_of_le hd.1.2 (by omega)
      · exact Number.isWritable_of_le hd.1.1 (by omega)
    exact Bool.and_eq_true_iff.2 ⟨this, rfl⟩
  | _ => simp [elements?] at he

end Value

end Conform
