import Conform.Value.Order
import Mathlib.Data.List.Basic

/-! Whatever the comparisons say, sorting keeps the values: what is shown in order is shown once each. -/

namespace Conform

namespace Sorting

variable {α : Type} {less? : α → α → Option Bool} {x prev : α} {xs ys run others : List α}

theorem insert?_perm {k : Nat} (h : insert? less? x k xs = some ys) : ys.Perm (x :: xs) := by
  induction k generalizing xs ys with
  | zero =>
    obtain rfl := Option.some.inj h
    exact .refl _
  | succ k ih =>
    have halves := List.take_append_drop (xs.length / 2) xs
    simp only [insert?] at h
    split at h
    · obtain rfl := Option.some.inj h
      exact .refl _
    · next m right hd =>
      rw [hd] at halves
      split at h
      · obtain ⟨zs, hz, rfl⟩ := Option.map_eq_some_iff.1 h
        exact ((ih hz).append_right _).trans (.of_eq (congrArg (x :: ·) halves))
      · obtain ⟨zs, hz, rfl⟩ := Option.map_eq_some_iff.1 h
        have hx : (m :: zs).Perm (x :: m :: right) := ((ih hz).cons m).trans (.swap x m right)
        exact (hx.append_left _).trans (List.perm_middle.trans (.of_eq (congrArg (x :: ·) halves)))
      · cases h

theorem run?_append {down : Bool} (h : run? less? down prev xs = some (run, others)) :
    run ++ others = xs := by
  induction xs generalizing prev run with
  | nil =>
    simp only [run?, Option.some.injEq, Prod.mk.injEq] at h
    obtain ⟨rfl, rfl⟩ := h
    rfl
  | cons x xs ih =>
    simp only [run?] at h
    split at h
    · cases h
    · split at h
      · obtain ⟨⟨front, back⟩, hp, he⟩ := Option.map_eq_some_iff.1 h
        obtain ⟨rfl, rfl⟩ := Prod.mk.inj he
        exact congrArg (x :: ·) (ih hp)
      · obtain ⟨rfl, rfl⟩ := Prod.mk.inj (Option.some.inj h)
        rfl

theorem insertAll?_perm {sorted : List α} (h : insertAll? less? sorted xs = some ys) :
    ys.Perm (sorted ++ xs) := by
  induction xs generalizing sorted with
  | nil =>
    obtain rfl := Option.some.inj h
    simp
  | cons x xs ih =>
    simp only [insertAll?] at h
    split at h
    · next hn => exact (ih h).trans (((insert?_perm hn).append_right xs).trans List.perm_middle.symm)
    · cases h

theorem sort?_perm (h : sort? less? xs = some ys) : ys.Perm xs := by
  unfold sort? at h
  split at h
  · next x y rest =>
    split at h
    · cases h
    · next down _ =>
      split at h
      · cases h
      · next run others hr =>
        rw [← run?_append hr]
        refine (insertAll?_perm h).trans ?_
        cases down with
        | true => exact (List.reverse_perm _).append_right _
        | false => exact .refl _
  · obtain rfl := Option.some.inj h
    exact .refl _

end Sorting

theorem Value.inOrder_perm {α : Type} (key : α → Value) (xs : List α) : (inOrder key xs).Perm xs := by
  unfold inOrder
  cases h : Sorting.sort? (fun a b => (key a).less? (key b)) xs with
  | none => exact .refl _
  | some ys => exact Sorting.sort?_perm h

end Conform
