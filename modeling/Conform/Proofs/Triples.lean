import Conform.Proofs.Basic

/-! What a computation gives where it succeeds and how it fails, for computations that can fail and for those
with a state besides. What holds of a sequence of steps follows from what holds of each step. -/

namespace Conform

variable {ε σ α β : Type} {E F : ε → Prop} {I : σ → Prop} {Q R : α → Prop} {S : β → Prop}

/-- Whether a computation gives only such results and such errors. -/
def Meets (Q : α → Prop) (E : ε → Prop) : Except ε α → Prop
  | .ok a => Q a
  | .error e => E e

namespace Meets

theorem pure {a : α} (h : Q a) : Meets Q E (Pure.pure a) := h

theorem bind {x : Except ε α} {f : α → Except ε β} (hx : Meets Q E x) (hf : ∀ a, Q a → Meets S E (f a)) :
    Meets S E (x >>= f) := by
  cases x with
  | error e => exact hx
  | ok a => exact hf a hx

theorem ite {c : Prop} [Decidable c] {x y : Except ε α} (hx : c → Meets Q E x) (hy : ¬ c → Meets Q E y) :
    Meets Q E (if c then x else y) := by
  split
  · next h => exact hx h
  · next h => exact hy h

theorem mono {x : Except ε α} (h : Meets Q E x) (hq : ∀ a, Q a → R a) (he : ∀ e, E e → F e) :
    Meets R F x := by
  cases x with
  | error e => exact he e h
  | ok a => exact hq a h

theorem map {x : Except ε α} {f : α → β} (h : Meets Q E x) (hf : ∀ a, Q a → S (f a)) :
    Meets S E (x.map f) := by
  cases x with
  | error e => exact h
  | ok a => exact hf a h

/-- What has no error to give succeeds. -/
theorem exists_ok {x : Except ε α} (h : Meets Q (fun _ => False) x) : ∃ a, x = .ok a ∧ Q a := by
  cases x with
  | error e => cases h
  | ok a => exact ⟨a, rfl, h⟩

theorem mapM {xs : List α} {f : α → Except ε β} (h : ∀ x ∈ xs, Meets S E (f x)) :
    Meets (fun ys => ∀ y ∈ ys, S y) E (xs.mapM f) := by
  induction xs with
  | nil => exact fun y hy => nomatch hy
  | cons x xs ih =>
    rw [List.forall_mem_cons] at h
    rw [List.mapM_cons]
    exact h.1.bind fun y hy => (ih h.2).bind fun ys hys => List.forall_mem_cons.2 ⟨hy, hys⟩

end Meets

/-- Whether a computation keeps an invariant of the state, and gives only such results and such errors. -/
def Keeps (I : σ → Prop) (Q : α → Prop) (E : ε → Prop) (x : StateT σ (Except ε) α) : Prop :=
  ∀ s, I s → Meets (fun r : α × σ => Q r.1 ∧ I r.2) E (x s)

namespace Keeps

theorem pure {a : α} (h : Q a) : Keeps I Q E (Pure.pure a) := fun _ hs => ⟨h, hs⟩

theorem bind {x : StateT σ (Except ε) α} {f : α → StateT σ (Except ε) β} (hx : Keeps I Q E x)
    (hf : ∀ a, Q a → Keeps I S E (f a)) : Keeps I S E (x >>= f) := by
  intro s hs
  have h := hx s hs
  change Meets _ E (x s >>= fun r => f r.1 r.2)
  cases hr : x s with
  | error e =>
    rw [hr] at h
    exact h
  | ok r =>
    rw [hr] at h
    exact hf r.1 h.1 r.2 h.2

theorem ite {c : Prop} [Decidable c] {x y : StateT σ (Except ε) α} (hx : c → Keeps I Q E x)
    (hy : ¬ c → Keeps I Q E y) : Keeps I Q E (if c then x else y) := by
  split
  · next h => exact hx h
  · next h => exact hy h

theorem get : Keeps I I E (MonadState.get (m := StateT σ (Except ε))) := fun _ hs => ⟨hs, hs⟩

theorem set {s : σ} (h : I s) : Keeps I (fun _ => True) E (MonadStateOf.set s) := fun _ _ => ⟨trivial, h⟩

theorem modify {f : σ → σ} (h : ∀ s, I s → I (f s)) : Keeps (ε := ε) I (fun _ => True) E (modify f) :=
  fun s hs => ⟨trivial, h s hs⟩

theorem throw {e : ε} (h : E e) : Keeps I Q E (throw e) := fun _ _ => h

theorem lift {x : Except ε α} (h : Meets Q E x) : Keeps I Q E (liftM x) := by
  intro s hs
  cases x with
  | error e => exact h
  | ok a => exact ⟨h, hs⟩

theorem forM {xs : List α} {f : α → StateT σ (Except ε) Unit} (h : ∀ x ∈ xs, Keeps I (fun _ => True) E (f x)) :
    Keeps I (fun _ => True) E (xs.forM f) := by
  induction xs with
  | nil => exact pure trivial
  | cons x xs ih =>
    rw [List.forall_mem_cons] at h
    exact h.1.bind fun _ _ => ih h.2

end Keeps

end Conform
