import Mathlib.Data.List.Forall2

/-! Two lists in step, what is found in a list and put into it, and computations that may fail. -/

namespace Conform

theorem sizeOf_snd_lt {α β : Type} [SizeOf α] [SizeOf β] (e : α × β) : sizeOf e.2 < sizeOf e := by
  cases e
  simp only [Prod.mk.sizeOf_spec]
  omega

theorem sizeOf_fst_lt {α β : Type} [SizeOf α] [SizeOf β] (e : α × β) : sizeOf e.1 < sizeOf e := by
  cases e
  simp only [Prod.mk.sizeOf_spec]
  omega

theorem ne_of_holds {α : Type} {p : α → Bool} {a b : α} (ha : p a = true) (hb : p b = false) : a ≠ b := by
  rintro rfl
  exact Bool.false_ne_true (hb.symm.trans ha)

section Lists

variable {α β γ : Type} {R S : α → β → Prop}

theorem forall₂_imp_of_mem {xs : List α} {ys : List β} (h : List.Forall₂ R xs ys)
    (hi : ∀ x ∈ xs, ∀ y ∈ ys, R x y → S x y) : List.Forall₂ S xs ys := by
  refine List.forall₂_iff_zip.2 ⟨h.length_eq, fun {x y} hz => ?_⟩
  obtain ⟨hx, hy⟩ := List.of_mem_zip hz
  exact hi x hx y hy (List.forall₂_zip h hz)

theorem forall₂_congr_of_mem {xs : List α} {ys : List β} (h : ∀ x ∈ xs, ∀ y, R x y ↔ S x y) :
    List.Forall₂ R xs ys ↔ List.Forall₂ S xs ys :=
  ⟨fun hr => forall₂_imp_of_mem hr fun x hx y _ => (h x hx y).1,
    fun hs => forall₂_imp_of_mem hs fun x hx y _ => (h x hx y).2⟩

theorem exists_forall₂_iff {xs : List α} :
    (∃ ys, List.Forall₂ R xs ys) ↔ ∀ x ∈ xs, ∃ y, R x y := by
  induction xs with
  | nil => simp
  | cons x xs ih =>
    rw [List.forall_mem_cons, ← ih]
    refine ⟨fun h => ?_, fun h => ?_⟩
    · obtain ⟨_, _ | ⟨hx, hxs⟩⟩ := h
      exact ⟨⟨_, hx⟩, _, hxs⟩
    · obtain ⟨⟨y, hy⟩, ys, hys⟩ := h
      exact ⟨y :: ys, .cons hy hys⟩

/-- Two lists that are in step with a third are in step with each other. -/
theorem forall₂_of_common {T : α → γ → Prop} {xs : List α} {ys : List β} {zs : List γ}
    (hy : List.Forall₂ R xs ys) (hz : List.Forall₂ T xs zs) :
    List.Forall₂ (fun y z => ∃ x ∈ xs, R x y ∧ T x z) ys zs := by
  induction hy generalizing zs with
  | nil =>
    cases hz
    exact .nil
  | @cons x y xs ys hxy _ ih =>
    obtain _ | ⟨hxz, hz⟩ := hz
    refine .cons ⟨x, List.mem_cons_self, hxy, hxz⟩ ((ih hz).imp ?_)
    rintro a b ⟨x', hx', h⟩
    exact ⟨x', List.mem_cons_of_mem _ hx', h⟩

theorem eq_of_forall₂ {xs : List α} {ys zs : List β} (hy : List.Forall₂ R xs ys)
    (hz : List.Forall₂ R xs zs) (h : ∀ x ∈ xs, ∀ y z, R x y → R x z → y = z) : ys = zs := by
  rw [← List.forall₂_eq_eq_eq]
  refine (forall₂_of_common hy hz).imp ?_
  rintro y z ⟨x, hx, hxy, hxz⟩
  exact h x hx y z hxy hxz

theorem exists_mem_of_forall₂ {xs : List α} {ys : List β} (h : List.Forall₂ R xs ys) {x : α}
    (hx : x ∈ xs) : ∃ y ∈ ys, R x y := by
  induction h with
  | nil => simp at hx
  | cons hr _ ih =>
    rcases List.mem_cons.1 hx with rfl | hx
    · exact ⟨_, List.mem_cons_self, hr⟩
    · obtain ⟨y, hy, hr⟩ := ih hx
      exact ⟨y, List.mem_cons_of_mem _ hy, hr⟩

theorem forall₂_and {xs : List α} {ys : List β} (hr : List.Forall₂ R xs ys)
    (hs : List.Forall₂ S xs ys) : List.Forall₂ (fun x y => R x y ∧ S x y) xs ys :=
  List.forall₂_iff_zip.2 ⟨hr.length_eq, fun hz => ⟨List.forall₂_zip hr hz, List.forall₂_zip hs hz⟩⟩

theorem forall₂_zip_zip {δ : Type} {T : γ → δ → Prop} {xs : List α} {ys : List β} {us : List γ}
    {vs : List δ} (hr : List.Forall₂ R xs ys) (ht : List.Forall₂ T us vs) :
    List.Forall₂ (fun p q => R p.1 q.1 ∧ T p.2 q.2) (xs.zip us) (ys.zip vs) := by
  induction hr generalizing us vs with
  | nil => exact .nil
  | cons hr _ ih =>
    cases ht with
    | nil => exact .nil
    | cons ht hts => exact .cons ⟨hr, ht⟩ (ih hts)

theorem map_eq_map_iff_forall₂ {f : α → γ} {g : β → γ} {xs : List α} {ys : List β} :
    xs.map f = ys.map g ↔ List.Forall₂ (fun x y => f x = g y) xs ys := by
  rw [← List.forall₂_eq_eq_eq, List.forall₂_map_left_iff, List.forall₂_map_right_iff]

/-- Two lists of pairs that have the same names in step. -/
theorem forall₂_of_map_eq {ps : List (γ × α)} {qs : List (γ × β)} (hk : ps.map (·.1) = qs.map (·.1))
    (hv : List.Forall₂ R (ps.map (·.2)) (qs.map (·.2))) :
    List.Forall₂ (fun p q => p.1 = q.1 ∧ R p.2 q.2) ps qs := by
  rw [List.forall₂_map_left_iff, List.forall₂_map_right_iff] at hv
  exact forall₂_and (map_eq_map_iff_forall₂.1 hk) hv

/-- Of two lists in step, one is in step with a third as the other is. -/
theorem forall₂_iff_of_forall₂ {T : α → γ → Prop} {U : β → γ → Prop} {xs : List α} {ys : List β}
    {zs : List γ} (h : List.Forall₂ R xs ys)
    (htu : ∀ x ∈ xs, ∀ y, R x y → ∀ z, (T x z ↔ U y z)) :
    List.Forall₂ T xs zs ↔ List.Forall₂ U ys zs := by
  induction h generalizing zs with
  | nil => rw [List.forall₂_nil_left_iff, List.forall₂_nil_left_iff]
  | @cons x y xs ys hxy _ ih =>
    cases zs with
    | nil => simp
    | cons z zs =>
      rw [List.forall₂_cons, List.forall₂_cons, htu x List.mem_cons_self y hxy,
        ih fun x' hx' => htu x' (List.mem_cons_of_mem _ hx')]

section Partners

variable {P : α → Prop} {Q : β → Prop} {xs : List α} {ys : List β}

theorem forall_mem_iff_of_forall₂ (h : List.Forall₂ R xs ys)
    (hpq : ∀ x ∈ xs, ∀ y ∈ ys, R x y → (P x ↔ Q y)) : (∀ x ∈ xs, P x) ↔ ∀ y ∈ ys, Q y := by
  refine ⟨fun hp y hy => ?_, fun hq x hx => ?_⟩
  · obtain ⟨x, hx, hr⟩ := exists_mem_of_forall₂ h.flip hy
    exact (hpq x hx y hy hr).1 (hp x hx)
  · obtain ⟨y, hy, hr⟩ := exists_mem_of_forall₂ h hx
    exact (hpq x hx y hy hr).2 (hq y hy)

theorem exists_mem_iff_of_forall₂ (h : List.Forall₂ R xs ys)
    (hpq : ∀ x ∈ xs, ∀ y ∈ ys, R x y → (P x ↔ Q y)) : (∃ x ∈ xs, P x) ↔ ∃ y ∈ ys, Q y := by
  refine ⟨fun hp => ?_, fun hq => ?_⟩
  · obtain ⟨x, hx, hp⟩ := hp
    obtain ⟨y, hy, hr⟩ := exists_mem_of_forall₂ h hx
    exact ⟨y, hy, (hpq x hx y hy hr).1 hp⟩
  · obtain ⟨y, hy, hq⟩ := hq
    obtain ⟨x, hx, hr⟩ := exists_mem_of_forall₂ h.flip hy
    exact ⟨x, hx, (hpq x hx y hy hr).2 hq⟩

theorem findSome?_eq_of_forall₂ {f : α → Option γ} {g : β → Option γ} (h : List.Forall₂ R xs ys)
    (hfg : ∀ x ∈ xs, ∀ y ∈ ys, R x y → f x = g y) : xs.findSome? f = ys.findSome? g := by
  induction h with
  | nil => rfl
  | @cons x y xs ys hr _ ih =>
    rw [List.findSome?_cons, List.findSome?_cons, hfg x List.mem_cons_self y List.mem_cons_self hr,
      ih fun x' hx y' hy => hfg x' (List.mem_cons_of_mem _ hx) y' (List.mem_cons_of_mem _ hy)]

end Partners

/-- What holds of all that two lists make of each other, place by place. -/
theorem forall_mem_zip_of_forall₂ {P : α → β → γ → Prop} {Q : α → γ → Prop} {xs : List α} {ys : List β}
    {zs : List γ} (hq : ∀ x ∈ xs, ∀ y ∈ ys, ∀ z, P x y z → Q x z)
    (h : List.Forall₂ (fun p z => P p.1 p.2 z) (xs.zip ys) zs) : ∀ p ∈ xs.zip zs, Q p.1 p.2 := by
  induction xs generalizing ys zs with
  | nil => simp
  | cons x xs ih =>
    cases ys with
    | nil =>
      obtain rfl := List.forall₂_nil_left_iff.1 h
      simp
    | cons y ys =>
      obtain ⟨z, zs, hz, hzs, rfl⟩ := List.forall₂_cons_left_iff.1 h
      refine List.forall_mem_cons.2 ⟨hq x List.mem_cons_self y List.mem_cons_self z hz, ih ?_ hzs⟩
      exact fun x' hx y' hy => hq x' (List.mem_cons_of_mem _ hx) y' (List.mem_cons_of_mem _ hy)

theorem rel_getElem?_of_forall₂ {xs : List α} {ys : List β} (h : List.Forall₂ R xs ys) (i : Nat) :
    Option.Rel R xs[i]? ys[i]? := by
  induction h generalizing i with
  | nil => exact .none
  | cons hr _ ih =>
    cases i with
    | zero => exact .some hr
    | succ i => exact ih i

theorem exists_getElem?_of_forall₂ {xs : List α} {ys : List β} (h : List.Forall₂ R xs ys) {i : Nat} {x : α}
    (hx : xs[i]? = some x) : ∃ y, ys[i]? = some y ∧ R x y := by
  have hr := rel_getElem?_of_forall₂ h i
  rw [hx] at hr
  cases hy : ys[i]? with
  | none => simp [hy] at hr
  | some y => exact ⟨y, rfl, by rwa [hy, Option.rel_some_some] at hr⟩

theorem rel_find?_of_forall₂ {p : α → Bool} {q : β → Bool} (hpq : ∀ x y, R x y → p x = q y)
    {xs : List α} {ys : List β} (h : List.Forall₂ R xs ys) :
    Option.Rel R (xs.find? p) (ys.find? q) := by
  induction h with
  | nil => exact .none
  | @cons x y xs ys hr _ ih =>
    rw [List.find?_cons, List.find?_cons, hpq x y hr]
    cases q y with
    | true => exact .some hr
    | false => exact ih

theorem exists_iff_of_rel {P : α → Prop} {Q : β → Prop} {a : Option α} {b : Option β}
    (h : Option.Rel R a b) (hpq : ∀ x y, a = some x → b = some y → R x y → (P x ↔ Q y)) :
    (∃ x, a = some x ∧ P x) ↔ ∃ y, b = some y ∧ Q y := by
  cases h with
  | none => simp
  | some hr => simpa using hpq _ _ rfl rfl hr

theorem rel_map_of_rel {δ : Type} {T : γ → δ → Prop} {f : α → γ} {g : β → δ}
    (h : ∀ x y, R x y → T (f x) (g y)) {a : Option α} {b : Option β} (hr : Option.Rel R a b) :
    Option.Rel T (a.map f) (b.map g) := by
  cases hr with
  | none => exact .none
  | some hr => exact .some (h _ _ hr)

end Lists

/-! What is found in a list where at most one element is looked for. -/

theorem map_find?_eq_some_iff {α β : Type} {p : α → Bool} {f : α → β} {xs : List α} {b : β}
    (h : xs.Pairwise fun x y => p x = true → p y = false) :
    (xs.find? p).map f = some b ↔ ∃ x ∈ xs, p x = true ∧ f x = b := by
  induction xs with
  | nil => simp
  | cons x xs ih =>
    obtain ⟨hx, hxs⟩ := List.pairwise_cons.1 h
    by_cases hp : p x = true
    · rw [List.find?_cons_of_pos hp, Option.map_some, Option.some.injEq]
      refine ⟨fun h => ?_, fun h => ?_⟩
      · obtain rfl := h
        exact ⟨x, List.mem_cons_self, hp, rfl⟩
      · obtain ⟨y, hy, hpy, rfl⟩ := h
        rcases List.mem_cons.1 hy with rfl | hy
        · rfl
        · simp [hx y hy hp] at hpy
    · rw [List.find?_cons_of_neg hp, ih hxs]
      refine ⟨fun h => ?_, fun h => ?_⟩
      · obtain ⟨y, hy, h⟩ := h
        exact ⟨y, List.mem_cons_of_mem _ hy, h⟩
      · obtain ⟨y, hy, hpy, hfy⟩ := h
        rcases List.mem_cons.1 hy with rfl | hy
        · exact absurd hpy hp
        · exact ⟨y, hy, hpy, hfy⟩

/-- Entries that are put one by one behind those that are apart from them stay as they are. -/
theorem foldl_eq_append {α : Type} {put : List α → α → List α} {R : α → α → Prop}
    (hp : ∀ t a, (∀ b ∈ t, R b a) → put t a = t ++ [a]) {as : List α} : ∀ {t : List α},
    (t ++ as).Pairwise R → as.foldl put t = t ++ as := by
  induction as with
  | nil => simp
  | cons a as ih =>
    intro t h
    have ha : ∀ b ∈ t, R b a := fun b hb => (List.pairwise_append.1 h).2.2 b hb a List.mem_cons_self
    rw [List.foldl_cons, hp t a ha, ih (by simpa using h)]
    simp

/-! Results. -/

theorem bind_eq_ok {ε α β : Type} {x : Except ε α} {f : α → Except ε β} {b : β} :
    (x >>= f) = .ok b ↔ ∃ a, x = .ok a ∧ f a = .ok b := by
  cases x with
  | error e => simp [bind, Except.bind]
  | ok a => simp [bind, Except.bind]

theorem pure_eq_ok {ε α : Type} {a b : α} : (pure a : Except ε α) = .ok b ↔ a = b := by
  simp [pure, Except.pure]

theorem map_eq_ok {ε α β : Type} {x : Except ε α} {f : α → β} {b : β} :
    x.map f = .ok b ↔ ∃ a, x = .ok a ∧ f a = b := by
  cases x <;> simp [Except.map]

theorem bind_eq_error {ε α β : Type} {x : Except ε α} {f : α → Except ε β} {e : ε} :
    (x >>= f) = .error e ↔ x = .error e ∨ ∃ a, x = .ok a ∧ f a = .error e := by
  cases x with
  | error e => simp [bind, Except.bind]
  | ok a => simp [bind, Except.bind]

theorem map_eq_error {ε α β : Type} {x : Except ε α} {f : α → β} {e : ε} :
    x.map f = .error e ↔ x = .error e := by
  cases x <;> simp [Except.map]

theorem ok_of_mapError {ε δ α : Type} {x : Except ε α} {f : ε → δ} {a : α}
    (h : x.mapError f = .ok a) : x = .ok a := by
  cases x with
  | error e => cases h
  | ok b => exact congrArg _ (Except.ok.inj h)

theorem ok_of_toOption {ε α : Type} {x : Except ε α} {a : α} (h : x.toOption = some a) : x = .ok a := by
  cases x with
  | error e => cases h
  | ok b => exact congrArg _ (Option.some.inj h)

theorem mapM_eq_ok {ε α β : Type} {f : α → Except ε β} {xs : List α} {ys : List β} :
    xs.mapM f = .ok ys ↔ List.Forall₂ (fun x y => f x = .ok y) xs ys := by
  induction xs generalizing ys with
  | nil => rw [List.mapM_nil, pure_eq_ok, List.forall₂_nil_left_iff, eq_comm]
  | cons x xs ih =>
    rw [List.mapM_cons, bind_eq_ok, List.forall₂_cons_left_iff]
    refine exists_congr fun y => ?_
    simp only [bind_eq_ok, pure_eq_ok, ih]
    refine ⟨fun h => ?_, fun h => ?_⟩
    · obtain ⟨hy, zs, hzs, rfl⟩ := h
      exact ⟨zs, hy, hzs, rfl⟩
    · obtain ⟨zs, hy, hzs, rfl⟩ := h
      exact ⟨hy, zs, hzs, rfl⟩

end Conform
