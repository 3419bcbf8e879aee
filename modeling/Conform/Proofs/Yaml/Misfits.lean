import Conform.Proofs.Triples
import Conform.Proofs.Yaml.Tree
import Conform.Yaml.Progress

/-! Why a tree has no data. Apart from being unfit, a node is at fault only if it is read as a scalar: its
text, or for a mapping the text of some scalar in the tree, does not fit its tag. Reading has no end, or comes
to what is no tree, only where there are stubs. The build of the data keeps to the nodes of the tree and to the
texts of its scalars, and so does the data itself. -/

namespace Conform.Yaml

namespace Node

/-- The texts as which a node of a tree can be read: its own, or for a mapping or a stub that of a scalar. -/
def HasText (root : Node) : Node → List Char → Prop
  | .scalar _ cs _, text => text = cs
  | .sequence _ _ _, _ => False
  | _, text => ∃ tag site, .scalar tag text site ∈ root.nodes

/-- Whether a node of a tree does not fit its tag, and in what way. A mapping has no text for a timestamp. -/
def Misses (root : Node) (m : Misfit) : Prop :=
  ∃ n ∈ root.nodes, (∃ cs, HasText root n cs ∧ readText cs n.tag = .error m) ∨
    ∃ pairs site, n = .mapping .timestamp pairs site ∧ m = .noText

/-- Whether a collection of a tree holds itself. -/
def IsTied (root : Node) : Prop := ∃ anchor shape tag site, knot anchor shape tag site ∈ root.nodes

/-- Whether a misfit is accounted for by a tree. -/
def Accounts (root : Node) (m : Misfit) : Prop :=
  m = .unfit ∨ root.Misses m ∨ root.IsTied ∧ (m = .endless ∨ m = .circular)

theorem untied_mem_nodes {root n : Node} (hn : n ∈ root.nodes) : root.untied n ∈ root.nodes := by
  cases n with
  | knot anchor shape tag site =>
    rw [untied, anchored?]
    cases hf : root.nodes.find? fun n => n.site.anchor == some anchor with
    | none => exact hn
    | some m => exact List.mem_of_find?_eq_some hf
  | _ => exact hn

end Node

theorem readText_settled {cs : List Char} {tag : Tag} {m : Misfit} (h : readText cs tag.settled = .error m) :
    readText cs tag = .error m := by
  cases tag with
  | value => cases h
  | _ => exact h

namespace Progress

theorem readText_tagOf {p : Progress} {n : Node} {cs : List Char} {m : Misfit}
    (h : readText cs (p.tagOf n) = .error m) : readText cs n.tag = .error m := by
  unfold tagOf at h
  split at h
  · exact readText_settled h
  · exact h

/-- Whether a text is that of a scalar in a tree, where there is one. -/
def TextIn (root : Node) (text : Option (List Char)) : Prop :=
  ∀ cs ∈ text, ∃ tag site, .scalar tag cs site ∈ root.nodes

/-- The text of a node in a tree is that of a scalar in it, if stubs have such texts. -/
theorem meets_textOf {p : Progress} {root : Node} {E : Misfit → Prop}
    {tied : Node → Except Misfit (Option (List Char))}
    (ht : root.IsTied → ∀ n ∈ root.nodes, Meets (TextIn root) E (tied n)) {n : Node} :
    n ∈ root.nodes → Meets (TextIn root) E (p.textOf tied n) := by
  induction n using Node.induction with
  | scalar tag cs site =>
    intro hn cs' hcs
    obtain rfl := Option.some.inj hcs
    exact ⟨tag, site, hn⟩
  | sequence tag items site =>
    intro _ cs hcs
    cases hcs
  | mapping tag pairs site ih =>
    intro hn
    have hin : ∀ q ∈ pairs, q.2 ∈ root.nodes := fun q hq => Node.part_mem_nodes (Node.value_mem_parts hq) hn
    rw [textOf]
    clear hn
    induction pairs with
    | nil =>
      intro cs hcs
      cases hcs
    | cons q ps ihp =>
      rw [List.forall_mem_cons] at ih hin
      rw [valueText]
      split
      · exact ih.1 hin.1
      · exact ihp ih.2 hin.2
  | knot anchor shape tag site =>
    intro hn
    exact ht ⟨anchor, shape, tag, site, hn⟩ _ hn

theorem meets_textBehind {p : Progress} {root : Node} (stubs : Nat) (hk : root.IsTied) :
    ∀ n ∈ root.nodes, Meets (TextIn root) root.Accounts (p.textBehind root stubs n) := by
  induction stubs with
  | zero => exact fun _ _ => .inr (.inr ⟨hk, .inl rfl⟩)
  | succ stubs ih => exact fun n hn => meets_textOf (fun _ => ih) (Node.untied_mem_nodes hn)

end Progress

/-! Merges. -/

/-- Whether the pairs of a merge are in a tree. -/
def Merged.IsIn (root : Node) (m : Merged) : Prop := ∀ p ∈ m.pairs, p.1 ∈ root.nodes ∧ p.2 ∈ root.nodes

section Merged

variable {root : Node} {E : Misfit → Prop} {tied : Node → Except Misfit Merged}

theorem Merged.meets_join {a b : Except Misfit Merged} (ha : Meets (Merged.IsIn root) E a)
    (hb : Meets (Merged.IsIn root) E b) : Meets (Merged.IsIn root) E (Merged.join a b) := by
  refine ha.bind fun m hm => hb.bind fun k hk => Meets.pure fun p hp => ?_
  rcases List.mem_append.1 hp with hp | hp
  · exact hm p hp
  · exact hk p hp

theorem part_of_own {tag : Tag} {pairs : List (Node × Node)} {site : Site} {p : Node × Node}
    (hn : .mapping tag pairs site ∈ root.nodes) (hp : p ∈ pairs.filter (·.1.tag ≠ .merge)) :
    p.1 ∈ root.nodes ∧ p.2 ∈ root.nodes := by
  have hp := List.mem_of_mem_filter hp
  exact ⟨Node.part_mem_nodes (Node.key_mem_parts hp) hn, Node.part_mem_nodes (Node.value_mem_parts hp) hn⟩

theorem meets_broughtByItems {items : List Node}
    (h : ∀ n ∈ items, Meets (Merged.IsIn root) E (n.merged tied)) :
    Meets (Merged.IsIn root) E (broughtByItems tied items) := by
  induction items with
  | nil => exact fun p hp => nomatch hp
  | cons n items ih =>
    rw [List.forall_mem_cons] at h
    exact Merged.meets_join (ih h.2) h.1

theorem meets_broughtIn (ht : root.IsTied → ∀ n ∈ root.nodes, Meets (Merged.IsIn root) E (tied n))
    {pairs : List (Node × Node)} (hs : ∀ p ∈ pairs, p.2 ∈ root.nodes)
    (h : ∀ p ∈ pairs, ∀ n ∈ p.2.nodes, Meets (Merged.IsIn root) E (n.merged tied)) :
    Meets (Merged.IsIn root) E (broughtIn tied pairs) := by
  induction pairs with
  | nil => exact fun p hp => nomatch hp
  | cons p pairs ih =>
    obtain ⟨k, n⟩ := p
    obtain ⟨hs, hss⟩ := List.forall_mem_cons.1 hs
    obtain ⟨hn, hp⟩ := List.forall_mem_cons.1 h
    have hself : Meets (Merged.IsIn root) E (n.merged tied) := hn n (Node.mem_nodes_self n)
    cases n with
    | sequence tag items site =>
      rw [broughtIn]
      refine Meets.ite (fun _ => Merged.meets_join ?_ (ih hss hp)) fun _ => ih hss hp
      exact meets_broughtByItems fun m hm => hn m (Node.mem_nodes_of_mem_parts hm (Node.mem_nodes_self m))
    | knot anchor shape tag site =>
      rw [broughtIn]
      exact Meets.ite (fun _ => Merged.meets_join (ht ⟨_, _, _, _, hs⟩ _ hs) (ih hss hp)) fun _ => ih hss hp
    | scalar tag cs site =>
      rw [broughtIn]
      · exact Meets.ite (fun _ => Merged.meets_join hself (ih hss hp)) fun _ => ih hss hp
      · intro _ _ _ h
        cases h
      · intro _ _ _ _ h
        cases h
    | mapping tag ps site =>
      rw [broughtIn]
      · exact Meets.ite (fun _ => Merged.meets_join hself (ih hss hp)) fun _ => ih hss hp
      · intro _ _ _ h
        cases h
      · intro _ _ _ _ h
        cases h

/-- The pairs that merges bring in are in the tree, if those are that stubs bring in. -/
theorem meets_merged (hu : E .unfit)
    (ht : root.IsTied → ∀ n ∈ root.nodes, Meets (Merged.IsIn root) E (tied n)) {n : Node} : n ∈ root.nodes → Meets (Merged.IsIn root) E (n.merged tied) := by
  -- the induction is over all nodes of a tree, since merge keys look into the sequences below them
  have all : n ∈ root.nodes → ∀ m ∈ n.nodes, Meets (Merged.IsIn root) E (m.merged tied) := by
    induction n using Node.parts_induction with
    | step n ih =>
      intro hn m hm
      have part {l : Node} (hl : l ∈ n.parts) : l ∈ root.nodes := Node.part_mem_nodes hl hn
      rcases Node.mem_nodes_iff.1 hm with rfl | ⟨l, hl, hm⟩
      · cases m with
        | scalar tag cs site => exact hu
        | sequence tag items site => exact hu
        | knot anchor shape tag site =>
          cases shape with
          | sequence => exact hu
          | mapping => exact ht ⟨_, _, _, _, hn⟩ _ hn
        | mapping tag pairs site =>
          rw [Node.merged]
          refine (meets_broughtIn ht (fun p hp => part (Node.value_mem_parts hp)) fun p hp =>
            ih _ (Node.value_mem_parts hp) (part (Node.value_mem_parts hp))).bind fun b hb => ?_
          refine Meets.pure fun p hp => ?_
          rcases List.mem_append.1 hp with hp | hp
          · exact hb p hp
          · exact part_of_own hn hp
      · exact ih l hl (part hl) m hm
  exact fun hn => all hn n (Node.mem_nodes_self n)

theorem meets_own (hu : E .unfit) {n : Node} (hn : n ∈ root.nodes) : Meets (Merged.IsIn root) E n.own := by
  cases n with
  | mapping tag pairs site => exact fun _ hp => part_of_own hn hp
  | _ => exact hu

/-- What a stub brings in is in the tree. -/
theorem meets_tiedIn (hu : E .unfit) {n : Node} (hn : n ∈ root.nodes) :
    Meets (Merged.IsIn root) E (root.tiedIn n) := by
  have hm := Node.untied_mem_nodes hn
  unfold Node.tiedIn
  split
  · next tag items site he =>
    rw [he] at hm
    have hown : ∀ m ∈ items.reverse, Meets (Merged.IsIn root) E (root.untied m).own := fun m hi =>
      meets_own hu (Node.untied_mem_nodes (Node.item_mem_nodes (List.mem_reverse.1 hi) hm))
    refine (Meets.mapM hown).bind fun ms hms => Meets.pure fun p hp => ?_
    obtain ⟨m, hmem, hp⟩ := List.mem_flatMap.1 hp
    exact hms m hmem p hp
  · exact meets_own hu hm

end Merged

/-! Steps of a build. -/

/-- Reading a node of a tree fails as the tree accounts for. -/
theorem meets_readText {root n : Node} {cs : List Char} {tag : Tag} (hn : n ∈ root.nodes)
    (hcs : Node.HasText root n cs) (ht : ∀ m, readText cs tag = .error m → readText cs n.tag = .error m) :
    Meets (fun _ => True) root.Accounts (readText cs tag) := by
  cases h : readText cs tag with
  | ok v => exact trivial
  | error m => exact .inr (.inl ⟨n, hn, .inl ⟨cs, hcs, ht m h⟩⟩)

namespace Build

variable {root : Node}

/-- Whether a build keeps to a tree. -/
structure KeepsTo (root : Node) (p : Progress) : Prop where
  waiting : ∀ n ∈ p.waiting, n ∈ root.nodes
  texts : ∀ e ∈ p.texts, ∃ tag site, .scalar tag e.2 site ∈ root.nodes

/-- Whether a step keeps to a tree and fails only as the tree accounts for. -/
abbrev Sound {α : Type} (root : Node) (Q : α → Prop) (x : Build α) : Prop :=
  Keeps (KeepsTo root) Q root.Accounts x

theorem sound_unfit {α : Type} {Q : α → Prop} : Sound root Q unfit := Keeps.throw (.inl rfl)

theorem sound_read {n : Node} (hn : n ∈ root.nodes) : Sound root (fun _ => True) (read root n) := by
  refine Keeps.get.bind fun p hp => ?_
  split
  · exact Keeps.pure trivial
  have htext : Sound root (Progress.TextIn root) (liftM (p.textOf (p.textBehind root (root.number + 1)) n)) :=
    Keeps.lift (Progress.meets_textOf (fun hk => Progress.meets_textBehind _ hk) hn)
  -- a text is read with the tag of the node, and that of a mapping is kept
  have sound_readText {cs : List Char} (hcs : Node.HasText root n cs) :
      Sound root (fun _ => True) (liftM (readText cs (p.tagOf n))) :=
    Keeps.lift (meets_readText hn hcs fun m => Progress.readText_tagOf)
  cases n with
  | scalar tag cs site =>
    have hs : Sound root (fun t => t = some cs)
        (liftM (p.textOf (p.textBehind root (root.number + 1)) (.scalar tag cs site))) := Keeps.lift rfl
    refine hs.bind fun text ht => ?_
    subst ht
    exact (sound_readText rfl).bind fun _ _ => Keeps.pure trivial
  | sequence tag items site =>
    have hs : Sound root (fun t => t = none)
        (liftM (p.textOf (p.textBehind root (root.number + 1)) (.sequence tag items site))) := Keeps.lift rfl
    refine hs.bind fun text ht => ?_
    subst ht
    exact sound_unfit
  | mapping tag pairs site =>
    refine htext.bind fun text ht => ?_
    cases text with
    | none => exact sound_unfit
    | some cs =>
      refine Keeps.ite (fun htag => ?_) fun _ => ?_
      · obtain rfl : tag = .timestamp := htag
        exact Keeps.throw (.inr (.inl ⟨_, hn, .inr ⟨pairs, site, rfl, rfl⟩⟩))
      · refine (sound_readText (ht cs rfl)).bind fun _ _ => ?_
        exact Keeps.set ⟨hp.waiting, List.forall_mem_cons.2 ⟨ht cs rfl, hp.texts⟩⟩
  | knot anchor shape tag site =>
    refine htext.bind fun text ht => ?_
    cases text with
    | none => exact sound_unfit
    | some cs => exact (sound_readText (ht cs rfl)).bind fun _ _ => Keeps.pure trivial

theorem sound_start (n : Node) : Sound root (fun _ => True) (start n) := by
  refine Keeps.get.bind fun p hp => ?_
  split
  · exact Keeps.pure trivial
  · refine (Keeps.set ?_).bind fun _ _ => Keeps.pure trivial
    exact ⟨hp.waiting, hp.texts⟩

theorem sound_begin {n : Node} (hn : n ∈ root.nodes) : Sound root (fun _ => True) (begin root n) := by
  have hm := Node.untied_mem_nodes hn
  unfold begin
  dsimp only
  split
  · refine (sound_start _).bind fun b _ => ?_
    split
    · exact Keeps.modify fun p hp => ⟨List.forall_mem_cons.2 ⟨hm, hp.waiting⟩, hp.texts⟩
    · exact Keeps.pure trivial
  · exact sound_read hm

theorem sound_asKey {n : Node} (hn : n ∈ root.nodes) : Sound root (fun _ => True) (asKey root n) := by
  refine (sound_begin hn).bind fun _ _ => ?_
  split
  · exact sound_unfit
  · exact Keeps.pure trivial

/-- Whether the nodes of some pairs are in a tree. -/
def AreIn (root : Node) (ps : List (Node × Node)) : Prop := ∀ p ∈ ps, p.1 ∈ root.nodes ∧ p.2 ∈ root.nodes

theorem sound_merged {n : Node} (hn : n ∈ root.nodes) :
    Sound root (fun m => AreIn root m.pairs) (liftM (n.merged root.tiedIn)) := by
  have hu : root.Accounts .unfit := .inl rfl
  exact Keeps.lift (meets_merged hu (fun _ m hm => meets_tiedIn hu hm) hn)

theorem sound_pairs {n : Node} (hn : n ∈ root.nodes) : Sound root (AreIn root) (pairs root n) := by
  cases n with
  | mapping tag pairs site =>
    refine Keeps.get.bind fun p _ => ?_
    split
    · exact (sound_merged hn).bind fun m hm => Keeps.pure hm
    · refine Keeps.pure fun q hq => ?_
      exact ⟨Node.part_mem_nodes (Node.key_mem_parts hq) hn, Node.part_mem_nodes (Node.value_mem_parts hq) hn⟩
  | _ => exact sound_unfit

theorem sound_single {n : Node} (hn : n ∈ root.nodes) : Sound root (fun _ => True) (single root n) := by
  refine (sound_pairs (Node.untied_mem_nodes hn)).bind fun ps hps => ?_
  split
  · next k v =>
    obtain ⟨hk, hv⟩ := hps (k, v) List.mem_cons_self
    exact (sound_begin hk).bind fun _ _ => sound_begin hv
  · exact sound_unfit

theorem sound_entries {n : Node} (hn : n ∈ root.nodes) : Sound root (fun _ => True) (entries root n) := by
  refine (sound_merged hn).bind fun m hm => ?_
  refine (Keeps.modify fun p hp => ⟨hp.waiting, hp.texts⟩).bind fun _ _ => ?_
  refine Keeps.forM fun p hp => ?_
  exact (sound_asKey (hm p hp).1).bind fun _ _ => sound_begin (hm p hp).2

theorem sound_fill {n : Node} (hn : n ∈ root.nodes) : Sound root (fun _ => True) (fill root n) := by
  unfold fill
  split
  · exact Keeps.forM fun m hm => sound_begin (Node.item_mem_nodes hm hn)
  · exact Keeps.forM fun m hm => sound_single (Node.item_mem_nodes hm hn)
  · exact Keeps.forM fun m hm => sound_single (Node.item_mem_nodes hm hn)
  · exact sound_entries hn
  · exact sound_entries hn
  · exact sound_unfit

theorem sound_finish (rounds : Nat) : Sound root (fun _ => True) (finish root rounds) := by
  induction rounds with
  | zero => exact sound_unfit
  | succ rounds ih =>
    unfold finish
    refine Keeps.get.bind fun p hp => ?_
    split
    · exact Keeps.pure trivial
    · refine (Keeps.set ⟨by simp, hp.texts⟩).bind fun _ _ => ?_
      refine (Keeps.forM fun n hn => ?_).bind fun _ _ => ih
      exact sound_fill (hp.waiting n (List.mem_reverse.1 hn))

end Build

/-! The data of a tree. -/

section Data

variable {root : Node} {texts : Texts}

theorem hasText_of_text? {n : Node} {cs : List Char}
    (ht : ∀ e ∈ texts, ∃ tag site, .scalar tag e.2 site ∈ root.nodes) (h : n.text? texts = some cs) :
    Node.HasText root n cs := by
  cases n with
  | scalar tag text site => exact (Option.some.inj h).symm
  | sequence tag items site => cases h
  | knot anchor shape tag site => cases h
  | mapping tag pairs site =>
    obtain ⟨before, after, hl, -⟩ := List.lookup_eq_some_iff.1 h
    exact ht (site.number, cs) (by simp [hl])

variable {read : Node → Except Misfit Value}

theorem meets_pairs (hr : ∀ n ∈ root.nodes, Meets (fun _ => True) root.Accounts (read n)) {n : Node}
    (hn : n ∈ root.nodes) : Meets (fun _ => True) root.Accounts (n.pairs texts read) := by
  have htied : root.IsTied → ∀ m ∈ root.nodes,
      Meets (Merged.IsIn root) root.Accounts (.error .circular) := by
    intro hk m _
    exact .inr (.inr ⟨hk, .inr rfl⟩)
  have hm : Meets (Merged.IsIn root) root.Accounts (n.merged fun _ => .error .circular) :=
    meets_merged (.inl rfl) htied hn
  refine hm.bind fun m hm => (Meets.mapM (S := fun _ => True) fun p hp => ?_).mono (fun _ _ => trivial) fun _ => id
  obtain ⟨hk, hv⟩ := hm p hp
  exact (hr p.1 hk).bind fun _ _ => (hr p.2 hv).bind fun _ _ => trivial

theorem meets_single (hr : ∀ n ∈ root.nodes, Meets (fun _ => True) root.Accounts (read n)) {n : Node}
    (hn : n ∈ root.nodes) : Meets (fun _ => True) root.Accounts (n.single texts read) := by
  refine (meets_pairs hr hn).bind fun ps _ => ?_
  split
  · exact trivial
  · exact .inl rfl

theorem meets_entries (hr : ∀ n ∈ root.nodes, Meets (fun _ => True) root.Accounts (read n)) {n : Node}
    (hn : n ∈ root.nodes) : Meets (fun _ => True) root.Accounts (n.entries texts read) :=
  (meets_pairs hr hn).map fun _ _ => trivial

theorem meets_dataWithin (ht : ∀ e ∈ texts, ∃ tag site, .scalar tag e.2 site ∈ root.nodes) (depth : Nat) :
    ∀ n ∈ root.nodes, Meets (fun _ => True) root.Accounts (n.dataWithin texts depth) := by
  induction depth with
  | zero => exact fun _ _ => .inl rfl
  | succ depth ih =>
    intro n hn
    unfold Node.dataWithin
    split
    · exact (Meets.mapM fun m hm => ih m (Node.item_mem_nodes hm hn)).map fun _ _ => trivial
    · exact (Meets.mapM fun m hm => meets_single ih (Node.item_mem_nodes hm hn)).map fun _ _ => trivial
    · exact (Meets.mapM fun m hm => meets_single ih (Node.item_mem_nodes hm hn)).map fun _ _ => trivial
    · exact (meets_entries ih hn).map fun _ _ => trivial
    · exact (meets_entries ih hn).map fun _ _ => trivial
    · exact .inr (.inr ⟨⟨_, _, _, _, hn⟩, .inr rfl⟩)
    · split
      · next cs hcs => exact meets_readText hn (hasText_of_text? ht hcs) fun m => readText_settled
      · exact .inl rfl

/-- A tree without data is unfit, it has a node that does not fit its tag, or a collection in it holds itself. -/
theorem accounts_of_dataOf {m : Misfit} (h : dataOf (some root) = .error m) : root.Accounts m := by
  have hroot := root.mem_nodes_self
  have hb : Build.Sound root (fun _ => True) (do Build.begin root root; Build.finish root (root.number + 2)) :=
    (Build.sound_begin hroot).bind fun _ _ => Build.sound_finish _
  have hd : Meets (fun _ => True) root.Accounts (dataOf (some root)) := by
    refine (hb {} ⟨by simp, by simp⟩).bind fun r hr => Meets.ite (fun he => ?_) fun _ => ?_
    · exact .inr (.inr ⟨Node.exists_knot_of_isEndless he, .inl rfl⟩)
    · exact meets_dataWithin hr.2.texts (root.number + 1) root hroot
  rw [h] at hd
  exact hd

end Data

end Conform.Yaml
