import Conform.Proofs.Triples
import Conform.Proofs.Yaml.Data

/-! Which trees have data: the plain ones whose scalars fit their tags and whose nodes have greater numbers than
the nodes in them. No step of the build fails then. Each round fills what the one before has begun, and what it
begins itself has smaller numbers, so there are rounds enough. -/

namespace Conform.Yaml

/-- Whether a computation gives a result. -/
abbrev Succeeds {α : Type} (x : Except Misfit α) : Prop := Meets (fun _ => True) (fun _ => False) x

theorem succeeds_of_eq {α : Type} {x : Except Misfit α} {a : α} (h : x = .ok a) : Succeeds x := by
  rw [h]
  trivial

theorem Tag.settled_of_readText {tag : Tag} {cs : List Char} {v : Value} (h : readText cs tag = .ok v) :
    tag.isCollection = false ∧ tag.settled = tag := by
  cases tag <;> first | exact ⟨rfl, rfl⟩ | cases h

namespace Node

/-- Whether a tree can be built: it is plain, its scalars fit their tags, and parts have smaller numbers. -/
structure IsSound (n : Node) : Prop where
  plain : n.isPlain = true
  fits : ∀ tag cs site, .scalar tag cs site ∈ n.nodes → ∃ v, readText cs tag = .ok v
  ranked : ∀ m ∈ n.nodes, ∀ l ∈ m.parts, l.number < m.number

variable {m n : Node}

theorem isPlain_of_mem_parts (h : n.isPlain = true) (hm : m ∈ n.parts) : m.isPlain = true := by
  cases n with
  | scalar tag cs site => cases hm
  | knot anchor shape tag site => cases hm
  | sequence tag items site => exact (isPlain_sequence_iff.1 h).2 m hm
  | mapping tag pairs site =>
    obtain ⟨-, hk, hp⟩ := isPlain_mapping_iff.1 h
    rw [haveStringKeys, Bool.and_eq_true, List.all_eq_true] at hk
    rcases List.mem_append.1 hm with hm | hm
    · obtain ⟨p, hp, rfl⟩ := List.mem_map.1 hm
      obtain ⟨cs, site, hs⟩ := exists_of_isString (hk.1 p hp)
      rw [hs]
      rfl
    · obtain ⟨p, hq, rfl⟩ := List.mem_map.1 hm
      exact hp p hq

namespace IsSound

theorem part (h : n.IsSound) (hm : m ∈ n.parts) : m.IsSound where
  plain := isPlain_of_mem_parts h.plain hm
  fits tag cs site hs := h.fits tag cs site (mem_nodes_of_mem_parts hm hs)
  ranked l hl := h.ranked l (mem_nodes_of_mem_parts hm hl)

theorem untied (h : n.IsSound) (root : Node) : root.untied n = n := by
  cases n with
  | knot anchor shape tag site => cases h.plain
  | _ => rfl

theorem number_lt (h : n.IsSound) (hm : m ∈ n.parts) : m.number < n.number := h.ranked n (mem_nodes_self n) m hm

theorem exists_readText {tag : Tag} {cs : List Char} {site : Site} (h : (scalar tag cs site).IsSound) :
    ∃ v, readText cs tag = .ok v := h.fits tag cs site (mem_nodes_self _)

theorem merged (tied : Node → Except Misfit Merged) {tag : Tag} {pairs : List (Node × Node)} {site : Site}
    (h : (mapping tag pairs site).IsSound) :
    ∃ numbers, (mapping tag pairs site).merged tied = .ok ⟨pairs, numbers⟩ := by
  obtain ⟨-, hk, -⟩ := isPlain_mapping_iff.1 h.plain
  rw [haveStringKeys, Bool.and_eq_true, List.all_eq_true] at hk
  exact merged_mapping tied tag site fun p hp => tag_ne_merge_of_isString (hk.1 p hp)

/-- A tree can be built if its parts can, and its own tag and keys are plain. -/
theorem of_parts (hn : n.isPlain = true) (hf : ∀ tag cs site, n = scalar tag cs site → ∃ v, readText cs tag = .ok v)
    (hp : ∀ m ∈ n.parts, m.IsSound ∧ m.number < n.number) : n.IsSound where
  plain := hn
  fits tag cs site hs := by
    rcases mem_nodes_iff.1 hs with hs | ⟨m, hm, hs⟩
    · exact hf tag cs site hs.symm
    · exact (hp m hm).1.fits tag cs site hs
  ranked l hl := by
    rcases mem_nodes_iff.1 hl with rfl | ⟨m, hm, hl⟩
    · exact fun m hm => (hp m hm).2
    · exact (hp m hm).1.ranked l hl

theorem scalar {tag : Tag} {cs : List Char} {site : Site} {v : Value} (h : readText cs tag = .ok v) :
    (scalar tag cs site).IsSound := by
  refine of_parts rfl (fun t ds s he => ?_) (fun m hm => by cases hm)
  cases he
  exact ⟨v, h⟩

theorem sequence {items : List Node} {site : Site} (h : ∀ m ∈ items, m.IsSound)
    (hr : ∀ m ∈ items, m.number < site.number) : (sequence .seq items site).IsSound :=
  of_parts (isPlain_sequence_iff.2 ⟨rfl, fun m hm => (h m hm).plain⟩) (fun _ _ _ he => by cases he)
    fun m hm => ⟨h m hm, hr m hm⟩

theorem mapping {pairs : List (Node × Node)} {site : Site} (hk : haveStringKeys pairs = true)
    (h : ∀ p ∈ pairs, p.2.IsSound) (hr : ∀ p ∈ pairs, p.1.number < site.number ∧ p.2.number < site.number) :
    (mapping .map pairs site).IsSound := by
  refine of_parts (isPlain_mapping_iff.2 ⟨rfl, hk, fun p hp => (h p hp).plain⟩) (fun _ _ _ he => by cases he)
    fun m hm => ?_
  rcases List.mem_append.1 hm with hm | hm
  · obtain ⟨p, hp, rfl⟩ := List.mem_map.1 hm
    rw [haveStringKeys, Bool.and_eq_true, List.all_eq_true] at hk
    obtain ⟨cs, s, hs⟩ := exists_of_isString (hk.1 p hp)
    have hl := (hr p hp).1
    have ht : readText cs .str = .ok (.str (String.ofList cs)) := rfl
    rw [hs] at hl ⊢
    exact ⟨scalar ht, hl⟩
  · obtain ⟨p, hp, rfl⟩ := List.mem_map.1 hm
    exact ⟨h p hp, (hr p hp).2⟩

end IsSound

end Node

/-! Rounds of the build. -/

namespace Build

variable {root n : Node} {b : Nat}

/-- Whether no mapping has a text of its own, and what waits can be built and has numbers below a bound. -/
structure Waits (b : Nat) (p : Progress) : Prop where
  texts : p.texts = []
  waiting : ∀ n ∈ p.waiting, n.IsSound ∧ n.tag.isCollection = true ∧ n.number < b

theorem Waits.mono {p : Progress} {c : Nat} (h : Waits b p) (hb : b ≤ c) : Waits c p :=
  ⟨h.texts, fun n hn => ⟨(h.waiting n hn).1, (h.waiting n hn).2.1, Nat.lt_of_lt_of_le (h.waiting n hn).2.2 hb⟩⟩

/-- Whether a step succeeds, and begins only what has numbers below a bound. -/
abbrev Works {α : Type} (b : Nat) (x : Build α) : Prop := Keeps (Waits b) (fun _ => True) (fun _ => False) x

theorem works_read (hn : n.IsSound) (ht : n.tag.isCollection = false) : Works b (read root n) := by
  cases n with
  | knot anchor shape tag site => cases hn.plain
  | scalar tag cs site =>
    obtain ⟨v, hv⟩ := hn.exists_readText
    refine Keeps.get.bind fun p hp => ?_
    have hl : (p.texts.lookup site.number).isSome = false := by
      rw [hp.texts]
      rfl
    have htag : p.tagOf (.scalar tag cs site) = tag := by
      rw [Progress.tagOf]
      split
      · exact (Tag.settled_of_readText hv).2
      · rfl
    split
    · next h => exact absurd h (by simp [hl, Node.number, Node.site])
    · have ht : Keeps (Waits b) (fun t => t = some cs) (fun _ => False)
          (liftM (p.textOf (p.textBehind root (root.number + 1)) (.scalar tag cs site))) := Keeps.lift rfl
      refine ht.bind fun t ht => ?_
      subst ht
      refine (Keeps.lift (Q := fun _ => True) ?_).bind fun _ _ => Keeps.pure trivial
      rw [htag, hv]
      trivial
  | sequence tag items site =>
    obtain rfl := (Node.isPlain_sequence_iff.1 hn.plain).1
    cases ht
  | mapping tag pairs site =>
    obtain rfl := (Node.isPlain_mapping_iff.1 hn.plain).1
    cases ht

theorem works_start (n : Node) : Works b (start n) := by
  refine Keeps.get.bind fun p hp => ?_
  split
  · exact Keeps.pure trivial
  · exact (Keeps.set ⟨hp.texts, hp.waiting⟩).bind fun _ _ => Keeps.pure trivial

theorem works_begin (hn : n.IsSound) (hb : n.number < b) : Works b (begin root n) := by
  unfold begin
  rw [hn.untied]
  dsimp only
  split
  · next ht =>
    refine (works_start n).bind fun _ _ => ?_
    split
    · exact Keeps.modify fun p hp => ⟨hp.texts, List.forall_mem_cons.2 ⟨⟨hn, ht, hb⟩, hp.waiting⟩⟩
    · exact Keeps.pure trivial
  · next ht => exact works_read hn (Bool.eq_false_iff.2 ht)

/-- A key that is a string is read at once. -/
theorem works_asKey (hn : n.IsSound) (hb : n.number < b) (hs : n.isString = true) : Works b (asKey root n) := by
  refine (works_begin hn hb).bind fun _ _ => ?_
  obtain ⟨cs, site, rfl⟩ := Node.exists_of_isString hs
  exact Keeps.pure trivial

theorem works_fill (hn : n.IsSound) (ht : n.tag.isCollection = true) (hb : n.number ≤ b) :
    Works b (fill root n) := by
  have lt {m : Node} (hm : m ∈ n.parts) : m.number < b := Nat.lt_of_lt_of_le (hn.number_lt hm) hb
  have part {m : Node} (hm : m ∈ n.parts) : Works b (begin root m) := works_begin (hn.part hm) (lt hm)
  cases n with
  | knot anchor shape tag site => cases hn.plain
  | scalar tag cs site =>
    obtain ⟨v, hv⟩ := hn.exists_readText
    exact absurd ((Tag.settled_of_readText hv).1.symm.trans ht) (by simp)
  | sequence tag items site =>
    obtain rfl := (Node.isPlain_sequence_iff.1 hn.plain).1
    exact Keeps.forM fun m hm => part hm
  | mapping tag pairs site =>
    obtain ⟨rfl, hk, -⟩ := Node.isPlain_mapping_iff.1 hn.plain
    rw [Node.haveStringKeys, Bool.and_eq_true, List.all_eq_true] at hk
    obtain ⟨numbers, hm⟩ := hn.merged root.tiedIn
    have hmerged : Keeps (Waits b) (fun m : Merged => m.pairs = pairs) (fun _ => False)
        (liftM ((Node.mapping .map pairs site).merged root.tiedIn)) := Keeps.lift (by rw [hm]; exact rfl)
    refine hmerged.bind fun m hm => ?_
    refine (Keeps.modify fun p hp => ⟨hp.texts, hp.waiting⟩).bind fun _ _ => ?_
    rw [hm]
    refine Keeps.forM fun p hp => ?_
    have hkey : p.1 ∈ (Node.mapping .map pairs site).parts := Node.key_mem_parts hp
    exact (works_asKey (hn.part hkey) (lt hkey) (hk.1 p hp)).bind fun _ _ =>
      part (Node.value_mem_parts hp)

/-- As many rounds as the numbers allow, and one to see that nothing waits any more. -/
theorem works_finish (rounds : Nat) : ∀ {b : Nat}, b < rounds → Works b (finish root rounds) := by
  induction rounds with
  | zero => exact fun hb => absurd hb (Nat.not_lt_zero _)
  | succ rounds ih =>
    intro b hb
    unfold finish
    refine Keeps.get.bind fun p hp => ?_
    split
    · exact Keeps.pure trivial
    · next he =>
      obtain ⟨n, hn⟩ := List.exists_mem_of_ne_nil p.waiting (by simpa using he)
      obtain ⟨b, rfl⟩ := Nat.exists_eq_succ_of_ne_zero (Nat.ne_of_gt (Nat.zero_lt_of_lt (hp.waiting n hn).2.2))
      -- what is begun in this round has smaller numbers than what waited for it
      have hround : Works b (do
          p.waiting.reverse.forM (fill root)
          finish root rounds) := by
        refine (Keeps.forM fun m hm => ?_).bind fun _ _ => ih (Nat.lt_of_succ_lt_succ hb)
        obtain ⟨hs, ht, hlt⟩ := hp.waiting m (List.mem_reverse.1 hm)
        exact works_fill hs ht (Nat.le_of_lt_succ hlt)
      intro s _
      exact (hround { p with waiting := [] } ⟨hp.texts, by simp⟩).mono
        (fun r hr => ⟨hr.1, hr.2.mono (Nat.le_succ b)⟩) fun _ h => h

end Build

/-! Data. -/

namespace Node

theorem dataWithin_scalar (texts : Texts) (depth : Nat) (tag : Tag) (cs : List Char) (site : Site) :
    (scalar tag cs site).dataWithin texts (depth + 1) = readText cs tag.settled := by
  cases tag <;> rfl

theorem succeeds_dataWithin (texts : Texts) (depth : Nat) : ∀ {n : Node}, n.IsSound → n.number < depth →
    Succeeds (n.dataWithin texts depth) := by
  induction depth with
  | zero => exact fun _ hd => absurd hd (Nat.not_lt_zero _)
  | succ depth ih =>
    intro n hn hd
    have part {m : Node} (hm : m ∈ n.parts) : Succeeds (m.dataWithin texts depth) :=
      ih (hn.part hm) (Nat.lt_of_lt_of_le (hn.number_lt hm) (Nat.le_of_lt_succ hd))
    cases n with
    | knot anchor shape tag site => cases hn.plain
    | scalar tag cs site =>
      obtain ⟨v, hv⟩ := hn.exists_readText
      rw [dataWithin_scalar, (Tag.settled_of_readText hv).2]
      exact succeeds_of_eq hv
    | sequence tag items site =>
      obtain rfl := (isPlain_sequence_iff.1 hn.plain).1
      exact (Meets.mapM fun m hm => part hm).map fun _ _ => trivial
    | mapping tag pairs site =>
      obtain rfl := (isPlain_mapping_iff.1 hn.plain).1
      obtain ⟨numbers, hm⟩ := hn.merged fun _ => .error .circular
      have hpairs : Succeeds ((mapping .map pairs site).pairs texts (dataWithin texts depth)) := by
        rw [Node.pairs, hm]
        have entry (p : Node × Node) (hp : p ∈ pairs) : Succeeds (do
            pure (⟨identity texts p.1, ← dataWithin texts depth p.1, ← dataWithin texts depth p.2⟩ : Pair)) :=
          (part (key_mem_parts hp)).bind fun _ _ => (part (value_mem_parts hp)).bind fun _ _ => trivial
        exact (Meets.mapM entry).mono (fun _ _ => trivial) fun _ h => h
      have hentries : Succeeds ((mapping .map pairs site).entries texts (dataWithin texts depth)) :=
        hpairs.map fun _ _ => trivial
      exact hentries.map fun _ _ => trivial

/-- A tree that can be built has data. -/
theorem IsSound.exists_dataOf {n : Node} (h : n.IsSound) : ∃ v, dataOf (some n) = .ok v ∧ n.Constructs v := by
  have hb : Build.Works (n.number + 1) (do Build.begin n n; Build.finish n (n.number + 2)) :=
    (Build.works_begin h (Nat.lt_succ_self _)).bind fun _ _ => Build.works_finish _ (Nat.lt_succ_self _)
  have hd : Meets n.Constructs (fun _ => False) (dataOf (some n)) := by
    refine (hb {} ⟨rfl, by simp⟩).bind fun r hr => ?_
    obtain ⟨v, hv, -⟩ := (succeeds_dataWithin r.2.texts (n.number + 1) h (Nat.lt_succ_self _)).exists_ok
    have hc : n.Constructs v := ⟨_, _, hv⟩
    refine Meets.ite (fun he => ?_) fun _ => ?_
    · simp [isEndless_of_isPlain h.plain] at he
    · change Meets n.Constructs _ (n.dataWithin r.2.texts (n.number + 1))
      rw [hv]
      exact hc
  exact hd.exists_ok

end Node

end Conform.Yaml
