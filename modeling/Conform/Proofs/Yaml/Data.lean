import Conform.Proofs.Schema.Faults
import Conform.Proofs.Yaml.Tree
import Conform.Yaml.Progress

/-! The data of plain trees. A sequence gives the list of its items' data, a mapping the dictionary of its
pairs, and a scalar gives no container. So a path leads to a part of the data exactly when it leads to a node
of the tree, which then gives that part. -/

namespace Conform.Yaml

/-! Scalars. -/

theorem no_parts_of_readText {cs : List Char} {tag : Tag} {v : Value} (h : readText cs tag = .ok v) :
    v.parts = [] ∧ v.elements? = none ∧ v.entries? = none := by
  cases tag with
  | null =>
    cases h
    exact ⟨rfl, rfl, rfl⟩
  | bool =>
    obtain ⟨b, -, rfl⟩ := map_eq_ok.1 h
    exact ⟨rfl, rfl, rfl⟩
  | int =>
    obtain ⟨n, -, rfl⟩ := map_eq_ok.1 h
    exact ⟨rfl, rfl, rfl⟩
  | float =>
    obtain ⟨x, -, rfl⟩ := map_eq_ok.1 h
    exact ⟨rfl, rfl, rfl⟩
  | binary =>
    obtain ⟨bs, -, rfl⟩ := map_eq_ok.1 h
    exact ⟨rfl, rfl, rfl⟩
  | str =>
    cases h
    exact ⟨rfl, rfl, rfl⟩
  | timestamp =>
    rw [readText, readTimestamp] at h
    split at h
    · next t _ =>
      replace h := ok_of_mapError h
      rw [Timestamp.value] at h
      split at h
      · obtain ⟨d, -, rfl⟩ := map_eq_ok.1 h
        exact ⟨rfl, rfl, rfl⟩
      · obtain ⟨o, -, h⟩ := bind_eq_ok.1 h
        obtain ⟨m, -, h⟩ := bind_eq_ok.1 h
        obtain rfl := pure_eq_ok.1 h
        exact ⟨rfl, rfl, rfl⟩
    · cases h
  | _ => cases h

namespace Node

/-- Whether a value is the data of a node, whatever the texts of other nodes. -/
def Constructs (n : Node) (v : Value) : Prop := ∃ texts depth, n.dataWithin texts depth = .ok v

theorem Constructs.scalar {tag : Tag} {cs : List Char} {site : Site} {v : Value}
    (h : (scalar tag cs site).Constructs v) : readText cs tag.settled = .ok v := by
  obtain ⟨texts, depth, h⟩ := h
  cases depth with
  | zero => cases h
  | succ depth =>
    unfold dataWithin at h
    split at h
    all_goals first | exact h | contradiction

theorem Constructs.sequence {items : List Node} {site : Site} {v : Value}
    (h : (Node.sequence .seq items site).Constructs v) :
    ∃ xs, v = .list xs ∧ List.Forall₂ Constructs items xs := by
  obtain ⟨texts, depth, h⟩ := h
  cases depth with
  | zero => cases h
  | succ depth =>
    change (items.mapM (dataWithin texts depth)).map Value.list = .ok v at h
    obtain ⟨xs, hx, rfl⟩ := map_eq_ok.1 h
    exact ⟨xs, rfl, (mapM_eq_ok.1 hx).imp fun n x hn => ⟨texts, depth, hn⟩⟩

/-! Mappings. Without merge keys a mapping has its own pairs, and distinct keys keep them apart. -/

theorem tag_ne_merge_of_isString {n : Node} (h : n.isString = true) : n.tag ≠ .merge := by
  obtain ⟨cs, site, rfl⟩ := exists_of_isString h
  simp [tag]

theorem broughtIn_of_forall_ne_merge {tied : Node → Except Misfit Merged} {pairs : List (Node × Node)}
    (h : ∀ p ∈ pairs, p.1.tag ≠ .merge) : broughtIn tied pairs = .ok .none := by
  induction pairs with
  | nil => rfl
  | cons p pairs ih =>
    obtain ⟨k, n⟩ := p
    obtain ⟨hk, hp⟩ := List.forall_mem_cons.1 h
    cases n <;> simp only [broughtIn, if_neg hk, ih hp]

theorem merged_mapping (tied : Node → Except Misfit Merged) {pairs : List (Node × Node)} (tag : Tag) (site : Site)
    (h : ∀ p ∈ pairs, p.1.tag ≠ .merge) :
    ∃ numbers, (mapping tag pairs site).merged tied = .ok ⟨pairs, numbers⟩ := by
  have hf : pairs.filter (·.1.tag ≠ .merge) = pairs :=
    List.filter_eq_self.2 fun p hp => decide_eq_true (h p hp)
  refine ⟨[site.number], ?_⟩
  rw [merged, broughtIn_of_forall_ne_merge h]
  change Except.ok (Merged.none.withOwn pairs site) = _
  rw [Merged.withOwn, hf]
  rfl

theorem Constructs.pairs {pairs : List (Node × Node)} {site : Site} {v : Value}
    (hk : ∀ p ∈ pairs, p.1.tag ≠ .merge) (h : (Node.mapping .map pairs site).Constructs v) :
    ∃ texts ps, v = .dict (Pair.entries ps) ∧ List.Forall₂ (fun p q =>
      q.identity = p.1.identity texts ∧ p.1.Constructs q.key ∧ p.2.Constructs q.value) pairs ps := by
  obtain ⟨texts, depth, h⟩ := h
  cases depth with
  | zero => cases h
  | succ depth =>
    change ((Node.mapping .map pairs site).entries texts (dataWithin texts depth)).map Value.dict = .ok v at h
    obtain ⟨es, he, rfl⟩ := map_eq_ok.1 h
    obtain ⟨ps, hps, rfl⟩ := map_eq_ok.1 he
    refine ⟨texts, ps, rfl, ?_⟩
    obtain ⟨numbers, hm⟩ := merged_mapping (fun _ => .error .circular) .map site hk
    rw [Node.pairs, hm] at hps
    obtain ⟨m, hm', hps⟩ := bind_eq_ok.1 hps
    obtain rfl := Except.ok.inj hm'
    refine (mapM_eq_ok.1 hps).imp fun p q hq => ?_
    obtain ⟨k, hkey, hq⟩ := bind_eq_ok.1 hq
    obtain ⟨x, hx, hq⟩ := bind_eq_ok.1 hq
    obtain rfl := pure_eq_ok.1 hq
    exact ⟨rfl, ⟨texts, depth, hkey⟩, texts, depth, hx⟩

end Node

theorem Pair.entries_of_pairwise {ps : List Pair} (h : ps.Pairwise fun p q => q.sameKey p = false) :
    Pair.entries ps = ps.map fun p => (p.key, p.value) := by
  have put_of_forall {ps : List Pair} {p : Pair} (h : ∀ q ∈ ps, p.sameKey q = false) :
      Pair.put ps p = ps ++ [p] := by
    induction ps with
    | nil => rfl
    | cons q ps ih =>
      rw [List.forall_mem_cons] at h
      simp [Pair.put, h.1, ih h.2]
  have hf : ps.foldl Pair.put [] = ps := foldl_eq_append (fun t p => put_of_forall) h
  rw [entries, hf]

namespace Node

/-- A key that is a string constructs itself. -/
theorem Constructs.string {n : Node} {v : Value} (hn : n.isString = true) (h : n.Constructs v) :
    ∃ s, n.keyText? = some s ∧ v = .str s := by
  obtain ⟨cs, site, rfl⟩ := exists_of_isString hn
  exact ⟨String.ofList cs, rfl, (Except.ok.inj h.scalar).symm⟩

/-- A pair with its key as it is and some data of its value. -/
def Reads (p : Node × Node) (q : Pair) : Prop :=
  (∃ s, p.1.keyText? = some s ∧ q.key = .str s) ∧ p.2.Constructs q.value

/-- The keys that a mapping gives are distinct strings as well. -/
theorem areDistinct_of_haveStringKeys {pairs : List (Node × Node)} {ks : List Value}
    (hk : haveStringKeys pairs = true)
    (h : List.Forall₂ (fun p k => ∃ s, p.1.keyText? = some s ∧ k = .str s) pairs ks) :
    Value.areDistinct ks = true := by
  have hs : ks.map Value.string? = pairs.map (·.1.keyText?) := by
    refine map_eq_map_iff_forall₂.2 (h.flip.imp ?_)
    rintro k p ⟨s, hp, rfl⟩
    exact hp.symm
  have hd : (ks.map Value.string?).Nodup := hs ▸ nodup_of_haveStringKeys hk
  rw [List.Nodup, List.pairwise_map] at hd
  rw [Value.areDistinct_iff]
  refine hd.imp_of_mem fun {k l} hk hl hne => ?_
  obtain ⟨-, -, s, -, rfl⟩ := exists_mem_of_forall₂ h.flip hk
  obtain ⟨-, -, t, -, rfl⟩ := exists_mem_of_forall₂ h.flip hl
  rw [Value.same_of_string? rfl, Value.same_of_string? rfl]
  exact ⟨beq_false_of_ne (Ne.symm hne), beq_false_of_ne hne⟩

theorem pairwise_sameKey {pairs : List (Node × Node)} {ps : List Pair}
    (hk : haveStringKeys pairs = true) (h : List.Forall₂ Reads pairs ps) :
    ps.Pairwise fun p q => q.sameKey p = false := by
  have hd := areDistinct_of_haveStringKeys hk (List.forall₂_map_right_iff.2 (h.imp fun _ _ h => h.1))
  rw [Value.areDistinct_iff, List.pairwise_map] at hd
  refine hd.imp_of_mem fun {p q} _ hq hpq => ?_
  obtain ⟨-, -, ⟨s, -, hs⟩, -⟩ := exists_mem_of_forall₂ h.flip hq
  -- a string is the same as itself, so that its identity does not count
  have hself : q.key.same q.key = true := by simp [hs, Value.same, Value.string?]
  simp [Pair.sameKey, hpq.2, hself]

theorem Constructs.mapping {pairs : List (Node × Node)} {site : Site} {v : Value}
    (hk : haveStringKeys pairs = true) (h : (Node.mapping .map pairs site).Constructs v) :
    ∃ es, v = .dict es ∧ List.Forall₂ (fun p e => (∃ s, p.1.keyText? = some s ∧ e.1 = .str s) ∧
      p.2.Constructs e.2) pairs es := by
  have hs : ∀ p ∈ pairs, p.1.isString = true := by
    rw [haveStringKeys, Bool.and_eq_true, List.all_eq_true] at hk
    exact hk.1
  obtain ⟨texts, ps, rfl, hps⟩ := h.pairs fun p hp => tag_ne_merge_of_isString (hs p hp)
  have hr : List.Forall₂ Reads pairs ps :=
    forall₂_imp_of_mem hps fun p hp q _ hq => ⟨Constructs.string (hs p hp) hq.2.1, hq.2.2⟩
  refine ⟨_, rfl, ?_⟩
  rw [Pair.entries_of_pairwise (pairwise_sameKey hk hr), List.forall₂_map_right_iff]
  exact hr

theorem hasStringKeys_of_constructs {n : Node} : ∀ {v : Value}, n.isPlain = true → n.Constructs v →
    v.hasStringKeys = true := by
  induction n using induction with
  | knot anchor shape tag site =>
    intro v hn
    cases hn
  | scalar tag text site =>
    intro v _ h
    obtain ⟨hp, -, hm⟩ := no_parts_of_readText h.scalar
    rw [Value.hasStringKeys, Value.everywhere_iff, hp]
    refine ⟨?_, by simp⟩
    cases v <;> simp [Value.entries?] at hm ⊢
  | sequence tag items site ih =>
    intro v hn h
    obtain ⟨rfl, hi⟩ := isPlain_sequence_iff.1 hn
    obtain ⟨xs, rfl, hx⟩ := h.sequence
    rw [Value.hasStringKeys, Value.everywhere_iff]
    refine ⟨rfl, fun x hm => ?_⟩
    obtain ⟨m, hm, hc⟩ := exists_mem_of_forall₂ hx.flip hm
    exact ih m hm (hi m hm) hc
  | mapping tag pairs site ih =>
    intro v hn h
    obtain ⟨rfl, hk, hp⟩ := isPlain_mapping_iff.1 hn
    obtain ⟨es, rfl, he⟩ := h.mapping hk
    have hd := areDistinct_of_haveStringKeys hk (List.forall₂_map_right_iff.2 (he.imp fun _ _ h => h.1))
    have entry {e : Value × Value} (hm : e ∈ es) : e.1.type = .str ∧ e.2.hasStringKeys = true := by
      obtain ⟨p, hm, ⟨s, -, hs⟩, hc⟩ := exists_mem_of_forall₂ he.flip hm
      exact ⟨by rw [hs]; rfl, ih p hm (hp p hm) hc⟩
    rw [Value.hasStringKeys, Value.everywhere_iff]
    refine ⟨?_, fun x hx => ?_⟩
    · simp only [Bool.and_eq_true, List.all_eq_true, beq_iff_eq]
      exact ⟨fun e hm => (entry hm).1, hd⟩
    · rcases List.mem_append.1 hx with hx | hx
      · obtain ⟨e, hm, rfl⟩ := List.mem_map.1 hx
        obtain ⟨s, hs⟩ := Value.eq_str_of_type (entry hm).1
        rw [hs]
        rfl
      · obtain ⟨e, hm, rfl⟩ := List.mem_map.1 hx
        exact (entry hm).2

/-! Paths in the data and in the tree. -/

theorem isPlain_of_part? {n m : Node} {token : Value} (hn : n.isPlain = true)
    (h : n.part? token = some m) : m.isPlain = true := by
  rcases part?_eq_some h with ⟨tag, items, site, i, rfl, -, hi⟩ | ⟨tag, pairs, site, s, rfl, -, p, hp, -, rfl⟩
  · exact (isPlain_sequence_iff.1 hn).2 m (List.mem_of_getElem? hi)
  · exact (isPlain_mapping_iff.1 hn).2.2 p hp

/-- Where a path leads along the data, a step in the tree goes with the step in the data. -/
theorem rel_part? {n : Node} {v token : Value} {path : Path} (hn : n.isPlain = true)
    (hc : n.Constructs v) (hp : v.Leads (token :: path)) :
    n.Takes token ∧ Option.Rel Constructs (n.part? token) (v.part? token) := by
  cases n with
  | knot anchor shape tag site => cases hn
  | scalar tag text site =>
    obtain ⟨-, hs, hm⟩ := no_parts_of_readText hc.scalar
    have := Value.eq_nil_of_leads hp hs hm
    cases this
  | sequence tag items site =>
    obtain ⟨rfl, -⟩ := isPlain_sequence_iff.1 hn
    obtain ⟨xs, rfl, hx⟩ := hc.sequence
    obtain ⟨⟨h, -⟩ | ⟨-, i, rfl⟩, -⟩ := hp
    · cases h
    · refine ⟨.inr ⟨_, items, site, i, rfl, rfl⟩, ?_⟩
      rw [part?_index, Value.part?_of_elements? rfl]
      exact rel_getElem?_of_forall₂ hx i
  | mapping tag pairs site =>
    obtain ⟨rfl, hk, -⟩ := isPlain_mapping_iff.1 hn
    obtain ⟨es, rfl, he⟩ := hc.mapping hk
    obtain ⟨⟨-, s, rfl⟩ | ⟨h, -⟩, -⟩ := hp
    · refine ⟨.inl ⟨_, pairs, site, s, rfl, rfl⟩, ?_⟩
      have hg : es.get? (.str s) = (es.find? fun e => e.1.string? == some s).map (·.2) :=
        KeyTable.get?_fieldName es (.text s)
      rw [part?, Value.part?_of_entries? rfl, hg]
      refine rel_map_of_rel (fun p e h => h.2) (rel_find?_of_forall₂ (fun p e h => ?_) he)
      obtain ⟨⟨t, hp, he⟩, -⟩ := h
      rw [hp, he]
      rfl
    · cases h

theorem Constructs.leads {p : Path} : ∀ {n : Node} {v : Value}, n.isPlain = true → n.Constructs v →
    v.Leads p → n.Leads p ∧ Option.Rel Constructs (n.follow p) (v.follow p) := by
  induction p with
  | nil =>
    intro n v _ hc _
    exact ⟨trivial, .some hc⟩
  | cons token p ih =>
    intro n v hn hc hp
    obtain ⟨ht, hr⟩ := rel_part? hn hc hp
    rw [follow_cons, Value.follow_cons]
    cases hm : n.part? token with
    | none =>
      cases hx : v.part? token with
      | none => exact ⟨⟨ht, by simp [hm]⟩, .none⟩
      | some x => simp [hm, hx] at hr
    | some m =>
      cases hx : v.part? token with
      | none => simp [hm, hx] at hr
      | some x =>
        rw [hm, hx, Option.rel_some_some] at hr
        obtain ⟨hl, hf⟩ := ih (isPlain_of_part? hn hm) hr (hp.2 x hx)
        refine ⟨⟨ht, fun m' hm' => ?_⟩, hf⟩
        rwa [← Option.some.inj (hm.symm.trans hm')]

end Node

end Conform.Yaml
