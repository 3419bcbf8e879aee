import Conform.Proofs.Yaml.Data
import Conform.Proofs.Yaml.Places

/-! The pointers of a source map and the paths of the data. The source map names a key by its text and the
data by its value, and the source map keeps the places of the pairs that the data has lost to later ones with
the same key. Where every key is written as its value is, and keys that are the same are written the same,
each path of the data has its place; where moreover a pair that is lost has no places that the later one
lacks, there are no others. -/

namespace Conform

namespace Yaml

namespace Pair

/-- A pair is put in the place of the first one with its key, or else at the end. -/
theorem put_eq (ps : List Pair) (p : Pair) :
    put ps p = ps ++ [p] ∨
      ∃ before q after, ps = before ++ q :: after ∧ p.sameKey q = true ∧
        put ps p = before ++ { q with value := p.value } :: after := by
  induction ps with
  | nil => exact .inl rfl
  | cons q ps ih =>
    unfold put
    split
    · next h => exact .inr ⟨[], q, ps, rfl, h, rfl⟩
    · rcases ih with ih | ⟨before, r, after, rfl, hr, ih⟩
      · exact .inl (by rw [ih, List.cons_append])
      · exact .inr ⟨q :: before, r, after, rfl, hr, by rw [ih, List.cons_append]⟩

variable {α β : Type} {zs : List (α × Pair)}

/-- An entry has its key from a pair and its value from a pair with the same key. -/
theorem of_mem_foldl_put (form : α → β)
    (hs : zs.Pairwise fun y z => z.2.sameKey y.2 = true → form y.1 = form z.1) :
    ∀ e ∈ (zs.map (·.2)).foldl put [], ∃ y ∈ zs, ∃ z ∈ zs,
      form y.1 = form z.1 ∧ e = { y.2 with value := z.2.value } := by
  induction zs using List.reverseRecOn with
  | nil => simp
  | append_singleton zs x ih =>
    intro e he
    rw [List.pairwise_append] at hs
    obtain ⟨hs, -, hx⟩ := hs
    have earlier {e : Pair} (he : e ∈ (zs.map (·.2)).foldl put []) : ∃ y ∈ zs ++ [x], ∃ z ∈ zs ++ [x],
        form y.1 = form z.1 ∧ e = { y.2 with value := z.2.value } := by
      obtain ⟨y, hy, z, hz, h⟩ := ih hs e he
      exact ⟨y, List.mem_append_left _ hy, z, List.mem_append_left _ hz, h⟩
    have hmx : x ∈ zs ++ [x] := by simp
    rw [List.map_append, List.foldl_append, List.map_singleton, List.foldl_cons, List.foldl_nil] at he
    rcases put_eq ((zs.map (·.2)).foldl put []) x.2 with h | ⟨before, q, after, hq, hsame, h⟩
    · rw [h, List.mem_append, List.mem_singleton] at he
      rcases he with he | rfl
      · exact earlier he
      · exact ⟨x, hmx, x, hmx, rfl, rfl⟩
    · rw [h, List.mem_append, List.mem_cons] at he
      rcases he with he | rfl | he
      · exact earlier (by simp [hq, he])
      · obtain ⟨y, hy, z, -, -, rfl⟩ := ih hs q (by simp [hq])
        exact ⟨y, List.mem_append_left _ hy, x, hmx, hx y hy x (by simp) hsame, rfl⟩
      · exact earlier (by simp [hq, he])

/-- Where pairs are put in the place of others, what they hold has to grow for an entry to hold as much as
each pair that went into it. -/
theorem exists_mem_foldl_put (form : α → β) (held : α → List String)
    (hs : zs.Pairwise fun y z => z.2.sameKey y.2 = true → form y.1 = form z.1)
    (hh : zs.Pairwise fun y z => form y.1 = form z.1 → ∀ s ∈ held y.1, s ∈ held z.1) :
    ∀ x ∈ zs, ∃ y ∈ zs, ∃ z ∈ zs, { y.2 with value := z.2.value } ∈ (zs.map (·.2)).foldl put [] ∧
      form y.1 = form x.1 ∧ ∀ s ∈ held x.1, s ∈ held z.1 := by
  induction zs using List.reverseRecOn with
  | nil => simp
  | append_singleton zs w ih =>
    intro x hx
    rw [List.pairwise_append] at hs hh
    obtain ⟨hs, -, hsw⟩ := hs
    obtain ⟨hh, -, hhw⟩ := hh
    have hmw : w ∈ zs ++ [w] := by simp
    rw [List.map_append, List.foldl_append, List.map_singleton, List.foldl_cons, List.foldl_nil]
    rw [List.mem_append, List.mem_singleton] at hx
    rcases put_eq ((zs.map (·.2)).foldl put []) w.2 with h | ⟨before, q, after, hq, hsame, h⟩
    · rw [h]
      rcases hx with hx | rfl
      · obtain ⟨y, hy, z, hz, hm, hf, hxz⟩ := ih hs hh x hx
        exact ⟨y, List.mem_append_left _ hy, z, List.mem_append_left _ hz, List.mem_append_left _ hm, hf, hxz⟩
      · exact ⟨x, hmw, x, hmw, by simp, rfl, fun s hs => hs⟩
    · rw [h]
      rcases hx with hx | rfl
      · obtain ⟨y, hy, z, hz, hm, hf, hxz⟩ := ih hs hh x hx
        rw [hq, List.mem_append, List.mem_cons] at hm
        rcases hm with hm | rfl | hm
        · exact ⟨y, List.mem_append_left _ hy, z, List.mem_append_left _ hz, by simp [hm], hf, hxz⟩
        · have hyw := hsw y hy w (by simp) hsame
          exact ⟨y, List.mem_append_left _ hy, w, hmw, by simp, hf, hhw x hx w (by simp) (hf ▸ hyw)⟩
        · exact ⟨y, List.mem_append_left _ hy, z, List.mem_append_left _ hz, by simp [hm], hf, hxz⟩
      · obtain ⟨y, hy, z, -, -, rfl⟩ := of_mem_foldl_put form hs q (by simp [hq])
        exact ⟨y, List.mem_append_left _ hy, x, hmw, by simp, hsw y hy x (by simp) hsame, fun s hs => hs⟩

end Pair

namespace Node

/-! Keys. -/

/-- How a key is written. -/
def form? : Node → Option (Tag × List Char)
  | .scalar tag cs _ => some (tag.settled, cs)
  | _ => none

/-- Whether the value of a key is written as the key is. -/
def isVerbatim : Node → Bool
  | .scalar tag cs _ =>
    match readText cs tag.settled with
    | .ok v => v.text == cs
    | .error _ => false
  | _ => false

/-- Whether two nodes give the same key. -/
def sameKey : Node → Node → Bool
  | .scalar tag cs site, .scalar tag' cs' site' =>
    match readText cs tag.settled, readText cs' tag'.settled with
    | .ok v, .ok w =>
      Pair.sameKey ⟨(scalar tag cs site).identity [], v, .null⟩ ⟨(scalar tag' cs' site').identity [], w, .null⟩
    | _, _ => false
  | _, _ => false

/-- The pointers below a node, from it. -/
def pointers (n : Node) : List String := (n.places "").map (·.1)

/-! Nodes. -/

/-- Whether a collection has the tag of its kind, and a mapping scalars for keys, none of them a merge key. -/
def isOrdinary : Node → Bool
  | .scalar _ _ _ => true
  | .sequence tag _ _ => tag == .seq
  | .mapping tag pairs _ => tag == .map && pairs.all fun p => p.1.form?.isSome && p.1.tag != .merge
  | .knot _ _ _ _ => false

/-- Whether the keys of a mapping are written as their values are, and those that are the same alike. -/
def hasVerbatimKeys : Node → Bool
  | .mapping _ pairs _ =>
    pairs.all (·.1.isVerbatim) &&
      decide (pairs.Pairwise fun p q => q.1.sameKey p.1 = true → p.1.form? = q.1.form?)
  | _ => true

/-- Whether of the pairs of a mapping whose keys are written alike each one has the pointers of those before. -/
def hasNoRemains : Node → Bool
  | .mapping _ pairs _ =>
    decide (pairs.Pairwise fun p q => p.1.form? = q.1.form? → ∀ s ∈ p.2.pointers, s ∈ q.2.pointers)
  | _ => true

/-! Keys and their values. -/

theorem exists_form_of_isVerbatim {k : Node} {v : Value} (hk : k.isVerbatim = true) (h : k.Constructs v) :
    ∃ tag cs, k.form? = some (tag, cs) ∧ k.keyText? = some (String.ofList cs) ∧ v.text = cs := by
  cases k with
  | scalar tag cs site =>
    rw [isVerbatim, h.scalar] at hk
    exact ⟨tag.settled, cs, rfl, rfl, beq_iff_eq.1 hk⟩
  | _ => cases hk

theorem exists_keyText_of_isVerbatim {k : Node} (hk : k.isVerbatim = true) : ∃ key, k.keyText? = some key := by
  cases k with
  | scalar tag cs site => exact ⟨_, rfl⟩
  | _ => cases hk

theorem sameKey_eq {k l : Node} {texts : Texts} {p q : Pair} (hk : k.form?.isSome = true)
    (hl : l.form?.isSome = true) (hp : p.identity = k.identity texts ∧ k.Constructs p.key)
    (hq : q.identity = l.identity texts ∧ l.Constructs q.key) : p.sameKey q = k.sameKey l := by
  cases k with
  | scalar tag cs site =>
    cases l with
    | scalar tag' cs' site' =>
      simp only [sameKey, hp.2.scalar, hq.2.scalar, Pair.sameKey, hp.1, hq.1]
      rfl
    | _ => cases hl
  | _ => cases hk

/-! Places below a node do not depend on where it stands. -/

theorem places_append (n : Node) : ∀ a b : String,
    n.places (a ++ b) = (n.places b).map fun e => (a ++ e.1, e.2) := by
  induction n using induction with
  | knot anchor shape tag site =>
    intro a b
    rfl
  | scalar tag text site =>
    intro a b
    rfl
  | sequence tag items site ih =>
    intro a b
    have itemPlaces_append (i : Nat) : itemPlaces (a ++ b) i items =
        (itemPlaces b i items).map fun e => (a ++ e.1, e.2) := by
      induction items generalizing i with
      | nil => rfl
      | cons n ns ih' =>
        obtain ⟨hn, hns⟩ := List.forall_mem_cons.1 ih
        rw [itemPlaces, itemPlaces, List.map_append, Pointer.join_append, hn, ih' hns]
    rw [places, places, itemPlaces_append]
    rfl
  | mapping tag pairs site ih =>
    intro a b
    have pairPlaces_append : pairPlaces (a ++ b) pairs =
        (pairPlaces b pairs).map fun e => (a ++ e.1, e.2) := by
      induction pairs with
      | nil => rfl
      | cons p ps ih' =>
        obtain ⟨hp, hps⟩ := List.forall_mem_cons.1 ih
        rw [pairPlaces, pairPlaces, List.map_append, ih' hps, Pointer.join_append, hp]
    rw [places, places, pairPlaces_append]
    rfl

theorem exists_mem_places_iff {n : Node} {base q : String} :
    (∃ s, (q, s) ∈ n.places base) ↔ ∃ r ∈ n.pointers, q = base ++ r := by
  have h := n.places_append base ""
  rw [String.append_empty] at h
  rw [h]
  simp only [List.mem_map, pointers, Prod.mk.injEq]
  constructor
  · rintro ⟨s, e, he, rfl, -⟩
    exact ⟨e.1, ⟨e, he, rfl⟩, rfl⟩
  · rintro ⟨_, ⟨e, he, rfl⟩, rfl⟩
    exact ⟨e.2, e, he, rfl, rfl⟩

theorem self_mem_places {n : Node} (hn : n.isOrdinary = true) (base : String) :
    (base, n.site.spot) ∈ n.places base := by
  cases n with
  | knot anchor shape tag site => cases hn
  | _ => simp [places, site]

/-! Mappings. -/

/-- Whether a pair of a mapping has been read to a pair of keys and values. -/
def GoesInto (texts : Texts) (p : Node × Node) (q : Pair) : Prop :=
  q.identity = p.1.identity texts ∧ p.1.Constructs q.key ∧ p.2.Constructs q.value

theorem isOrdinary_mapping_iff {tag : Tag} {pairs : List (Node × Node)} {site : Site} :
    (mapping tag pairs site).isOrdinary = true ↔
      tag = .map ∧ ∀ p ∈ pairs, p.1.form?.isSome = true ∧ p.1.tag ≠ .merge := by
  rw [isOrdinary, Bool.and_eq_true, beq_iff_eq, List.all_eq_true]
  simp only [Bool.and_eq_true, bne_iff_ne]

theorem hasVerbatimKeys_mapping_iff {tag : Tag} {pairs : List (Node × Node)} {site : Site} :
    (mapping tag pairs site).hasVerbatimKeys = true ↔
      (∀ p ∈ pairs, p.1.isVerbatim = true) ∧
        pairs.Pairwise fun p q => q.1.sameKey p.1 = true → p.1.form? = q.1.form? := by
  rw [hasVerbatimKeys, Bool.and_eq_true, List.all_eq_true, decide_eq_true_eq]

theorem hasNoRemains_mapping_iff {tag : Tag} {pairs : List (Node × Node)} {site : Site} :
    (mapping tag pairs site).hasNoRemains = true ↔
      pairs.Pairwise fun p q => p.1.form? = q.1.form? → ∀ s ∈ p.2.pointers, s ∈ q.2.pointers := by
  rw [hasNoRemains, decide_eq_true_eq]

/-- The pairs of a mapping beside what they are read to. -/
theorem Constructs.zip {pairs : List (Node × Node)} {site : Site} {v : Value}
    (hn : (Node.mapping .map pairs site).isOrdinary = true)
    (hv : (Node.mapping .map pairs site).hasVerbatimKeys = true)
    (h : (Node.mapping .map pairs site).Constructs v) :
    ∃ texts, ∃ zs : List ((Node × Node) × Pair), zs.map (·.1) = pairs ∧
      v = .dict (Pair.entries (zs.map (·.2))) ∧ (∀ z ∈ zs, GoesInto texts z.1 z.2) ∧
      zs.Pairwise fun y z => z.2.sameKey y.2 = true → y.1.1.form? = z.1.1.form? := by
  obtain ⟨-, hk⟩ := isOrdinary_mapping_iff.1 hn
  obtain ⟨texts, ps, rfl, hps⟩ := h.pairs fun p hp => (hk p hp).2
  have hl := hps.length_eq
  have hz : ∀ z ∈ pairs.zip ps, GoesInto texts z.1 z.2 := fun z hz => List.forall₂_zip hps hz
  have hfst : (pairs.zip ps).map (·.1) = pairs := List.map_fst_zip hl.le
  refine ⟨texts, pairs.zip ps, hfst, ?_, hz, ?_⟩
  · rw [List.map_snd_zip hl.ge]
  · have hp := (hasVerbatimKeys_mapping_iff.1 hv).2
    rw [← hfst, List.pairwise_map] at hp
    refine hp.imp_of_mem fun {y z} hy hz' h hsame => h ?_
    have isSome {x : (Node × Node) × Pair} (hx : x ∈ pairs.zip ps) : x.1.1.form?.isSome = true :=
      (hk x.1 (List.of_mem_zip hx).1).1
    have goes {x : (Node × Node) × Pair} (hx : x ∈ pairs.zip ps) :
        x.2.identity = x.1.1.identity texts ∧ x.1.1.Constructs x.2.key :=
      ⟨(hz x hx).1, (hz x hx).2.1⟩
    rwa [← sameKey_eq (isSome hz') (isSome hy) (goes hz') (goes hy)]

section Mapping

variable {pairs : List (Node × Node)} {site : Site} {es : Entries}

/-- Each entry of the data comes from a pair whose key is written as its own. -/
theorem Constructs.of_mem_entries (hn : (Node.mapping .map pairs site).isOrdinary = true)
    (hv : (Node.mapping .map pairs site).hasVerbatimKeys = true)
    (h : (Node.mapping .map pairs site).Constructs (.dict es)) {e : Value × Value} (he : e ∈ es) :
    ∃ p ∈ pairs, ∃ key, p.1.keyText? = some key ∧ p.2.Constructs e.2 ∧
      ∀ base, Pointer.join base e.1 = Pointer.join base (.str key) := by
  obtain ⟨texts, zs, rfl, hes, hz, hs⟩ := h.zip hn hv
  obtain rfl := (Value.map.inj hes).2
  obtain ⟨q, hq, rfl⟩ := List.mem_map.1 he
  obtain ⟨y, hy, z, hz', hf, rfl⟩ := Pair.of_mem_foldl_put (fun p => p.1.form?) hs q hq
  have hk := (hasVerbatimKeys_mapping_iff.1 hv).1
  obtain ⟨tag, cs, hform, -, htext⟩ :=
    exists_form_of_isVerbatim (hk y.1 (List.mem_map_of_mem hy)) (hz y hy).2.1
  obtain ⟨tag', cs', hform', hkey, -⟩ :=
    exists_form_of_isVerbatim (hk z.1 (List.mem_map_of_mem hz')) (hz z hz').2.1
  rw [hform, hform', Option.some.injEq, Prod.mk.injEq] at hf
  refine ⟨z.1, List.mem_map_of_mem hz', _, hkey, (hz z hz').2.2, ?_⟩
  exact Pointer.join_of_text_eq (htext.trans hf.2)

/-- Each pair goes into an entry, which has its value from a pair with at least the same pointers. -/
theorem Constructs.exists_mem_entries (hn : (Node.mapping .map pairs site).isOrdinary = true)
    (hv : (Node.mapping .map pairs site).hasVerbatimKeys = true)
    (hr : (Node.mapping .map pairs site).hasNoRemains = true)
    (h : (Node.mapping .map pairs site).Constructs (.dict es)) {p : Node × Node} (hp : p ∈ pairs)
    {key : String} (hkey : p.1.keyText? = some key) :
    ∃ e ∈ es, (∀ base, Pointer.join base e.1 = Pointer.join base (.str key)) ∧
      ∃ p' ∈ pairs, p'.2.Constructs e.2 ∧ ∀ s ∈ p.2.pointers, s ∈ p'.2.pointers := by
  obtain ⟨texts, zs, rfl, hes, hz, hs⟩ := h.zip hn hv
  obtain rfl := (Value.map.inj hes).2
  obtain ⟨x, hx, rfl⟩ := List.mem_map.1 hp
  rw [hasNoRemains_mapping_iff, List.pairwise_map] at hr
  obtain ⟨y, hy, z, hz', hm, hf, hxz⟩ :=
    Pair.exists_mem_foldl_put (fun p => p.1.form?) (fun p => p.2.pointers) hs hr x hx
  have hk := (hasVerbatimKeys_mapping_iff.1 hv).1
  obtain ⟨tag, cs, hform, -, htext⟩ :=
    exists_form_of_isVerbatim (hk y.1 (List.mem_map_of_mem hy)) (hz y hy).2.1
  obtain ⟨tag', cs', hform', hkey', -⟩ :=
    exists_form_of_isVerbatim (hk x.1 (List.mem_map_of_mem hx)) (hz x hx).2.1
  rw [hform, hform', Option.some.injEq, Prod.mk.injEq] at hf
  obtain rfl := Option.some.inj (hkey.symm.trans hkey')
  refine ⟨_, List.mem_map_of_mem hm, ?_, z.1, List.mem_map_of_mem hz', (hz z hz').2.2, hxz⟩
  exact Pointer.join_of_text_eq (htext.trans hf.2)

end Mapping

/-! Places and paths. -/

/-- Each path of the data has its place, where keys are written as their values are. -/
theorem exists_mem_places_of_hasPath {n : Node} : ∀ {v : Value} {p : Path} {base : String},
    n.everywhere isOrdinary = true → n.everywhere hasVerbatimKeys = true → n.Constructs v →
    v.HasPath p → ∃ s, (p.foldl Pointer.join base, s) ∈ n.places base := by
  induction n using induction with
  | knot anchor shape tag site =>
    intro v p base ho
    cases here_of_everywhere ho
  | scalar tag text site =>
    intro v p base ho _ hc hp
    obtain ⟨-, he, hm⟩ := no_parts_of_readText hc.scalar
    obtain rfl := Value.eq_nil_of_hasPath hp he hm
    exact ⟨_, self_mem_places (here_of_everywhere ho) base⟩
  | sequence tag items site ih =>
    intro v p base ho hv hc hp
    cases p with
    | nil => exact ⟨_, self_mem_places (here_of_everywhere ho) base⟩
    | cons token p =>
      have ht : tag = .seq := beq_iff_eq.1 (here_of_everywhere ho)
      subst ht
      obtain ⟨xs, rfl, hx⟩ := hc.sequence
      obtain ⟨x, hshow, hp⟩ := hp
      obtain ⟨i, rfl, hi⟩ := Value.shows_list_iff.1 hshow
      obtain ⟨n, hn, hnx⟩ := exists_getElem?_of_forall₂ hx.flip hi
      have hm : n ∈ (Node.sequence .seq items site).parts := item_mem_parts hn
      obtain ⟨s, hs⟩ := ih n hm (everywhere_of_mem_parts ho hm) (everywhere_of_mem_parts hv hm) hnx hp
      refine ⟨s, ?_⟩
      rw [places, List.mem_cons, mem_itemPlaces_iff]
      exact .inr ⟨i, n, hn, by simpa using hs⟩
  | mapping tag pairs site ih =>
    intro v p base ho hv hc hp
    cases p with
    | nil => exact ⟨_, self_mem_places (here_of_everywhere ho) base⟩
    | cons token p =>
      have hn := here_of_everywhere ho
      have hvn := here_of_everywhere hv
      obtain ⟨rfl, -⟩ := isOrdinary_mapping_iff.1 hn
      obtain ⟨-, zs, -, rfl, -⟩ := hc.zip hn hvn
      obtain ⟨x, hshow, hp⟩ := hp
      obtain ⟨e, he, key, hkey, hex, hjoin⟩ := hc.of_mem_entries hn hvn (Value.shows_dict_iff.1 hshow)
      have hm : e.2 ∈ (Node.mapping .map pairs site).parts := value_mem_parts he
      obtain ⟨s, hs⟩ := ih e he (everywhere_of_mem_parts ho hm) (everywhere_of_mem_parts hv hm) hex hp
      refine ⟨s, ?_⟩
      rw [places, List.mem_cons, mem_pairPlaces_iff, List.foldl_cons, hjoin, ← keyText_eq hkey]
      exact .inr ⟨e, he, keyText_eq hkey ▸ hs⟩

/-- Each place is that of a path of the data, where moreover nothing remains of pairs that are lost. -/
theorem exists_hasPath_of_mem_places {n : Node} : ∀ {v : Value} {base q : String} {s : Spot},
    n.everywhere isOrdinary = true → n.everywhere hasVerbatimKeys = true →
    n.everywhere hasNoRemains = true → n.Constructs v → (q, s) ∈ n.places base →
    ∃ p, v.HasPath p ∧ q = p.foldl Pointer.join base := by
  induction n using induction with
  | knot anchor shape tag site =>
    intro v base q s ho
    cases here_of_everywhere ho
  | scalar tag text site =>
    intro v base q s _ _ _ _ h
    rw [places, List.mem_singleton, Prod.mk.injEq] at h
    exact ⟨[], trivial, h.1⟩
  | sequence tag items site ih =>
    intro v base q s ho hv hr hc h
    have ht : tag = .seq := beq_iff_eq.1 (here_of_everywhere ho)
    subst ht
    obtain ⟨xs, rfl, hx⟩ := hc.sequence
    rw [places, List.mem_cons, Prod.mk.injEq, mem_itemPlaces_iff] at h
    rcases h with h | ⟨i, n, hn, h⟩
    · exact ⟨[], trivial, h.1⟩
    · obtain ⟨x, hi, hnx⟩ := exists_getElem?_of_forall₂ hx hn
      have hm : n ∈ (Node.sequence .seq items site).parts := item_mem_parts hn
      obtain ⟨p, hp, rfl⟩ := ih n hm (everywhere_of_mem_parts ho hm) (everywhere_of_mem_parts hv hm)
        (everywhere_of_mem_parts hr hm) hnx h
      exact ⟨.int i :: p, ⟨x, Value.shows_list_iff.2 ⟨i, rfl, hi⟩, hp⟩, by simp⟩
  | mapping tag pairs site ih =>
    intro v base q s ho hv hr hc h
    have hn := here_of_everywhere ho
    have hvn := here_of_everywhere hv
    obtain ⟨rfl, -⟩ := isOrdinary_mapping_iff.1 hn
    obtain ⟨-, zs, -, rfl, -⟩ := hc.zip hn hvn
    rw [places, List.mem_cons, Prod.mk.injEq, mem_pairPlaces_iff] at h
    rcases h with h | ⟨p, hp, h⟩
    · exact ⟨[], trivial, h.1⟩
    · obtain ⟨key, hkey⟩ := exists_keyText_of_isVerbatim ((hasVerbatimKeys_mapping_iff.1 hvn).1 p hp)
      rw [keyText_eq hkey] at h
      obtain ⟨e, he, hjoin, p', hp', hex, hsub⟩ :=
        hc.exists_mem_entries hn hvn (here_of_everywhere hr) hp hkey
      -- the pair that the value is from has this pointer too
      obtain ⟨r, hr', rfl⟩ := exists_mem_places_iff.1 ⟨s, h⟩
      obtain ⟨s', h'⟩ := exists_mem_places_iff.2 ⟨r, hsub r hr', rfl⟩
      have hm : p'.2 ∈ (Node.mapping .map pairs site).parts := value_mem_parts hp'
      obtain ⟨path, hpath, hq⟩ := ih p' hp' (everywhere_of_mem_parts ho hm)
        (everywhere_of_mem_parts hv hm) (everywhere_of_mem_parts hr hm) hex h'
      refine ⟨e.1 :: path, ⟨e.2, Value.shows_dict_iff.2 he, hpath⟩, ?_⟩
      rw [hq, List.foldl_cons, hjoin]

theorem mem_sourceMap_iff {n : Node} {q : String} :
    q ∈ n.sourceMap.map (·.1) ↔ ∃ s, (q, s) ∈ n.places "" := by
  have hl : (n.sourceMap.lookup q).isSome = true ↔ q ∈ n.sourceMap.map (·.1) := by
    rw [List.lookup_isSome_iff, List.mem_map]
    simp only [beq_iff_eq, @eq_comm _ q]
  rw [← hl]
  refine ⟨fun h => ?_, fun h => NameTable.isSome_lookup_foldl_put (.inl h)⟩
  obtain ⟨s, hs⟩ := Option.isSome_iff_exists.1 h
  rcases NameTable.mem_of_lookup_foldl_put hs with hm | hm
  · exact ⟨s, hm⟩
  · cases hm

end Node

end Yaml

end Conform
