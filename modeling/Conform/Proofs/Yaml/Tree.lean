import Conform.Proofs.Basic
import Conform.Proofs.Path.Following
import Conform.Proofs.Path.Pointer
import Conform.Yaml.Node

/-! Node trees, and among them those whose collections are plain: mappings with the tag for mappings, their
keys distinct strings, and sequences with the tag for sequences. A path leads to a node of such a tree as it
does to a part of a value, and the source map has, at the pointer of each such path, the place of the node. -/

namespace Conform.Yaml

/-! Trees by their nodes. -/

namespace Node

@[elab_as_elim]
theorem induction {motive : Node → Prop} (scalar : ∀ tag text site, motive (.scalar tag text site))
    (sequence : ∀ tag items site, (∀ n ∈ items, motive n) → motive (.sequence tag items site))
    (mapping : ∀ tag pairs site, (∀ p ∈ pairs, motive p.2) → motive (.mapping tag pairs site))
    (knot : ∀ anchor shape tag site, motive (.knot anchor shape tag site)) : ∀ n, motive n
  | .scalar tag text site => scalar tag text site
  | .sequence tag items site => sequence tag items site fun n _ => induction scalar sequence mapping knot n
  | .mapping tag pairs site => mapping tag pairs site fun p _ => induction scalar sequence mapping knot p.2
  | .knot anchor shape tag site => knot anchor shape tag site
termination_by n => sizeOf n
decreasing_by
  · have := List.sizeOf_lt_of_mem ‹n ∈ items›
    simp only [Node.sequence.sizeOf_spec]
    omega
  · have := List.sizeOf_lt_of_mem ‹p ∈ pairs›
    have := sizeOf_snd_lt p
    simp only [Node.mapping.sizeOf_spec]
    omega

/-- The nodes in a node, keys too. -/
def parts : Node → List Node
  | .sequence _ items _ => items
  | .mapping _ pairs _ => pairs.map (·.1) ++ pairs.map (·.2)
  | _ => []

theorem mem_itemNodes_iff {m : Node} {ns : List Node} : m ∈ itemNodes ns ↔ ∃ n ∈ ns, m ∈ n.nodes := by
  induction ns with
  | nil => simp [itemNodes]
  | cons n ns ih => simp [itemNodes, ih]

theorem mem_pairNodes_iff {m : Node} {ps : List (Node × Node)} :
    m ∈ pairNodes ps ↔ ∃ p ∈ ps, m ∈ p.1.nodes ∨ m ∈ p.2.nodes := by
  induction ps with
  | nil => simp [pairNodes]
  | cons p ps ih => simp [pairNodes, ih, or_assoc]

theorem mem_nodes_iff {m n : Node} : m ∈ n.nodes ↔ m = n ∨ ∃ l ∈ n.parts, m ∈ l.nodes := by
  cases n with
  | scalar tag cs site => simp [nodes, parts]
  | knot anchor shape tag site => simp [nodes, parts]
  | sequence tag items site => rw [nodes, List.mem_cons, mem_itemNodes_iff, parts]
  | mapping tag pairs site =>
    rw [nodes, List.mem_cons, mem_pairNodes_iff, parts]
    simp only [List.mem_append, List.mem_map]
    refine or_congr_right ⟨?_, ?_⟩
    · rintro ⟨p, hp, h | h⟩
      · exact ⟨p.1, .inl ⟨p, hp, rfl⟩, h⟩
      · exact ⟨p.2, .inr ⟨p, hp, rfl⟩, h⟩
    · rintro ⟨l, ⟨p, hp, rfl⟩ | ⟨p, hp, rfl⟩, h⟩
      · exact ⟨p, hp, .inl h⟩
      · exact ⟨p, hp, .inr h⟩

theorem mem_nodes_self (n : Node) : n ∈ n.nodes := mem_nodes_iff.2 (.inl rfl)

theorem sizeOf_lt_of_mem_parts {m n : Node} (h : m ∈ n.parts) : sizeOf m < sizeOf n := by
  cases n with
  | scalar tag cs site => cases h
  | knot anchor shape tag site => cases h
  | sequence tag items site =>
    have := List.sizeOf_lt_of_mem (show m ∈ items from h)
    simp only [sequence.sizeOf_spec]
    omega
  | mapping tag pairs site =>
    have size_lt {p : Node × Node} (hp : p ∈ pairs) : sizeOf p.1 + sizeOf p.2 < sizeOf pairs := by
      have := List.sizeOf_lt_of_mem hp
      cases p
      simp only [Prod.mk.sizeOf_spec] at this
      simp only
      omega
    simp only [mapping.sizeOf_spec]
    rcases List.mem_append.1 h with h | h
    · obtain ⟨p, hp, rfl⟩ := List.mem_map.1 h
      have := size_lt hp
      omega
    · obtain ⟨p, hp, rfl⟩ := List.mem_map.1 h
      have := size_lt hp
      omega

@[elab_as_elim]
theorem parts_induction {motive : Node → Prop}
    (step : ∀ n, (∀ m ∈ n.parts, motive m) → motive n) (n : Node) : motive n :=
  step n fun m _ => parts_induction step m
termination_by sizeOf n
decreasing_by exact sizeOf_lt_of_mem_parts ‹_›

theorem mem_nodes_trans {l m n : Node} (hl : l ∈ m.nodes) (hm : m ∈ n.nodes) : l ∈ n.nodes := by
  induction n using parts_induction with
  | step n ih =>
    rw [mem_nodes_iff] at hm ⊢
    rcases hm with rfl | ⟨k, hk, hm⟩
    · exact mem_nodes_iff.1 hl
    · exact .inr ⟨k, hk, ih k hk hm⟩

theorem mem_nodes_of_mem_parts {l m n : Node} (hl : l ∈ n.parts) (hm : m ∈ l.nodes) : m ∈ n.nodes :=
  mem_nodes_iff.2 (.inr ⟨l, hl, hm⟩)

theorem part_mem_nodes {l m n : Node} (hl : l ∈ m.parts) (hm : m ∈ n.nodes) : l ∈ n.nodes :=
  mem_nodes_trans (mem_nodes_of_mem_parts hl (mem_nodes_self l)) hm

theorem item_mem_nodes {tag : Tag} {items : List Node} {site : Site} {m n : Node} (hm : m ∈ items)
    (hn : sequence tag items site ∈ n.nodes) : m ∈ n.nodes :=
  part_mem_nodes (show m ∈ (sequence tag items site).parts from hm) hn

def everywhere (p : Node → Bool) (n : Node) : Bool := n.nodes.all p

theorem here_of_everywhere {p : Node → Bool} {n : Node} (h : n.everywhere p = true) : p n = true :=
  List.all_eq_true.1 h n (mem_nodes_self n)

theorem everywhere_of_mem_parts {p : Node → Bool} {m n : Node} (h : n.everywhere p = true)
    (hm : m ∈ n.parts) : m.everywhere p = true :=
  List.all_eq_true.2 fun l hl => List.all_eq_true.1 h l (mem_nodes_of_mem_parts hm hl)

theorem item_mem_parts {tag : Tag} {items : List Node} {site : Site} {i : Nat} {n : Node}
    (h : items[i]? = some n) : n ∈ (sequence tag items site).parts :=
  List.mem_of_getElem? h

theorem key_mem_parts {tag : Tag} {pairs : List (Node × Node)} {site : Site} {p : Node × Node}
    (h : p ∈ pairs) : p.1 ∈ (mapping tag pairs site).parts :=
  List.mem_append_left _ (List.mem_map_of_mem h)

theorem value_mem_parts {tag : Tag} {pairs : List (Node × Node)} {site : Site} {p : Node × Node}
    (h : p ∈ pairs) : p.2 ∈ (mapping tag pairs site).parts :=
  List.mem_append_right _ (List.mem_map_of_mem h)

def isString : Node → Bool
  | .scalar tag _ _ => tag == .str
  | _ => false

/-- Whether the keys of some pairs are strings, and no two are the same. -/
def haveStringKeys (pairs : List (Node × Node)) : Bool :=
  pairs.all (·.1.isString) && decide (pairs.map (·.1.keyText?)).Nodup

mutual

/-- Whether the collections of a tree have the plain tags, and its mappings distinct strings for keys. -/
def isPlain : Node → Bool
  | .scalar _ _ _ => true
  | .sequence tag items _ => tag == .seq && areItemsPlain items
  | .mapping tag pairs _ => tag == .map && haveStringKeys pairs && arePairsPlain pairs
  | .knot _ _ _ _ => false
termination_by structural n => n

def areItemsPlain : List Node → Bool
  | [] => true
  | n :: ns => n.isPlain && areItemsPlain ns
termination_by structural ns => ns

def arePairsPlain : List (Node × Node) → Bool
  | [] => true
  | (_, n) :: ps => n.isPlain && arePairsPlain ps
termination_by structural ps => ps

end

theorem areItemsPlain_iff {ns : List Node} : areItemsPlain ns = true ↔ ∀ n ∈ ns, n.isPlain = true := by
  induction ns with
  | nil => simp [areItemsPlain]
  | cons n ns ih => simp [areItemsPlain, ih]

theorem arePairsPlain_iff {ps : List (Node × Node)} :
    arePairsPlain ps = true ↔ ∀ p ∈ ps, p.2.isPlain = true := by
  induction ps with
  | nil => simp [arePairsPlain]
  | cons p ps ih => simp [arePairsPlain, ih]

theorem isPlain_sequence_iff {tag : Tag} {items : List Node} {site : Site} :
    (sequence tag items site).isPlain = true ↔ tag = .seq ∧ ∀ n ∈ items, n.isPlain = true := by
  rw [isPlain, Bool.and_eq_true, beq_iff_eq, areItemsPlain_iff]

theorem isPlain_mapping_iff {tag : Tag} {pairs : List (Node × Node)} {site : Site} :
    (mapping tag pairs site).isPlain = true ↔
      tag = .map ∧ haveStringKeys pairs = true ∧ ∀ p ∈ pairs, p.2.isPlain = true := by
  rw [isPlain, Bool.and_eq_true, Bool.and_eq_true, beq_iff_eq, arePairsPlain_iff, and_assoc]

theorem nodup_of_haveStringKeys {pairs : List (Node × Node)} (h : haveStringKeys pairs = true) :
    (pairs.map (·.1.keyText?)).Nodup := by
  rw [haveStringKeys, Bool.and_eq_true, decide_eq_true_eq] at h
  exact h.2

theorem exists_of_isString {n : Node} (h : n.isString = true) : ∃ cs site, n = .scalar .str cs site := by
  cases n with
  | scalar tag cs site =>
    rw [isString, beq_iff_eq] at h
    exact ⟨cs, site, by rw [h]⟩
  | _ => simp [isString] at h

theorem exists_keyText_of_mem {pairs : List (Node × Node)} (h : haveStringKeys pairs = true) {p : Node × Node}
    (hp : p ∈ pairs) : ∃ key, p.1.keyText? = some key := by
  rw [haveStringKeys, Bool.and_eq_true, List.all_eq_true] at h
  obtain ⟨cs, site, hs⟩ := exists_of_isString (h.1 p hp)
  exact ⟨String.ofList cs, by rw [hs]; rfl⟩

/-! Trees without end. -/

theorem areItemsEndless_iff {ns : List Node} : areItemsEndless ns = true ↔ ∃ n ∈ ns, n.isEndless = true := by
  induction ns with
  | nil => simp [areItemsEndless]
  | cons n ns ih => simp [areItemsEndless, ih]

theorem arePairsEndless_iff {ps : List (Node × Node)} :
    arePairsEndless ps = true ↔ ∃ p ∈ ps, p.2.isEndless = true := by
  induction ps with
  | nil => simp [arePairsEndless]
  | cons p ps ih => simp [arePairsEndless, ih]

/-- A tree is endless if a stub is among its values at some depth. -/
theorem exists_knot_of_isEndless {n : Node} : n.isEndless = true →
    ∃ anchor shape tag site, knot anchor shape tag site ∈ n.nodes := by
  induction n using induction with
  | scalar tag text site =>
    intro h
    cases h
  | sequence tag items site ih =>
    intro h
    obtain ⟨m, hm, h⟩ := areItemsEndless_iff.1 h
    obtain ⟨anchor, shape, t, s, hk⟩ := ih m hm h
    exact ⟨anchor, shape, t, s, mem_nodes_of_mem_parts hm hk⟩
  | mapping tag pairs site ih =>
    intro h
    obtain ⟨p, hp, h⟩ := arePairsEndless_iff.1 h
    obtain ⟨anchor, shape, t, s, hk⟩ := ih p hp h
    exact ⟨anchor, shape, t, s, mem_nodes_of_mem_parts (value_mem_parts hp) hk⟩
  | knot anchor shape tag site =>
    intro _
    exact ⟨anchor, shape, tag, site, mem_nodes_self _⟩

theorem isEndless_of_isPlain {n : Node} : n.isPlain = true → n.isEndless = false := by
  induction n using induction with
  | scalar tag text site => exact fun _ => rfl
  | sequence tag items site ih =>
    intro h
    rw [← Bool.not_eq_true, isEndless, areItemsEndless_iff]
    rintro ⟨m, hm, he⟩
    simp [ih m hm ((isPlain_sequence_iff.1 h).2 m hm)] at he
  | mapping tag pairs site ih =>
    intro h
    rw [← Bool.not_eq_true, isEndless, arePairsEndless_iff]
    rintro ⟨p, hp, he⟩
    simp [ih p hp ((isPlain_mapping_iff.1 h).2.2 p hp)] at he
  | knot anchor shape tag site =>
    intro h
    cases h

end Node

/-! Following paths. -/

namespace Node

/-- The node in a collection at a token. -/
def part? : Node → Value → Option Node
  | .mapping _ pairs _, .str s => (pairs.find? fun p => p.1.keyText? == some s).map (·.2)
  | .sequence _ items _, .int n => if n < 0 then none else items[n.toNat]?
  | _, _ => none

/-- The node that a path leads to, if there is one. -/
def follow (n : Node) (path : Path) : Option Node := path.foldlM part? n

@[simp] theorem follow_nil (n : Node) : n.follow [] = some n := rfl

theorem follow_cons (n : Node) (token : Value) (path : Path) :
    n.follow (token :: path) = (n.part? token).bind fun m => m.follow path := by
  rw [follow, List.foldlM_cons]
  rfl

theorem part?_index (tag : Tag) (items : List Node) (site : Site) (i : Nat) :
    (sequence tag items site).part? (.int i) = items[i]? := by
  have hi : ¬ (i : Int) < 0 := by omega
  simp only [part?, if_neg hi, Int.toNat_natCast]

theorem part?_key {tag : Tag} {pairs : List (Node × Node)} {site : Site}
    (hd : (pairs.map (·.1.keyText?)).Nodup) {s : String} {n : Node} :
    (mapping tag pairs site).part? (.str s) = some n ↔ ∃ p ∈ pairs, p.1.keyText? = some s ∧ p.2 = n := by
  rw [part?, map_find?_eq_some_iff]
  · simp only [beq_iff_eq]
  · rw [List.Nodup, List.pairwise_map] at hd
    refine hd.imp fun {p q} h hs => ?_
    rw [beq_iff_eq] at hs
    simpa [hs] using Ne.symm h

/-- A step leads to an item at an index or to the value of a key. -/
theorem part?_eq_some {n m : Node} {token : Value} (h : n.part? token = some m) :
    (∃ tag items site, ∃ i : Nat, n = .sequence tag items site ∧ token = .int i ∧ items[i]? = some m) ∨
      ∃ tag pairs site s, n = .mapping tag pairs site ∧ token = .str s ∧
        ∃ p ∈ pairs, p.1.keyText? = some s ∧ p.2 = m := by
  unfold part? at h
  split at h
  · next tag pairs site s =>
    obtain ⟨p, hp, rfl⟩ := Option.map_eq_some_iff.1 h
    have hs := List.find?_some hp
    exact .inr ⟨tag, pairs, site, s, rfl, rfl, p, List.mem_of_find?_eq_some hp, by simpa using hs, rfl⟩
  · next tag items site i =>
    split at h
    · cases h
    · next hi =>
      obtain ⟨k, rfl⟩ := Int.eq_ofNat_of_zero_le (Int.not_lt.1 hi)
      exact .inl ⟨tag, items, site, k, rfl, rfl, h⟩
  · cases h

/-- Whether a token is a name for a mapping or an index for a sequence. -/
def Takes (n : Node) (token : Value) : Prop :=
  (∃ tag pairs site s, n = .mapping tag pairs site ∧ token = .str s) ∨
    ∃ tag items site, ∃ i : Nat, n = .sequence tag items site ∧ token = .int i

/-- Whether a path takes names in mappings and indices in sequences, and ends at a scalar. Where it leads to
nothing it may go on in any way. -/
def Leads : Node → Path → Prop
  | _, [] => True
  | n, token :: path => n.Takes token ∧ ∀ m, n.part? token = some m → m.Leads path
termination_by structural _ path => path

theorem Leads.of_prefix {q : Path} : ∀ {n : Node} {p : Path}, n.Leads p → q <+: p → n.Leads q := by
  induction q with
  | nil =>
    intro n p _ _
    trivial
  | cons token q ih =>
    intro n p hp hq
    obtain ⟨r, rfl⟩ := hq
    exact ⟨hp.1, fun m hm => ih (hp.2 m hm) (List.prefix_append q r)⟩

/-- Where a path leads along a tree, no other path to a node has the same texts. -/
theorem Leads.eq_of_text_eq {p : Path} : ∀ {n m : Node} {q : Path}, n.Leads p → n.follow q = some m →
    p.map Value.text = q.map Value.text → p = q := by
  induction p with
  | nil =>
    intro n m q _ _ h
    exact (List.map_eq_nil_iff.1 h.symm).symm
  | cons token p ih =>
    intro n m q hp hq h
    cases q with
    | nil => simp at h
    | cons other q =>
      rw [follow_cons, Option.bind_eq_some_iff] at hq
      obtain ⟨n', hn', hq⟩ := hq
      rw [List.map_cons, List.map_cons, List.cons.injEq] at h
      have ht : token = other := by
        rcases hp.1 with ⟨tag, pairs, site, s, rfl, rfl⟩ | ⟨tag, items, site, i, rfl, rfl⟩
        · rcases part?_eq_some hn' with ⟨_, _, _, _, ⟨⟩, -⟩ | ⟨_, _, _, s', -, rfl, -⟩
          exact congrArg _ (String.toList_inj.1 h.1)
        · rcases part?_eq_some hn' with ⟨_, _, _, j, -, rfl, -⟩ | ⟨_, _, _, _, ⟨⟩, -⟩
          rw [Value.text_index_injective h.1]
      subst ht
      rw [ih (hp.2 n' hn') hq h.2]

end Node

end Conform.Yaml
