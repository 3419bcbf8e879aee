import Conform.Proofs.Path.Search
import Conform.Proofs.Yaml.Tree

/-! Looking up places in a plain tree. The tokens on a path to a node are told by their texts, since a mapping
takes only names and a sequence only indices. So the source map has the place of a node at the pointer of its
path and at no other pointer of that kind, and the search finds the place of the last node on a path. -/

namespace Conform

/-! Tables that are filled entry by entry. -/

namespace NameTable

variable {α : Type} {es : List (String × α)} {t : NameTable α} {name : String}

theorem mem_of_lookup_foldl_put {a : α}
    (h : (es.foldl (fun t e => t.put e.1 e.2) t).lookup name = some a) :
    (name, a) ∈ es ∨ t.lookup name = some a := by
  induction es generalizing t with
  | nil => exact .inr h
  | cons e es ih =>
    rcases ih h with h | h
    · exact .inl (List.mem_cons_of_mem _ h)
    · by_cases he : name = e.1
      · subst he
        rw [lookup_put_self, Option.some.injEq] at h
        exact .inl (h ▸ List.mem_cons_self)
      · rw [lookup_put_of_ne _ _ he] at h
        exact .inr h

theorem isSome_lookup_foldl_put (h : (∃ a, (name, a) ∈ es) ∨ (t.lookup name).isSome = true) :
    ((es.foldl (fun t e => t.put e.1 e.2) t).lookup name).isSome = true := by
  induction es generalizing t with
  | nil => simpa using h
  | cons e es ih =>
    refine ih ?_
    by_cases he : name = e.1
    · subst he
      rw [lookup_put_self]
      exact .inr rfl
    · rw [lookup_put_of_ne _ _ he]
      refine h.imp_left ?_
      rintro ⟨a, ha⟩
      rcases List.mem_cons.1 ha with ha | ha
      · exact absurd (congrArg Prod.fst ha) he
      · exact ⟨a, ha⟩

end NameTable

namespace Yaml.Node

/-! The places of the nodes in a tree. -/

theorem mem_itemPlaces_iff {base q : String} {s : Spot} {i : Nat} {ns : List Node} :
    (q, s) ∈ itemPlaces base i ns ↔
      ∃ (j : Nat) (n : Node), ns[j]? = some n ∧ (q, s) ∈ n.places (Pointer.join base (.int ↑(i + j))) := by
  induction ns generalizing i with
  | nil => simp [itemPlaces]
  | cons n ns ih =>
    rw [itemPlaces, List.mem_append, ih]
    refine ⟨fun h => ?_, fun h => ?_⟩
    · rcases h with h | ⟨j, m, hm, h⟩
      · exact ⟨0, n, rfl, h⟩
      · refine ⟨j + 1, m, hm, ?_⟩
        rwa [Nat.add_right_comm] at h
    · obtain ⟨_ | j, m, hm, h⟩ := h
      · obtain rfl := Option.some.inj hm
        exact .inl h
      · refine .inr ⟨j, m, hm, ?_⟩
        rwa [Nat.add_right_comm]

theorem mem_pairPlaces_iff {base q : String} {s : Spot} {ps : List (Node × Node)} :
    (q, s) ∈ pairPlaces base ps ↔
      ∃ p ∈ ps, (q, s) ∈ p.2.places (Pointer.join base (.str p.1.keyText)) := by
  induction ps with
  | nil => simp [pairPlaces]
  | cons p ps ih => simp [pairPlaces, ih]

theorem keyText_eq {k : Node} {key : String} (h : k.keyText? = some key) : k.keyText = key := by
  cases k with
  | scalar tag cs site => exact Option.some.inj h
  | _ => cases h

theorem exists_follow_of_mem_places {n : Node} : ∀ {base q : String} {s : Spot}, n.isPlain = true →
    (q, s) ∈ n.places base →
      ∃ (p : Path) (m : Node), n.follow p = some m ∧ q = p.foldl Pointer.join base ∧ s = m.site.spot := by
  induction n using induction with
  | scalar tag text site =>
    intro base q s _ h
    rw [places, List.mem_singleton, Prod.mk.injEq] at h
    exact ⟨[], _, rfl, h⟩
  | sequence tag items site ih =>
    intro base q s hn h
    rw [places, List.mem_cons, Prod.mk.injEq, mem_itemPlaces_iff] at h
    rcases h with h | ⟨j, n, hj, h⟩
    · exact ⟨[], _, rfl, h⟩
    · have hm := List.mem_of_getElem? hj
      obtain ⟨p, m, hp, hq⟩ := ih n hm ((isPlain_sequence_iff.1 hn).2 n hm) h
      refine ⟨.int j :: p, m, ?_, by simpa using hq⟩
      rw [follow_cons, part?_index, hj, Option.bind_some, hp]
  | mapping tag pairs site ih =>
    intro base q s hn h
    rw [places, List.mem_cons, Prod.mk.injEq, mem_pairPlaces_iff] at h
    rcases h with h | ⟨e, he, h⟩
    · exact ⟨[], _, rfl, h⟩
    · obtain ⟨-, hd, hs⟩ := isPlain_mapping_iff.1 hn
      obtain ⟨key, hk⟩ := exists_keyText_of_mem hd he
      rw [keyText_eq hk] at h
      obtain ⟨p, m, hp, hq⟩ := ih e he (hs e he) h
      refine ⟨.str key :: p, m, ?_, hq⟩
      rw [follow_cons, (part?_key (nodup_of_haveStringKeys hd)).2 ⟨e, he, hk, rfl⟩, Option.bind_some, hp]
  | knot anchor shape tag site =>
    intro base q s hn
    cases hn

theorem mem_places_of_follow {m : Node} {p : Path} : ∀ {n : Node} {base : String}, n.isPlain = true →
    n.follow p = some m → (p.foldl Pointer.join base, m.site.spot) ∈ n.places base := by
  induction p with
  | nil =>
    intro n base hn h
    obtain rfl := Option.some.inj h
    cases n with
    | knot anchor shape tag site => cases hn
    | _ => simp [places, site]
  | cons token p ih =>
    intro n base hn h
    rw [follow_cons, Option.bind_eq_some_iff] at h
    obtain ⟨n', hn', h⟩ := h
    rcases part?_eq_some hn' with ⟨tag, items, site, i, rfl, rfl, hi⟩ |
      ⟨tag, pairs, site, s, rfl, rfl, e, he, hk, rfl⟩
    · have hi' := (isPlain_sequence_iff.1 hn).2 n' (List.mem_of_getElem? hi)
      rw [places, List.mem_cons, mem_itemPlaces_iff]
      refine .inr ⟨i, n', hi, ?_⟩
      rw [Nat.zero_add]
      exact ih hi' h
    · have he' := (isPlain_mapping_iff.1 hn).2.2 e he
      rw [places, List.mem_cons, mem_pairPlaces_iff]
      refine .inr ⟨e, he, ?_⟩
      rw [keyText_eq hk]
      exact ih he' h

/-! The source map and the search in it. -/

theorem spot?_pointer {n : Node} {p : Path} (hn : n.isPlain = true) (hp : n.Leads p) :
    n.sourceMap.spot? p.pointer = (n.follow p).map (·.site.spot) := by
  have lookup_eq {s : Spot} (h : n.sourceMap.lookup p.pointer = some s) :
      (n.follow p).map (·.site.spot) = some s := by
    rcases NameTable.mem_of_lookup_foldl_put h with h | h
    · obtain ⟨q, m, hq, hpq, rfl⟩ := exists_follow_of_mem_places hn h
      rw [hp.eq_of_text_eq hq (Path.pointer_injective hpq), hq, Option.map_some]
    · cases h
  unfold SourceMap.spot?
  cases hf : n.follow p with
  | none =>
    cases hl : n.sourceMap.lookup p.pointer with
    | none => rfl
    | some s => simpa [hf] using lookup_eq hl
  | some m =>
    have hm : (p.pointer, m.site.spot) ∈ n.places "" := mem_places_of_follow hn hf
    obtain ⟨s, hs⟩ := Option.isSome_iff_exists.1
      (NameTable.isSome_lookup_foldl_put (t := []) (.inl ⟨_, hm⟩))
    have hs' := lookup_eq hs
    rw [hf] at hs'
    obtain rfl := Option.some.inj hs'
    rw [show n.sourceMap.lookup p.pointer = _ from hs]
    rfl

theorem search_pointer {n : Node} {p : Path} (hn : n.isPlain = true) (hp : n.Leads p) :
    ∃ q m, q <+: p ∧ n.follow q = some m ∧ n.sourceMap.search p.pointer = .found m.site.spot ∧
      ∀ r, r <+: p → (n.follow r).isSome = true → r.length ≤ q.length := by
  have hc : (p.inits.reverse.findSome? fun q => n.sourceMap.spot? (Path.pointer q)) =
      p.inits.reverse.findSome? fun q => (n.follow q).map (·.site.spot) := by
    refine findSome?_congr_of_mem fun q hq => ?_
    rw [List.mem_reverse, List.mem_inits] at hq
    exact spot?_pointer hn (hp.of_prefix hq)
  cases hf : p.inits.reverse.findSome? fun q => (n.follow q).map (·.site.spot) with
  | none =>
    have := List.findSome?_eq_none_iff.1 hf [] (by simp)
    simp at this
  | some s =>
    obtain ⟨q, hq, hs, hmax⟩ := findSome?_reverse_inits hf
    obtain ⟨m, hm, rfl⟩ := Option.map_eq_some_iff.1 hs
    refine ⟨q, m, hq, hm, ?_, fun r hr h => hmax r hr (by rwa [Option.isSome_map])⟩
    rw [SourceMap.search_of_path, hc, hf]
    rfl

end Yaml.Node

end Conform
