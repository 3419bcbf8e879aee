import Conform.Proofs.Json.Tokens
import Conform.Yaml.Composition

/-! The node trees of JSON texts. A tree has the shape of the value: words are scalars with the tag that their
text resolves to, strings and names are strings, arrays are plain sequences and objects plain mappings. A node
gets its number after the nodes in it, so that theirs are smaller. -/

namespace Conform

open Yaml

namespace Json

/-- Whether a node tree has the shape of a value, its nodes numbered from the leaves on. -/
inductive Shapes : Json → Node → Prop
  | word (w : Word) (site : Site) : Shapes (.word w) (.scalar (Tag.resolve w.text) w.text site)
  | string (ss : Symbols) (site : Site) : Shapes (.string ss) (.scalar .str ss.chars site)
  | array {blanks : List Blank} {items : List Item} {ns : List Node} {site : Site}
      (h : List.Forall₂ (fun e n => Shapes e.2.1 n) items ns) (hn : ∀ n ∈ ns, n.number < site.number) :
      Shapes (.array blanks items) (.sequence .seq ns site)
  | object {blanks : List Blank} {members : List Member} {ps : List (Node × Node)} {site : Site}
      (hk : List.Forall₂ (fun m p => ∃ s, p.1 = .scalar .str m.1.symbols.chars s) members ps)
      (h : List.Forall₂ (fun m p => Shapes m.2.2.1 p.2) members ps)
      (hn : ∀ p ∈ ps, p.1.number < site.number ∧ p.2.number < site.number) :
      Shapes (.object blanks members) (.mapping .map ps site)

/-! Steps of the composition, by the tokens that come next. -/

variable {n c d : Nat} {pos : Position} {f : Flaw} {hs : List (List Char × List Char)} {a b : Mark}
  {tok : Token} {toks rest : List Token} {cs : List Char} {first : Bool}

/-- The tokens with which a value begins. -/
def opens : Lexeme → Bool
  | .scalar _ _ => true
  | .sequenceStart => true
  | .mappingStart => true
  | _ => false

theorem exists_lexemes (j : Json) : ∃ l ls, j.lexemes = l :: ls ∧ opens l = true := by
  cases j <;> exact ⟨_, _, rfl, rfl⟩

theorem node_scalar (plain : Bool) : node (n + 1) pos ⟨⟨.scalar cs plain, a, b⟩ :: toks, f, hs, [], c⟩ =
    .ok (.scalar (scalarTag none plain cs) cs ⟨a, c, none⟩, ⟨toks, f, hs, [], c + 1⟩) := by exact rfl

theorem node_sequence : node (n + 1) pos ⟨⟨.sequenceStart, a, b⟩ :: toks, f, hs, [], c⟩ =
    flowItems n true ⟨toks, f, hs, [], c⟩ >>= fun p =>
      .ok (.sequence .seq p.1 ⟨a, p.2.count, none⟩, { p.2 with count := p.2.count + 1 }) := by exact rfl

theorem node_mapping : node (n + 1) pos ⟨⟨.mappingStart, a, b⟩ :: toks, f, hs, [], c⟩ =
    flowPairs n true ⟨toks, f, hs, [], c⟩ >>= fun p =>
      .ok (.mapping .map p.1 ⟨a, p.2.count, none⟩, { p.2 with count := p.2.count + 1 }) := by exact rfl

theorem flowItems_end : flowItems (n + 1) first ⟨⟨.sequenceEnd, a, b⟩ :: toks, f, hs, [], c⟩ =
    .ok ([], ⟨toks, f, hs, [], c⟩) := by exact rfl

theorem flowItems_entry {es : List Token} (he : es.map Token.lexeme = entryMark first)
    (h : opens tok.lexeme = true) : flowItems (n + 1) first ⟨es ++ tok :: toks, f, hs, [], c⟩ =
      node n .flow ⟨tok :: toks, f, hs, [], c⟩ >>= fun p =>
        flowItems n false p.2 >>= fun q => .ok (p.1 :: q.1, q.2) := by
  obtain ⟨l, a, b⟩ := tok
  cases first with
  | true =>
    obtain rfl := List.map_eq_nil_iff.1 he
    cases l <;> cases h <;> exact rfl
  | false =>
    obtain ⟨⟨_, o, p⟩, rfl, rfl⟩ := List.map_eq_singleton_iff.1 he
    cases l <;> cases h <;> exact rfl

theorem flowPairs_end : flowPairs (n + 1) first ⟨⟨.mappingEnd, a, b⟩ :: toks, f, hs, [], c⟩ =
    .ok ([], ⟨toks, f, hs, [], c⟩) := by exact rfl

theorem flowPairs_entry {es : List Token} {k v : Token} (he : es.map Token.lexeme = entryMark first)
    (hk : k.lexeme = .key) (hv : v.lexeme = .value) (h : opens tok.lexeme = true) :
    flowPairs (n + 3) first ⟨es ++ k :: ⟨.scalar cs false, a, b⟩ :: v :: tok :: toks, f, hs, [], c⟩ =
      node n .flow ⟨tok :: toks, f, hs, [], c + 1⟩ >>= fun p =>
        flowPairs (n + 2) false p.2 >>= fun q => .ok ((.scalar .str cs ⟨a, c, none⟩, p.1) :: q.1, q.2) := by
  obtain ⟨_, _, _⟩ := k
  obtain ⟨_, _, _⟩ := v
  cases hk
  cases hv
  obtain ⟨l, a, b⟩ := tok
  cases first with
  | true =>
    obtain rfl := List.map_eq_nil_iff.1 he
    cases l <;> cases h <;> exact rfl
  | false =>
    obtain ⟨⟨_, o, p⟩, rfl, rfl⟩ := List.map_eq_singleton_iff.1 he
    cases l <;> cases h <;> exact rfl

/-! Whole values. -/

/-- Whether the tokens of a value give a node of its shape, with a number below the next one. -/
def IsComposed (j : Json) : Prop := ∀ {toks : List Token} (n c : Nat) (pos : Position) (f : Flaw)
  (hs : List (List Char × List Char)) (rest : List Token),
  toks.map Token.lexeme = j.lexemes → 3 * j.lexemes.length ≤ n →
    ∃ m d, node n pos ⟨toks ++ rest, f, hs, [], c⟩ = .ok (m, ⟨rest, f, hs, [], d⟩) ∧ Shapes j m ∧ c ≤ d ∧
      m.number < d

theorem itemLexemes_cons (first : Bool) (e : Item) (items : List Item) : itemLexemes first (e :: items) =
    entryMark first ++ (e.2.1.lexemes ++ itemLexemes false items) := rfl

theorem memberLexemes_cons (first : Bool) (m : Member) (members : List Member) :
    memberLexemes first (m :: members) = entryMark first ++ (.key :: .scalar m.1.symbols.chars false :: .value ::
      (m.2.2.1.lexemes ++ memberLexemes false members)) := rfl

/-- The tokens of a value and how it begins. -/
theorem exists_cons_of_map_eq_lexemes {j : Json} (h : toks.map Token.lexeme = j.lexemes) :
    ∃ tok us, toks = tok :: us ∧ opens tok.lexeme = true ∧ 0 < j.lexemes.length := by
  obtain ⟨l, ls, hl, ho⟩ := exists_lexemes j
  rw [hl] at h ⊢
  obtain ⟨tok, us, rfl, rfl, -⟩ := List.map_eq_cons_iff.1 h
  exact ⟨tok, us, rfl, ho, Nat.succ_pos _⟩

theorem exists_flowItems (f : Flaw) (hs : List (List Char × List Char)) (rest : List Token) {items : List Item}
    (hc : ∀ e ∈ items, e.2.1.IsComposed) :
    ∀ {n c : Nat} {first : Bool} {toks : List Token},
      toks.map Token.lexeme = itemLexemes first items ++ [.sequenceEnd] →
      3 * (itemLexemes first items).length + 1 ≤ n →
      ∃ ns d, flowItems n first ⟨toks ++ rest, f, hs, [], c⟩ = .ok (ns, ⟨rest, f, hs, [], d⟩) ∧
        List.Forall₂ (fun e m => Shapes e.2.1 m) items ns ∧ c ≤ d ∧ ∀ m ∈ ns, m.number < d := by
  induction items with
  | nil =>
    intro n c first toks ht hn
    obtain ⟨⟨_, a, b⟩, rfl, rfl⟩ := List.map_eq_singleton_iff.1 ht
    obtain ⟨n, rfl⟩ := Nat.exists_eq_succ_of_ne_zero (Nat.ne_of_gt hn)
    exact ⟨[], c, flowItems_end, .nil, Nat.le_refl c, by simp⟩
  | cons e items ih =>
    intro n c first toks ht hn
    obtain ⟨he, hes⟩ := List.forall_mem_cons.1 hc
    rw [itemLexemes_cons, List.append_assoc, List.append_assoc] at ht
    obtain ⟨us, vs, rfl, hu, hv⟩ := List.map_eq_append_iff.1 ht
    obtain ⟨vs, ws, rfl, hv, hw⟩ := List.map_eq_append_iff.1 hv
    simp only [itemLexemes_cons, List.length_append] at hn
    obtain ⟨tok, vs, rfl, ho, hlen⟩ := exists_cons_of_map_eq_lexemes hv
    obtain ⟨n, rfl⟩ := Nat.exists_eq_succ_of_ne_zero (show n ≠ 0 by omega)
    obtain ⟨m, d, hm, hms, hcd, hmd⟩ := he n c .flow f hs (ws ++ rest) hv (by omega)
    obtain ⟨ns, b, hn, hns, hdb, hnb⟩ := ih hes (n := n) (c := d) hw (by omega)
    refine ⟨m :: ns, b, ?_, .cons hms hns, Nat.le_trans hcd hdb,
      List.forall_mem_cons.2 ⟨Nat.lt_of_lt_of_le hmd hdb, hnb⟩⟩
    rw [List.append_assoc, List.cons_append, List.cons_append, List.append_assoc, flowItems_entry hu ho,
      ← List.cons_append, hm]
    change (flowItems n false ⟨ws ++ rest, f, hs, [], d⟩ >>= _) = _
    rw [hn]
    rfl

theorem exists_flowPairs (f : Flaw) (hs : List (List Char × List Char)) (rest : List Token)
    {members : List Member} (hc : ∀ m ∈ members, m.2.2.1.IsComposed) :
    ∀ {n c : Nat} {first : Bool} {toks : List Token},
      toks.map Token.lexeme = memberLexemes first members ++ [.mappingEnd] →
      3 * (memberLexemes first members).length + 1 ≤ n →
      ∃ ps d, flowPairs n first ⟨toks ++ rest, f, hs, [], c⟩ = .ok (ps, ⟨rest, f, hs, [], d⟩) ∧
        List.Forall₂ (fun m p => ∃ s, p.1 = .scalar .str m.1.symbols.chars s) members ps ∧
        List.Forall₂ (fun m p => Shapes m.2.2.1 p.2) members ps ∧ c ≤ d ∧
        ∀ p ∈ ps, p.1.number < d ∧ p.2.number < d := by
  induction members with
  | nil =>
    intro n c first toks ht hn
    obtain ⟨⟨_, a, b⟩, rfl, rfl⟩ := List.map_eq_singleton_iff.1 ht
    obtain ⟨n, rfl⟩ := Nat.exists_eq_succ_of_ne_zero (Nat.ne_of_gt hn)
    exact ⟨[], c, flowPairs_end, .nil, .nil, Nat.le_refl c, by simp⟩
  | cons e members ih =>
    intro n c first toks ht hn
    obtain ⟨he, hes⟩ := List.forall_mem_cons.1 hc
    simp only [memberLexemes_cons, List.append_assoc, List.cons_append] at ht
    obtain ⟨us, xs, rfl, hu, hx⟩ := List.map_eq_append_iff.1 ht
    obtain ⟨key, ys, rfl, hkey, hy⟩ := List.map_eq_cons_iff.1 hx
    obtain ⟨⟨_, a, o⟩, zs, rfl, rfl, hz⟩ := List.map_eq_cons_iff.1 hy
    obtain ⟨value, ts, rfl, hvalue, ht'⟩ := List.map_eq_cons_iff.1 hz
    obtain ⟨vs, ws, rfl, hv, hw⟩ := List.map_eq_append_iff.1 ht'
    simp only [memberLexemes_cons, List.length_append, List.length_cons] at hn
    obtain ⟨tok, vs, rfl, ho, hlen⟩ := exists_cons_of_map_eq_lexemes hv
    obtain ⟨n, rfl⟩ := Nat.exists_eq_add_of_le' (show 3 ≤ n by omega)
    obtain ⟨m, d, hm, hms, hcd, hmd⟩ := he n (c + 1) .flow f hs (ws ++ rest) hv (by omega)
    obtain ⟨ps, b, hn, hks, hps, hdb, hnb⟩ := ih hes (n := n + 2) (c := d) hw (by omega)
    refine ⟨(.scalar .str e.1.symbols.chars ⟨a, c, none⟩, m) :: ps, b, ?_, .cons ⟨_, rfl⟩ hks, .cons hms hps, by omega,
      List.forall_mem_cons.2 ⟨⟨?_, Nat.lt_of_lt_of_le hmd hdb⟩, hnb⟩⟩
    · simp only [List.append_assoc, List.cons_append]
      rw [flowPairs_entry hu hkey hvalue ho, ← List.cons_append, hm]
      change (flowPairs (n + 2) false ⟨ws ++ rest, f, hs, [], d⟩ >>= _) = _
      rw [hn]
      rfl
    · exact Nat.lt_of_lt_of_le hcd hdb

theorem isComposed (j : Json) : j.IsComposed := by
  induction j using Json.induction with
  | word w =>
    intro toks n c pos f hs rest ht hn
    obtain ⟨⟨_, a, b⟩, rfl, rfl⟩ := List.map_eq_singleton_iff.1 ht
    obtain ⟨n, rfl⟩ := Nat.exists_eq_succ_of_ne_zero (Nat.ne_of_gt (Nat.lt_of_lt_of_le (Nat.succ_pos _) hn))
    exact ⟨_, c + 1, node_scalar true, .word w _, Nat.le_succ c, Nat.lt_succ_self c⟩
  | string ss =>
    intro toks n c pos f hs rest ht hn
    obtain ⟨⟨_, a, b⟩, rfl, rfl⟩ := List.map_eq_singleton_iff.1 ht
    obtain ⟨n, rfl⟩ := Nat.exists_eq_succ_of_ne_zero (Nat.ne_of_gt (Nat.lt_of_lt_of_le (Nat.succ_pos _) hn))
    exact ⟨_, c + 1, node_scalar false, .string ss _, Nat.le_succ c, Nat.lt_succ_self c⟩
  | array blanks items ih =>
    intro toks n c pos f hs rest ht hn
    obtain ⟨⟨_, a, b⟩, us, rfl, rfl, hu⟩ := List.map_eq_cons_iff.1 ht
    simp only [lexemes, List.length_cons, List.length_append] at hn
    obtain ⟨n, rfl⟩ := Nat.exists_eq_succ_of_ne_zero (show n ≠ 0 by omega)
    obtain ⟨ns, d, hi, hs', hcd, hd⟩ := exists_flowItems f hs rest ih (n := n) (c := c) hu (by omega)
    refine ⟨.sequence .seq ns ⟨a, d, none⟩, d + 1, ?_, .array hs' hd, by omega, Nat.lt_succ_self d⟩
    rw [List.cons_append, node_sequence, hi]
    rfl
  | object blanks members ih =>
    intro toks n c pos f hs rest ht hn
    obtain ⟨⟨_, a, b⟩, us, rfl, rfl, hu⟩ := List.map_eq_cons_iff.1 ht
    simp only [lexemes, List.length_cons, List.length_append] at hn
    obtain ⟨n, rfl⟩ := Nat.exists_eq_succ_of_ne_zero (show n ≠ 0 by omega)
    obtain ⟨ps, d, hp, hk, hs', hcd, hd⟩ := exists_flowPairs f hs rest ih (n := n) (c := c) hu (by omega)
    refine ⟨.mapping .map ps ⟨a, d, none⟩, d + 1, ?_, .object hk hs' hd, by omega, Nat.lt_succ_self d⟩
    rw [List.cons_append, node_mapping, hp]
    rfl

theorem documentStart_end : documentStart (n + 1) ⟨[⟨.streamEnd, a, b⟩], f, hs, [], c⟩ =
    .ok (false, ⟨[⟨.streamEnd, a, b⟩], f, hs, [], c⟩) := by exact rfl

theorem root?_of_opens (h : opens tok.lexeme = true) : root? n ⟨tok :: toks, f, hs, [], c⟩ =
    node n .block ⟨tok :: toks, f, hs, [], c⟩ >>= fun p => .ok (some p.1, p.2) := by
  obtain ⟨l, a, b⟩ := tok
  cases l <;> cases h <;> exact rfl

theorem document_of_node {m : Node} (h : opens tok.lexeme = true)
    (hn : node (n + 1) .block ⟨tok :: toks, f, hs, [], c⟩ = .ok (m, ⟨[⟨.streamEnd, a, b⟩], f, hs, [], d⟩)) :
    document (n + 1) ⟨tok :: toks, f, hs, [], c⟩ = .ok (some m, ⟨[⟨.streamEnd, a, b⟩], f, hs, [], d⟩) := by
  have hr : root? (n + 1) ⟨tok :: toks, f, hs, [], c⟩ = .ok (some m, ⟨[⟨.streamEnd, a, b⟩], f, hs, [], d⟩) := by
    rw [root?_of_opens h, hn]
    rfl
  unfold document
  simp only [bind, StateT.bind, Except.bind, hr, documentStart_end]
  rfl

end Json

open Json in
/-- A regular text has a node tree of the shape of its value. -/
theorem JsonText.exists_compose {t : JsonText} (h : t.isRegular = true) :
    ∃ n, compose t.text = .ok (some n) ∧ Shapes t.root n := by
  obtain ⟨toks, ht, hl⟩ := t.exists_tokens h
  obtain ⟨us, vs, rfl, hu, hv⟩ := List.map_eq_append_iff.1 hl
  obtain ⟨last, rfl, hlast⟩ := List.map_eq_singleton_iff.1 hv
  obtain ⟨_, a, b⟩ := last
  obtain rfl := hlast
  obtain ⟨tok, us, rfl, ho, -⟩ := exists_cons_of_map_eq_lexemes hu
  have hlen := congrArg List.length hu
  rw [List.length_map] at hlen
  obtain ⟨n, d, hn, hs, -, -⟩ := t.root.isComposed (3 * (tok :: us ++ [Token.mk .streamEnd a b]).length + 3) 0 .block
    .illFormed defaultHandles [⟨.streamEnd, a, b⟩] hu (by rw [← hlen, List.length_append]; omega)
  refine ⟨n, ?_, hs⟩
  rw [compose, ht]
  exact congrArg (Except.map (·.1)) (document_of_node ho hn)

end Conform
