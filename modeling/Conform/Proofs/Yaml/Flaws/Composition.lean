import Conform.Proofs.Yaml.Flaws.Tokens
import Conform.Yaml.Composition

/-! Flaws that reading the node tree of a text finds in it. Behind the last token stands the flaw of the
tokens; any other is that the text is ill formed. -/

namespace Conform.Yaml

variable {text : List Char} {α : Type}

/-- Whether what is left to read ends in a flaw of a text. -/
def Reading.EndsIn (text : List Char) (r : Reading) : Prop := IsFlawOf text r.flaw

/-- Whether reading fails for a flaw of a text. -/
abbrev Finds (text : List Char) (x : Compose α) : Prop :=
  Keeps (Reading.EndsIn text) (fun _ => True) (IsFlawOf text) x

theorem Finds.bind {β : Type} {x : Compose α} {f : α → Compose β} (hx : Finds text x)
    (hf : ∀ a, Finds text (f a)) : Finds text (x >>= f) :=
  Keeps.bind hx fun a _ => hf a

theorem Finds.pure {a : α} : Finds text (pure a : Compose α) := Keeps.pure trivial

theorem Finds.get : Finds text (get : Compose Reading) := fun _ h => ⟨trivial, h⟩

theorem Finds.modify {f : Reading → Reading} (h : ∀ r, (f r).flaw = r.flaw) : Finds text (modify f) :=
  Keeps.modify fun r hr => by
    unfold Reading.EndsIn
    rw [h]
    exact hr

theorem finds_fail : Finds text (Compose.fail : Compose α) := Keeps.throw (.inl rfl)

theorem finds_peek : Finds text Compose.peek := by
  refine Keeps.bind Keeps.get fun r hr => ?_
  split
  · exact Keeps.throw hr
  · exact Finds.pure

theorem finds_next : Finds text Compose.next :=
  finds_peek.bind fun _ => (Finds.modify fun _ => by rfl).bind fun _ => Finds.pure

theorem finds_sees (ls : List Lexeme) : Finds text (Compose.sees ls) :=
  finds_peek.bind fun _ => Finds.pure

/-- Looks at the next token, and goes on one of two ways. -/
theorem finds_ifSees (ls : List Lexeme) {x y : Compose α} (hx : Finds text x) (hy : Finds text y) :
    Finds text (do if ← Compose.sees ls then x else y) :=
  (finds_sees ls).bind fun _ => Keeps.ite (fun _ => hx) fun _ => hy

theorem finds_expect (l : Lexeme) : Finds text (Compose.expect l) := finds_ifSees [l] finds_next finds_fail

/-- Goes on after a separator, if this is not the first item. -/
theorem finds_separated (first : Bool) {x : Compose α} (hx : Finds text x) :
    Finds text (do
      if !first then
        let _ ← Compose.expect .flowEntry
      x) :=
  Keeps.ite (fun _ => (finds_expect _).bind fun _ => hx) fun _ => hx

theorem finds_properties : Finds text properties := by
  refine finds_peek.bind fun t => ?_
  split
  · refine finds_next.bind fun _ => finds_peek.bind fun u => ?_
    split
    · exact finds_next.bind fun _ => Finds.pure
    · exact Finds.pure
  · refine finds_next.bind fun _ => finds_peek.bind fun u => ?_
    split
    · exact finds_next.bind fun _ => Finds.pure
    · exact Finds.pure
  · exact Finds.pure

theorem finds_fullTag (tag : Option (List Char) × List Char) : Finds text (fullTag tag) := by
  unfold fullTag
  split
  · exact Finds.pure
  · next handle suffix =>
    refine Finds.get.bind fun r => ?_
    split
    · exact Finds.pure
    · exact finds_fail

theorem finds_fullTag? (tag : Option (Option (List Char) × List Char)) : Finds text (tag.mapM fullTag) := by
  cases tag with
  | none => exact Finds.pure
  | some tag => exact (finds_fullTag tag).bind fun _ => Finds.pure

theorem finds_create (m : Mark) (f : Site → Node) : Finds text (create m f) :=
  Finds.get.bind fun _ => (Finds.modify fun _ => by rfl).bind fun _ => Finds.pure

theorem finds_emptyScalar (m : Mark) : Finds text (emptyScalar m) := finds_create m _

theorem finds_requireNew (anchor : Option (List Char)) : Finds text (requireNew anchor) := by
  unfold requireNew
  split
  · exact Finds.pure
  · exact Finds.get.bind fun r => Keeps.ite (fun _ => finds_fail) fun _ => Finds.pure

theorem finds_openAnchor (anchor : Option (List Char)) (shape : Shape) (tag : Tag) (m : Mark) :
    Finds text (openAnchor anchor shape tag m) := by
  refine (finds_requireNew anchor).bind fun _ => ?_
  split
  · exact Finds.pure
  · exact (finds_create m _).bind fun _ => Finds.modify fun _ => by rfl

theorem finds_createAt (anchor : Option (List Char)) (m : Mark) (f : Site → Node) :
    Finds text (createAt anchor m f) := by
  refine (finds_create m _).bind fun n => ?_
  split
  · exact Finds.pure
  · exact (Finds.modify fun _ => by rfl).bind fun _ => Finds.pure

theorem finds_aliased (name : List Char) : Finds text (aliased name) := by
  refine Finds.get.bind fun r => ?_
  split
  · exact Finds.pure
  · exact finds_fail

/-- What the readers of nodes, of items and of pairs find within a number of rounds. -/
structure FindsWithin (text : List Char) (n : Nat) : Prop where
  node : ∀ position, Finds text (node n position)
  nodeUnless : ∀ position ls m, Finds text (nodeUnless n position ls m)
  blockItems : Finds text (blockItems n)
  bareItems : Finds text (bareItems n)
  blockPairs : Finds text (blockPairs n)
  pairValue : ∀ position ls, Finds text (pairValue n position ls)
  flowItems : ∀ first, Finds text (flowItems n first)
  flowPairs : ∀ first, Finds text (flowPairs n first)

namespace FindsWithin

variable {n : Nat}

theorem zero : FindsWithin text 0 where
  node _ := finds_fail
  nodeUnless _ _ _ := finds_fail
  blockItems := finds_fail
  bareItems := finds_fail
  blockPairs := finds_fail
  pairValue _ _ := finds_fail
  flowItems _ := finds_fail
  flowPairs _ := finds_fail

variable (h : FindsWithin text n)
include h

theorem succ_nodeUnless (position : Position) (ls : List Lexeme) (m : Mark) :
    Finds text (Yaml.nodeUnless (n + 1) position ls m) :=
  finds_ifSees ls (finds_emptyScalar m) (h.node position)

theorem succ_pairValue (position : Position) (ls : List Lexeme) :
    Finds text (Yaml.pairValue (n + 1) position ls) := by
  refine finds_ifSees [.value] ?_ ?_
  · exact finds_next.bind fun t => h.nodeUnless position ls t.stop
  · exact finds_peek.bind fun t => finds_emptyScalar t.start

theorem succ_blockItems : Finds text (Yaml.blockItems (n + 1)) := by
  refine finds_ifSees [.blockEntry] ?_ ?_
  · refine finds_next.bind fun t => (h.nodeUnless _ _ _).bind fun item => ?_
    exact h.blockItems.bind fun _ => Finds.pure
  · exact (finds_expect _).bind fun _ => Finds.pure

theorem succ_bareItems : Finds text (Yaml.bareItems (n + 1)) := by
  refine finds_ifSees [.blockEntry] ?_ Finds.pure
  refine finds_next.bind fun t => (h.nodeUnless _ _ _).bind fun item => ?_
  exact h.bareItems.bind fun _ => Finds.pure

theorem succ_blockPairs : Finds text (Yaml.blockPairs (n + 1)) := by
  refine finds_ifSees [.key] ?_ ?_
  · refine finds_next.bind fun t => (h.nodeUnless _ _ _).bind fun k => ?_
    exact (h.pairValue _ _).bind fun v => h.blockPairs.bind fun _ => Finds.pure
  · exact (finds_expect _).bind fun _ => Finds.pure

theorem succ_flowItems (first : Bool) : Finds text (Yaml.flowItems (n + 1) first) := by
  have hend : Finds text (do let _ ← Compose.next; return [] : Compose (List Node)) :=
    finds_next.bind fun _ => Finds.pure
  refine finds_ifSees [.sequenceEnd] hend ?_
  refine finds_separated first (finds_ifSees [.key] ?_ (finds_ifSees [.sequenceEnd] hend ?_))
  · refine finds_next.bind fun t => (h.nodeUnless _ _ _).bind fun k => (h.pairValue _ _).bind fun v => ?_
    refine finds_peek.bind fun _ => (finds_create _ _).bind fun item => ?_
    exact (h.flowItems false).bind fun _ => Finds.pure
  · exact (h.node .flow).bind fun item => (h.flowItems false).bind fun _ => Finds.pure

theorem succ_flowPairs (first : Bool) : Finds text (Yaml.flowPairs (n + 1) first) := by
  have hend : Finds text (do let _ ← Compose.next; return [] : Compose (List (Node × Node))) :=
    finds_next.bind fun _ => Finds.pure
  refine finds_ifSees [.mappingEnd] hend ?_
  refine finds_separated first (finds_ifSees [.key] ?_ (finds_ifSees [.mappingEnd] hend ?_))
  · refine finds_next.bind fun t => (h.nodeUnless _ _ _).bind fun k => (h.pairValue _ _).bind fun v => ?_
    exact (h.flowPairs false).bind fun _ => Finds.pure
  · refine (h.node .flow).bind fun k => finds_peek.bind fun t => (finds_emptyScalar t.start).bind fun v => ?_
    exact (h.flowPairs false).bind fun _ => Finds.pure

theorem succ_node (position : Position) : Finds text (Yaml.node (n + 1) position) := by
  refine finds_peek.bind fun t => ?_
  split
  · exact finds_next.bind fun _ => finds_aliased _
  · refine finds_properties.bind fun p => (finds_fullTag? p.tag).bind fun tag => finds_peek.bind fun u => ?_
    have hnew {x : Compose Node} (hx : Finds text x) :
        Finds text (do
          requireNew p.anchor
          x) := (finds_requireNew p.anchor).bind fun _ => hx
    have hopen {x : Compose Node} {shape : Shape} {tag : Tag} {m : Mark} (hx : Finds text x) :
        Finds text (do
          openAnchor p.anchor shape tag m
          x) := (finds_openAnchor p.anchor shape tag m).bind fun _ => hx
    simp only
    split
    · exact finds_next.bind fun _ => hnew (finds_createAt _ _ _)
    · exact hopen (finds_next.bind fun _ => (h.flowItems true).bind fun _ => finds_createAt _ _ _)
    · exact hopen (finds_next.bind fun _ => (h.flowPairs true).bind fun _ => finds_createAt _ _ _)
    · refine Keeps.ite (fun _ => ?_) fun _ => Keeps.ite (fun _ => ?_) fun _ => ?_
      · exact hopen (h.bareItems.bind fun _ => finds_createAt _ _ _)
      · exact hopen (finds_next.bind fun _ => h.blockItems.bind fun _ => finds_createAt _ _ _)
      · refine Keeps.ite (fun _ => ?_) fun _ => ?_
        · exact hopen (finds_next.bind fun _ => h.blockPairs.bind fun _ => finds_createAt _ _ _)
        · exact Keeps.ite (fun _ => hnew (finds_createAt _ _ _)) fun _ => finds_fail

omit h in
theorem of_rounds : ∀ n, FindsWithin text n
  | 0 => zero
  | n + 1 =>
    have h := of_rounds n
    { node := h.succ_node
      nodeUnless := h.succ_nodeUnless
      blockItems := h.succ_blockItems
      bareItems := h.succ_bareItems
      blockPairs := h.succ_blockPairs
      pairValue := h.succ_pairValue
      flowItems := h.succ_flowItems
      flowPairs := h.succ_flowPairs }

end FindsWithin

theorem finds_node (n : Nat) (position : Position) : Finds text (node n position) :=
  (FindsWithin.of_rounds n).node position

theorem finds_directives (n : Nat) (versioned : Bool) (handles : List (List Char × List Char)) :
    Finds text (directives n versioned handles) := by
  induction n generalizing versioned handles with
  | zero => exact finds_fail
  | succ n ih =>
    refine finds_peek.bind fun t => ?_
    split
    · refine finds_next.bind fun _ => ?_
      split
      · exact Keeps.ite (fun _ => finds_fail) fun _ => ih _ _
      · exact Keeps.ite (fun _ => finds_fail) fun _ => ih _ _
      · exact ih _ _
    · exact Finds.pure

theorem finds_skipDocumentEnds (n : Nat) : Finds text (skipDocumentEnds n) := by
  induction n with
  | zero => exact finds_fail
  | succ n ih => exact finds_ifSees [.documentEnd] (finds_next.bind fun _ => ih) Finds.pure

theorem finds_documentStart (size : Nat) : Finds text (documentStart size) := by
  refine (finds_skipDocumentEnds size).bind fun _ => finds_ifSees [.streamEnd] Finds.pure ?_
  refine (finds_directives size false []).bind fun _ => (finds_expect .documentStart).bind fun _ => ?_
  exact (Finds.modify fun _ => by rfl).bind fun _ => Finds.pure

theorem finds_markedRoot (size : Nat) : Finds text (markedRoot size) :=
  finds_peek.bind fun t => Keeps.ite (fun _ => finds_emptyScalar t.start) fun _ => finds_node size .block

theorem finds_root? (size : Nat) : Finds text (root? size) := by
  refine finds_peek.bind fun t => Keeps.ite (fun _ => ?_) fun _ => ?_
  · refine (finds_documentStart size).bind fun b => Keeps.ite (fun _ => ?_) fun _ => Finds.pure
    exact (finds_markedRoot size).bind fun _ => Finds.pure
  · exact (finds_node size .block).bind fun _ => Finds.pure

theorem finds_document (size : Nat) : Finds text (document size) := by
  refine (finds_root? size).bind fun n? => ?_
  split
  · exact Finds.pure
  · exact (finds_documentStart size).bind fun _ => Keeps.ite (fun _ => finds_fail) fun _ => Finds.pure

theorem isFlawOf_compose {f : Flaw} (h : compose text = .error f) : IsFlawOf text f := by
  have hend : IsFlawOf text ((tokens text).2.getD .illFormed) := by
    cases ht : (tokens text).2 with
    | none => exact .inl rfl
    | some f => exact isFlawOf_tokens ht
  have hd : Finds text (document (3 * (tokens text).1.length + 3)) := finds_document _
  have hm : Meets (fun _ => True) (IsFlawOf text) (compose text) :=
    (hd ⟨_, _, defaultHandles, [], 0⟩ hend).map fun _ _ => trivial
  rw [h] at hm
  exact hm

end Conform.Yaml
