import Conform.Proofs.JsonSchema.Agreement
import Conform.Proofs.Path.Pointer
import Conform.Proofs.Schema.Construction

/-! Which schemas can be exported, what a refusal blames and what the documents look like. A schema is walked from
its root, each schema before its parts, and the first one that JSON Schema has no keywords for is blamed under its
own path. A document never breaks the rules that draft 2020-12 has for the keywords in it; some of them hold
because constructor calls only make schemas that are well-formed. -/

namespace Conform

/-- A path as refusals show it. -/
def Path.shown (p : Path) : String := if p.isEmpty then "/" else p.pointer

theorem Path.isEmpty_pointer (p : Path) : p.pointer.isEmpty = p.isEmpty := by
  rw [Bool.eq_iff_iff, String.isEmpty_iff, ← String.toList_eq_nil_iff, toList_pointer, List.isEmpty_iff]
  cases p <;> simp [chars]

theorem Path.pointer_append (p : Path) (t : Value) : pointer (p ++ [t]) = Pointer.join p.pointer t := by
  rw [pointer, List.foldl_append, List.foldl_cons, List.foldl_nil, pointer]

theorem Path.shown_eq (p : Path) : p.shown = if p.pointer.isEmpty then "/" else p.pointer := by
  rw [p.isEmpty_pointer, shown]

theorem ExportError.placeText_pointer (p : Path) :
    placeText p.pointer = " in JSON Schema (at '" ++ p.shown ++ "')" := by
  rw [p.shown_eq]
  rfl

/-! The schemas in a schema, as they are exported. -/

namespace Schema

/-- Whether there are keywords for the root of a schema. -/
def isExpressible : Schema → Bool
  | .leaf kind => kind != .function
  | .literal expected => expected.isJsonScalar
  | .custom _ => false
  | _ => true

/-- What is said of a schema that has no keywords, with its path. -/
def refusal (path : Path) : Schema → ExportError
  | .leaf kind => .kind kind path.pointer
  | .literal expected => .literal expected.type.name path.pointer
  | s => .unknownSchema s.className

mutual

/-- The schemas in a schema with their paths, each before its parts. -/
def nodes (path : Path) : Schema → List (Path × Schema)
  | .object fields => (path, .object fields) :: nodesAmong path fields
  | .array item => (path, .array item) :: nodes (path ++ [.str "*"]) item
  | .tuple items => (path, .tuple items) :: nodesFrom path 0 items
  | .union options => (path, .union options) :: nodesIn path options
  | .optional inner => (path, .optional inner) :: nodes path inner
  | .table key value =>
    (path, .table key value) :: (nodesAt (path ++ [.str "<key>"]) key ++ nodesAt (path ++ [.str "*"]) value)
  | .leaf kind => [(path, .leaf kind)]
  | .literal expected => [(path, .literal expected)]
  | .custom own => [(path, .custom own)]
termination_by structural s => s

def nodesAmong (path : Path) : List (FieldName × Schema) → List (Path × Schema)
  | [] => []
  | (n, s) :: fields => nodes (path ++ [n.value]) s ++ nodesAmong path fields
termination_by structural fields => fields

def nodesFrom (path : Path) : Nat → List Schema → List (Path × Schema)
  | _, [] => []
  | i, s :: ss => nodes (path ++ [.int i]) s ++ nodesFrom path (i + 1) ss
termination_by structural _ ss => ss

def nodesIn (path : Path) : List Schema → List (Path × Schema)
  | [] => []
  | s :: ss => nodes path s ++ nodesIn path ss
termination_by structural ss => ss

def nodesAt (path : Path) : Option Schema → List (Path × Schema)
  | none => []
  | some s => nodes path s
termination_by structural part => part

end

end Schema

namespace Schema

variable {p : Schema → Bool}

mutual

theorem forall_mem_nodes_iff : ∀ (s : Schema) (path : Path),
    (∀ n ∈ s.nodes path, p n.2 = true) ↔ s.everywhere p = true
  | .leaf _, path | .literal _, path | .custom _, path => by simp [nodes, everywhere]
  | .object fields, path => by
    rw [nodes, List.forall_mem_cons, forall_mem_nodesAmong_iff, everywhere, Bool.and_eq_true]
  | .array item, path => by
    rw [nodes, List.forall_mem_cons, forall_mem_nodes_iff, everywhere, Bool.and_eq_true]
  | .tuple items, path => by
    rw [nodes, List.forall_mem_cons, forall_mem_nodesFrom_iff, everywhere, Bool.and_eq_true]
  | .union options, path => by
    rw [nodes, List.forall_mem_cons, forall_mem_nodesIn_iff, everywhere, Bool.and_eq_true]
  | .optional inner, path => by
    rw [nodes, List.forall_mem_cons, forall_mem_nodes_iff, everywhere, Bool.and_eq_true]
  | .table key value, path => by
    rw [nodes, List.forall_mem_cons, List.forall_mem_append, forall_mem_nodesAt_iff, forall_mem_nodesAt_iff,
      everywhere, Bool.and_eq_true, Bool.and_eq_true]

theorem forall_mem_nodesAmong_iff : ∀ (fields : List (FieldName × Schema)) (path : Path),
    (∀ n ∈ nodesAmong path fields, p n.2 = true) ↔ everywhereAmong p fields = true
  | [], path => by simp [nodesAmong, everywhereAmong]
  | (n, s) :: fields, path => by
    rw [nodesAmong, List.forall_mem_append, forall_mem_nodes_iff, forall_mem_nodesAmong_iff,
      everywhereAmong, Bool.and_eq_true]

theorem forall_mem_nodesFrom_iff : ∀ (items : List Schema) (i : Nat) (path : Path),
    (∀ n ∈ nodesFrom path i items, p n.2 = true) ↔ everywhereIn p items = true
  | [], i, path => by simp [nodesFrom, everywhereIn]
  | s :: items, i, path => by
    rw [nodesFrom, List.forall_mem_append, forall_mem_nodes_iff, forall_mem_nodesFrom_iff, everywhereIn,
      Bool.and_eq_true]

theorem forall_mem_nodesIn_iff : ∀ (options : List Schema) (path : Path),
    (∀ n ∈ nodesIn path options, p n.2 = true) ↔ everywhereIn p options = true
  | [], path => by simp [nodesIn, everywhereIn]
  | s :: options, path => by
    rw [nodesIn, List.forall_mem_append, forall_mem_nodes_iff, forall_mem_nodesIn_iff, everywhereIn,
      Bool.and_eq_true]

theorem forall_mem_nodesAt_iff : ∀ (part : Option Schema) (path : Path),
    (∀ n ∈ nodesAt path part, p n.2 = true) ↔ everywhereAt p part = true
  | none, path => by simp [nodesAt, everywhereAt]
  | some s, path => by rw [nodesAt, forall_mem_nodes_iff, everywhereAt]

end

end Schema

/-- The first of some schemas that has no keywords, as it is refused. -/
def obstacle? (ns : List (Path × Schema)) : Option ExportError :=
  (ns.find? fun n => !n.2.isExpressible).map fun n => n.2.refusal n.1

theorem obstacle?_append (ms ns : List (Path × Schema)) :
    obstacle? (ms ++ ns) = (obstacle? ms).or (obstacle? ns) := by
  rw [obstacle?, List.find?_append, obstacle?, obstacle?]
  cases ms.find? _ <;> simp

theorem obstacle?_cons {n : Path × Schema} (hn : n.2.isExpressible = true) (ns : List (Path × Schema)) :
    obstacle? (n :: ns) = obstacle? ns := by
  rw [obstacle?, List.find?_cons_of_neg (by simp [hn]), obstacle?]

/-! The error of an export, if it fails. -/

def Export.error? {α : Type} : Export α → Option ExportError
  | .error e => some e
  | .ok _ => none

namespace Export

variable {α β γ : Type} {x : Export α} {y : Export β}

@[simp] theorem error?_ok {a : α} : error? (.ok a : Export α) = none := rfl

@[simp] theorem error?_error {e : ExportError} : error? (.error e : Export α) = some e := rfl

@[simp] theorem error?_bind_pure {f : α → β} : error? (x >>= fun a => pure (f a)) = error? x := by
  cases x <;> rfl

@[simp] theorem error?_bind_bind_pure {f : α → β → γ} :
    error? (x >>= fun a => y >>= fun b => pure (f a b)) = (error? x).or (error? y) := by
  cases x with
  | error e => rfl
  | ok a => cases y <;> rfl

theorem eq_error_of_error? {e : ExportError} (h : x.error? = some e) : x = .error e := by
  cases x with
  | error d => exact congrArg _ (Option.some.inj h)
  | ok a => cases h

theorem error?_eq_none_iff : x.error? = none ↔ ∃ a, x = .ok a := by
  cases x <;> simp

end Export

/-! An export fails where the first schema without keywords is. -/

namespace Schema

mutual

theorem error?_keywords : ∀ (s : Schema) (path : Path),
    (s.keywords path.pointer).error? = obstacle? (s.nodes path)
  | .leaf kind, path => by
    rw [keywords, nodes]
    cases kind <;> rfl
  | .object fields, path => by
    rw [keywords, nodes, obstacle?_cons rfl, Export.error?_bind_pure, error?_exportFields]
  | .array item, path => by
    rw [keywords, nodes, obstacle?_cons rfl, Export.error?_bind_pure, ← Path.pointer_append,
      error?_keywords item]
  | .tuple items, path => by
    rw [keywords, nodes, obstacle?_cons rfl, Export.error?_bind_pure, error?_exportItems]
  | .union options, path => by
    rw [keywords, nodes, obstacle?_cons rfl, Export.error?_bind_pure, error?_exportOptions]
  | .optional inner, path => by
    rw [keywords, nodes, obstacle?_cons rfl, Export.error?_bind_pure, error?_keywords inner]
  | .table key value, path => by
    rw [keywords, nodes, obstacle?_cons rfl, obstacle?_append, Export.error?_bind_bind_pure,
      ← Path.pointer_append, ← Path.pointer_append, error?_exportPart key, error?_exportPart value]
  | .literal expected, path => by
    rw [keywords, nodes]
    cases h : expected.isJsonScalar <;> simp [obstacle?, isExpressible, refusal, h]
  | .custom own, path => by
    rw [keywords, nodes]
    rfl

theorem error?_exportFields : ∀ (fields : List (FieldName × Schema)) (path : Path),
    (exportFields path.pointer fields).error? = obstacle? (nodesAmong path fields)
  | [], path => rfl
  | (n, s) :: fields, path => by
    rw [exportFields, nodesAmong, obstacle?_append, Export.error?_bind_bind_pure, ← Path.pointer_append,
      error?_keywords s, error?_exportFields fields]

theorem error?_exportItems : ∀ (items : List Schema) (i : Nat) (path : Path),
    (exportItems path.pointer i items).error? = obstacle? (nodesFrom path i items)
  | [], i, path => rfl
  | s :: items, i, path => by
    rw [exportItems, nodesFrom, obstacle?_append, Export.error?_bind_bind_pure, ← Path.pointer_append,
      error?_keywords s, error?_exportItems items]

theorem error?_exportOptions : ∀ (options : List Schema) (path : Path),
    (exportOptions path.pointer options).error? = obstacle? (nodesIn path options)
  | [], path => rfl
  | s :: options, path => by
    rw [exportOptions, nodesIn, obstacle?_append, Export.error?_bind_bind_pure, error?_keywords s,
      error?_exportOptions options]

theorem error?_exportPart : ∀ (part : Option Schema) (path : Path),
    (exportPart path.pointer part).error? = obstacle? (nodesAt path part)
  | none, path => rfl
  | some s, path => by
    rw [exportPart, nodesAt, Export.error?_bind_pure, error?_keywords s]

end

end Schema

/-! Documents that keep the rules of the draft. -/

namespace JsonSchema

def typeNames : List String := ["array", "boolean", "integer", "null", "number", "object", "string"]

mutual

/-- Whether a JSON schema keeps the rules that the draft has for keywords: no keyword stands twice, titles are
strings, types have known names, the properties and the required names are without duplicates, `anyOf` and
`prefixItems` are not empty. What is asked for as the least number of items is the number of `prefixItems`. -/
inductive Proper : JsonSchema → Prop
  | constant (b : Bool) : Proper (.constant b)
  | keywords {ks : List Keyword} : (ks.map Keyword.name).Nodup →
      (∀ k ∈ ks, ProperBeside (leadingCount ks) k) → Proper (.keywords ks)

/-- Whether a keyword that stands beside so many `prefixItems` keeps the rules. -/
inductive ProperBeside : Nat → Keyword → Prop
  | dialect {n : Nat} (uri : String) : ProperBeside n (.dialect uri)
  | title {n : Nat} {t : Value} : t.string?.isSome = true → ProperBeside n (.title t)
  | type {n : Nat} {name : String} : name ∈ typeNames → ProperBeside n (.type name)
  | properties {n : Nat} {fields : List (FieldName × JsonSchema)} : (fields.map (·.1.string)).Nodup →
      (∀ f ∈ fields, Proper f.2) → ProperBeside n (.properties fields)
  | required {n : Nat} {names : List FieldName} : (names.map FieldName.string).Nodup →
      ProperBeside n (.required names)
  | additionalProperties {n : Nat} {s : JsonSchema} : Proper s → ProperBeside n (.additionalProperties s)
  | items {n : Nat} {s : JsonSchema} : Proper s → ProperBeside n (.items s)
  | leadingItems {n : Nat} {ss : List JsonSchema} : ss ≠ [] → (∀ s ∈ ss, Proper s) →
      ProperBeside n (.leadingItems ss)
  | minItems {n : Nat} : ProperBeside n (.minItems n)
  | anyOf {n : Nat} {ss : List JsonSchema} : ss ≠ [] → (∀ s ∈ ss, Proper s) → ProperBeside n (.anyOf ss)
  | const {n : Nat} (v : Value) : ProperBeside n (.const v)
  | propertyNames {n : Nat} {s : JsonSchema} : Proper s → ProperBeside n (.propertyNames s)

end

end JsonSchema

/-- What is known of a check against the draft's own schema: it has no objection to a document that keeps the rules,
and it has one to a title that is no string. -/
structure Objection.KnowsDraft (objection : Objection) : Prop where
  proper {j : JsonSchema} : j.Proper → objection j = none
  title {t : Value} {ks : List Keyword} : t.string?.isSome = false →
    objection (.keywords (JsonSchema.head (some t) ++ ks)) ≠ none

namespace JsonSchema

theorem proper_of_type {name : String} (h : name ∈ typeNames) : Proper (.keywords [.type name]) :=
  .keywords (List.pairwise_singleton _ _) (by simpa using .type h)

/-- The check of titles knows as much of the draft as exported documents need. -/
theorem knowsDraft_titleObjection : Objection.KnowsDraft titleObjection where
  proper h := by
    unfold titleObjection
    split
    · next t ks =>
      obtain _ | ⟨-, hk⟩ := h
      cases hk (.title t) (by simp) with
      | title ht => rw [if_pos ht]
    · rfl
  title h := by
    simp [titleObjection, head, h]

end JsonSchema

namespace Schema

open JsonSchema

theorem proper_of_kind {kind : Kind} {ks : List Keyword} (h : kind.keywords? = some ks) :
    Proper (.keywords ks) := by
  have hn : Proper (.keywords []) := .keywords List.nodup_nil (by simp)
  cases kind <;> cases h <;> first | exact hn | exact proper_of_type (by decide)

theorem isWellFormed_of_mem_parts {s t : Schema} (h : s.isWellFormed = true) (ht : t ∈ s.parts) :
    t.isWellFormed = true :=
  everywhere_of_mem_parts h ht

theorem proper_of_forall₂ {ss : List Schema} {js : List JsonSchema} (h : List.Forall₂ ExportsTo ss js)
    (hp : ∀ s ∈ ss, ∀ {j}, s.ExportsTo j → Proper j) : ∀ j ∈ js, Proper j := by
  intro j hj
  obtain ⟨s, hs, he⟩ := exists_mem_of_forall₂ h.flip hj
  exact hp s hs he

theorem proper_of_rel {part : Option Schema} {j : Option JsonSchema} (h : Option.Rel ExportsTo part j)
    (hp : ∀ s ∈ part, ∀ {j}, s.ExportsTo j → Proper j) : ∀ k ∈ j, Proper k := by
  cases h with
  | none => simp
  | some he => simpa using hp _ rfl he

theorem ne_nil_of_forall₂ {ss : List Schema} {js : List JsonSchema} (h : List.Forall₂ ExportsTo ss js)
    (hs : (!ss.isEmpty) = true) : js ≠ [] := by
  rintro rfl
  cases h
  cases hs

/-- What a well-formed schema is exported to keeps the rules. -/
theorem proper_of_exportsTo {s : Schema} (hs : s.isWellFormed = true) :
    ∀ {j : JsonSchema}, s.ExportsTo j → Proper j := by
  induction s using Schema.induction with
  | leaf kind =>
    intro j h
    obtain ⟨ks, hk, rfl⟩ := exportsTo_leaf h
    exact proper_of_kind hk
  | literal expected =>
    intro j h
    rw [exportsTo_literal h]
    exact .keywords (List.pairwise_singleton _ _) (by simpa using .const expected)
  | custom own =>
    intro j h
    exact absurd h not_exportsTo_custom
  | object fields ih =>
    intro j h
    obtain ⟨ps, hps, rfl⟩ := exportsTo_object h
    have hn : ps.map (·.1) = fields.map (·.1) :=
      map_eq_map_iff_forall₂.2 (hps.flip.imp fun _ _ h => h.1)
    have hd : ((fields.map (·.1)).map FieldName.string).Nodup := by
      rw [List.map_map]
      exact (isWellFormed_object_iff.1 hs).1
    have hproper : ∀ q ∈ ps, Proper q.2 := by
      intro q hq
      obtain ⟨f, hf, -, he⟩ := exists_mem_of_forall₂ hps.flip hq
      exact ih f hf (isWellFormed_of_mem_parts hs (field_mem_parts hf)) he
    have hprops {n : Nat} : ProperBeside n (.properties ps) :=
      .properties (by rwa [← hn, List.map_map] at hd) hproper
    have hrest {n : Nat} : ProperBeside n (.additionalProperties (.constant true)) :=
      .additionalProperties (.constant true)
    refine .keywords ?_ ?_
    · split <;> simp [Keyword.name]
    · intro k hk
      simp only [List.mem_append, List.mem_cons, List.not_mem_nil, or_false] at hk
      rcases hk with (rfl | rfl | rfl) | hk
      · exact .type (by decide)
      · exact hprops
      · exact hrest
      · split at hk
        · cases hk
        · rw [List.mem_singleton.1 hk]
          exact .required hd
  | array item ih =>
    intro j h
    obtain ⟨k, hk, rfl⟩ := exportsTo_array h
    have hi : Proper k := ih (isWellFormed_of_mem_parts hs item_mem_parts) hk
    refine .keywords (by simp [Keyword.name]) ?_
    simpa using ⟨.type (by decide), .items hi⟩
  | tuple items ih =>
    intro j h
    obtain ⟨ss, hss, rfl⟩ := exportsTo_tuple h
    have hp := proper_of_forall₂ hss fun t ht => ih t ht (isWellFormed_of_mem_parts hs ht)
    have hne := ne_nil_of_forall₂ hss (here_of_everywhere hs)
    rw [hss.length_eq]
    refine .keywords (by simp [Keyword.name]) ?_
    simpa [leadingCount] using
      ⟨.type (by decide), .leadingItems hne hp, .items (.constant false), .minItems⟩
  | union options ih =>
    intro j h
    obtain ⟨ss, hss, rfl⟩ := exportsTo_union h
    have hp := proper_of_forall₂ hss fun t ht => ih t ht (isWellFormed_of_mem_parts hs ht)
    refine .keywords (List.pairwise_singleton _ _) ?_
    simpa using .anyOf (ne_nil_of_forall₂ hss (here_of_everywhere hs)) hp
  | optional inner ih =>
    intro j h
    obtain ⟨k, hk, rfl⟩ := exportsTo_optional h
    have hi : Proper k := ih (isWellFormed_of_mem_parts hs inner_mem_parts) hk
    refine .keywords (List.pairwise_singleton _ _) ?_
    simpa using .anyOf (List.cons_ne_nil _ _) (by simpa using ⟨hi, proper_of_type (by decide)⟩)
  | table key value ihk ihv =>
    intro j h
    obtain ⟨names, values, hn, hv, rfl⟩ := exportsTo_table h
    have hnames : ∀ j ∈ names, Proper j := by
      exact proper_of_rel hn fun t ht => ihk t ht (isWellFormed_of_mem_parts hs (key_mem_parts ht))
    have hvalues : ∀ j ∈ values, Proper j := by
      exact proper_of_rel hv fun t ht => ihv t ht (isWellFormed_of_mem_parts hs (value_mem_parts ht))
    refine .keywords ?_ ?_
    · cases names <;> cases values <;> simp [Keyword.name]
    · intro k hk
      simp only [List.mem_append, List.mem_cons, Option.mem_toList, Option.map_eq_some_iff] at hk
      rcases hk with (rfl | ⟨j, hj, rfl⟩) | ⟨j, hj, rfl⟩
      · exact .type (by decide)
      · exact .propertyNames (hnames j hj)
      · exact .additionalProperties (hvalues j hj)

/-! The document as a whole. -/

theorem exists_keywords_iff {s : Schema} :
    (∃ ks, s.keywords "" = .ok ks) ↔ s.everywhere isExpressible = true := by
  have hk : (s.keywords "").error? = obstacle? (s.nodes []) := error?_keywords s []
  rw [← Export.error?_eq_none_iff, hk, obstacle?, Option.map_eq_none_iff, List.find?_eq_none,
    ← forall_mem_nodes_iff s []]
  simp

/-- The keywords of a schema leave the head of the document alone. -/
theorem name_of_keywords {s : Schema} {p : String} {ks : List Keyword} (h : s.keywords p = .ok ks) :
    ∀ k ∈ ks, k.name ≠ "$schema" ∧ k.name ≠ "title" := by
  have he : s.ExportsTo (.keywords ks) := ⟨p, ks, h, rfl⟩
  cases s with
  | leaf kind =>
    obtain ⟨ks', hk, ⟨⟩⟩ := exportsTo_leaf he
    cases kind <;> cases hk <;> simp [Keyword.name]
  | literal expected =>
    cases exportsTo_literal he
    simp [Keyword.name]
  | custom own => exact absurd he not_exportsTo_custom
  | object fields =>
    obtain ⟨ps, -, ⟨⟩⟩ := exportsTo_object he
    split <;> simp [Keyword.name]
  | table key value =>
    obtain ⟨names, values, -, -, ⟨⟩⟩ := exportsTo_table he
    cases names <;> cases values <;> simp [Keyword.name]
  | array item =>
    obtain ⟨k, -, ⟨⟩⟩ := exportsTo_array he
    simp [Keyword.name]
  | tuple items =>
    obtain ⟨ss, -, ⟨⟩⟩ := exportsTo_tuple he
    simp [Keyword.name]
  | union options =>
    obtain ⟨ss, -, ⟨⟩⟩ := exportsTo_union he
    simp [Keyword.name]
  | optional inner =>
    obtain ⟨k, -, ⟨⟩⟩ := exportsTo_optional he
    simp [Keyword.name]

end Schema

theorem get?_keywordEntries (ks : List Keyword) (name : String) :
    (keywordEntries ks).get? (.str name) = (ks.find? fun k => k.name == name).map Keyword.value := by
  have hm : keywordEntries ks = ks.map fun k => (.str k.name, k.value) := by
    induction ks with
    | nil => rfl
    | cons k ks ih => rw [keywordEntries, ih, List.map_cons]
  have hg := KeyTable.get?_fieldName (keywordEntries ks) (.text name)
  rw [FieldName.value] at hg
  rw [hg, hm, List.find?_map, Option.map_map]
  rfl

namespace JsonSchema

/-- What a document has under a keyword. -/
def at? (name : String) (j : JsonSchema) : Option Value := j.value.entries?.bind fun es => es.get? (.str name)

theorem at?_keywords (ks : List Keyword) (name : String) :
    (keywords ks).at? name = (ks.find? fun k => k.name == name).map Keyword.value :=
  get?_keywordEntries ks name

variable {title : Option Value} {ks : List Keyword}

theorem proper_head_append (ht : ∀ t ∈ title, t.string?.isSome = true) (hk : Proper (.keywords ks))
    (hn : ∀ k ∈ ks, k.name ≠ "$schema" ∧ k.name ≠ "title") : Proper (.keywords (head title ++ ks)) := by
  obtain _ | ⟨hd, hp⟩ := hk
  have hc : leadingCount (head title ++ ks) = leadingCount ks := by cases title <;> rfl
  have hs : "$schema" ∉ ks.map Keyword.name := fun h => by
    obtain ⟨k, hk, he⟩ := List.mem_map.1 h
    exact (hn k hk).1 he
  have ht' : "title" ∉ ks.map Keyword.name := fun h => by
    obtain ⟨k, hk, he⟩ := List.mem_map.1 h
    exact (hn k hk).2 he
  refine .keywords ?_ ?_
  · cases title with
    | none => exact List.nodup_cons.2 ⟨hs, hd⟩
    | some t =>
      refine List.nodup_cons.2 ⟨?_, List.nodup_cons.2 ⟨ht', hd⟩⟩
      exact List.not_mem_cons_of_ne_of_not_mem (by simp [Keyword.name]) hs
  · rw [hc]
    intro k hk
    rcases List.mem_append.1 hk with hk | hk
    · rcases List.mem_cons.1 hk with rfl | hk
      · exact .dialect draft
      · obtain ⟨t, hm, rfl⟩ := Option.map_eq_some_iff.1 (Option.mem_toList.1 hk)
        exact .title (ht t hm)
    · exact hp k hk

theorem at?_dialect (title : Option Value) (ks : List Keyword) :
    (keywords (head title ++ ks)).at? "$schema" = some (.str draft) := by
  rw [at?_keywords, head, List.cons_append, List.find?_cons_of_pos (by decide)]
  rfl

theorem at?_title (title : Option Value) (hn : ∀ k ∈ ks, k.name ≠ "$schema" ∧ k.name ≠ "title") :
    (keywords (head title ++ ks)).at? "title" = title := by
  rw [at?_keywords, head, List.cons_append, List.find?_cons_of_neg (by simp [Keyword.name])]
  cases title with
  | none =>
    have hf : ks.find? (fun k => k.name == "title") = none :=
      List.find?_eq_none.2 fun k hk => by simpa using (hn k hk).2
    rw [Option.map_none, Option.toList_none, List.nil_append, hf, Option.map_none]
  | some t => rfl

end JsonSchema

namespace Schema

/-- What the refusal of a schema says, with the path of that schema. -/
def refusalText (path : Path) : Schema → String
  | .leaf kind => "Cannot express '" ++ kind.name ++ "'" ++ (" in JSON Schema (at '" ++ path.shown ++ "')")
  | .literal expected =>
    "Cannot express literal of type " ++ expected.type.name ++
      (" in JSON Schema (at '" ++ path.shown ++ "')")
  | s => "Internal error: unknown schema type " ++ s.className

theorem message_refusal (s : Schema) (path : Path) : (s.refusal path).message = s.refusalText path := by
  cases s with
  | leaf kind => exact congrArg ("Cannot express '" ++ kind.name ++ "'" ++ ·) (ExportError.placeText_pointer path)
  | literal expected =>
    exact congrArg ("Cannot express literal of type " ++ expected.type.name ++ ·)
      (ExportError.placeText_pointer path)
  | _ => rfl

variable {objection : Objection}

theorem exists_document_iff (ho : objection.KnowsDraft) {s : Schema} (hs : s.Built) (title : Option Value) :
    (∃ j, s.document objection title = .ok j) ↔
      (∀ t ∈ title, t.string?.isSome = true) ∧ s.everywhere isExpressible = true := by
  rw [← exists_keywords_iff]
  constructor
  · rintro ⟨j, hj⟩
    obtain ⟨ks, hk, rfl, hn⟩ := document_eq_ok_iff.1 hj
    refine ⟨?_, ks, hk⟩
    rintro t rfl
    by_contra ht
    exact ho.title (by simpa using ht) hn
  · rintro ⟨ht, ks, hk⟩
    have hp := proper_of_exportsTo (isWellFormed_of_built hs) ⟨_, ks, hk, rfl⟩
    have hj := JsonSchema.proper_head_append ht hp (name_of_keywords hk)
    exact ⟨_, document_eq_ok_iff.2 ⟨ks, hk, rfl, ho.proper hj⟩⟩

theorem document_of_find? {s t : Schema} {title : Option Value} {path : Path}
    (h : (s.nodes []).find? (fun n => !n.2.isExpressible) = some (path, t)) :
    s.document objection title = .error (t.refusal path) := by
  have hk : s.keywords "" = .error (t.refusal path) := by
    refine Export.eq_error_of_error? ((error?_keywords s []).trans ?_)
    rw [obstacle?, h, Option.map_some]
  rw [document, hk]
  rfl

/-- A schema that calls have made is exported exactly if a title is a string and every schema in it can be
expressed. If not, the first schema that cannot be is blamed under its own path. A document keeps the rules of the
draft, and it begins with the dialect and the title. -/
theorem document_spec (ho : objection.KnowsDraft) {s : Schema} (hs : s.Built) (title : Option Value) :
    ((∃ j, (Part.schema s).document objection title = .ok j) ↔
      (∀ t ∈ title, t.isNull = true ∨ t.string?.isSome = true) ∧ s.everywhere isExpressible = true) ∧
    (∀ path t, (s.nodes []).find? (fun n => !n.2.isExpressible) = some (path, t) →
      ∃ e, (Part.schema s).document objection title = .error e ∧ e.message = t.refusalText path) ∧
    ∀ j, (Part.schema s).document objection title = .ok j → j.Proper ∧ j.at? "$schema" = some (.str draft) ∧
      j.at? "title" = title.filter fun t => !t.isNull := by
  rw [Part.document]
  have hi := exists_document_iff ho hs (title.filter fun t => !t.isNull)
  refine ⟨?_, fun path t h => ?_, fun j h => ?_⟩
  · rw [hi]
    refine and_congr_left' ?_
    cases title with
    | none => simp
    | some t => cases hn : t.isNull <;> simp [hn]
  · exact ⟨_, document_of_find? h, message_refusal t path⟩
  · obtain ⟨ht, -⟩ := hi.1 ⟨j, h⟩
    obtain ⟨ks, hk, rfl, -⟩ := document_eq_ok_iff.1 h
    have hn := name_of_keywords hk
    have hp := proper_of_exportsTo (isWellFormed_of_built hs) ⟨_, ks, hk, rfl⟩
    exact ⟨JsonSchema.proper_head_append ht hp hn, JsonSchema.at?_dialect _ ks, JsonSchema.at?_title _ hn⟩

theorem document_spec_function :
    let own : Leaf := ⟨"EvenSchema", fun v => v.isInteger, fun v => "Expected a number, got: " ++ v.label⟩
    let s : Schema := .object [(.text "a", .table (some (.leaf .string)) (some (.literal (.str "x")))),
      (.text "b/c", .tuple [.leaf .integer, .optional (.array (.leaf .function))]), (.text "d", .custom own)]
    s.Built ∧ ∃ e, (Part.schema s).document JsonSchema.titleObjection none = .error e ∧
      e.message = "Cannot express 'function' in JSON Schema (at '/b~1c/1/*')" := by
  intro own s
  have hs : s.Built := by
    refine .made (e := .object [
      (.str "a", .table (some (.primitive (.str "str"))) (some (.literal (.str "x")))),
      (.str "b/c", .tuple [.primitive (.str " Integer"), .optional (.array (.primitive (.str "callable")))]),
      (.str "d", .part (.schema (.custom own)))]) ?_ rfl
    simpa [Construction.given, Construction.givenFields, Construction.givenOption, Construction.givenList]
      using .custom own
  obtain ⟨e, he, hm⟩ := (document_spec JsonSchema.knowsDraft_titleObjection hs none).2.1 _ _ rfl
  exact ⟨hs, e, he, hm.trans (by decide)⟩

end Schema

end Conform
