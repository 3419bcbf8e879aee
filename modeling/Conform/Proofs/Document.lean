import Conform.Document
import Conform.Proofs.Yaml.Flaws.Composition
import Conform.Proofs.Yaml.Misfits
import Conform.Proofs.Yaml.Pointers

/-! Faults of documents stand where their values are written. The path of a fault leads along the data as far
as the data goes, and there along the nodes; its pointer is looked up among the pointers of the nodes, up to
the last of them that is on the path. The pointers of a document are those of the paths of its data, if its
keys are written as their values are and no pair that is lost to a later one leaves pointers behind.

A text that has no document is refused as one, unless an escape in it is beyond all characters, a scalar in it
does not fit its tag, or a collection in it holds itself. -/

namespace Conform

@[simp] theorem Fault.path_locate (l : Option Location) (f : Fault) : (f.locate l).path = f.path := by
  cases f
  rfl

@[simp] theorem Fault.location_locate (l : Option Location) (f : Fault) : (f.locate l).location = l := by
  cases f
  rfl

open Yaml

theorem Yaml.constructs_of_dataOf {n : Node} {v : Value} (h : dataOf (some n) = .ok v) :
    n.Constructs v := by
  rw [dataOf, bind_eq_ok] at h
  obtain ⟨⟨u, p⟩, -, h⟩ := h
  dsimp only at h
  split at h
  · cases h
  · exact ⟨p.texts, n.number + 1, h⟩

namespace Document

theorem parse_eq_ok {text : String} {file : Option String} {root : Node} {d : Document}
    (hr : compose text.toList = .ok (some root)) (hd : parse text file = .ok d) :
    root.Constructs d.data ∧ d.places = root.sourceMap := by
  rw [parse, bind_eq_ok] at hd
  obtain ⟨root', hr', hd⟩ := hd
  obtain rfl := Except.ok.inj (hr.symm.trans (ok_of_mapError hr'))
  obtain ⟨data, hdata, hd⟩ := bind_eq_ok.1 hd
  obtain rfl := pure_eq_ok.1 hd
  exact ⟨constructs_of_dataOf (ok_of_mapError hdata), rfl⟩

theorem validate_eq_rejected {d : Document} {file : Option String} {s : Schema} {c : Settings} {f : Fault}
    (h : d.validate file s c = .rejected f) :
    ∃ f', s.check c 0 d.data = .rejected f' ∧ f.path = f'.path ∧
      f.location = some (d.place file f') := by
  unfold validate at h
  split at h
  · next f' hf =>
    split at h
    · obtain rfl := Outcome.rejected.inj h
      exact ⟨f', hf, by simp, by simp⟩
    · cases h
  · next hn => exact absurd h (hn f)

/-- A fault of a plain document stands at the node that gives the last value on the path of the fault. -/
theorem location_of_rejected {text : String} {file : Option String} {root : Node} {d : Document}
    {s : Schema} {c : Settings} {f : Fault} (hr : compose text.toList = .ok (some root))
    (hp : root.isPlain = true) (hs : s.hasTextNames = true) (hd : parse text file = .ok d)
    (hf : d.validate file s c = .rejected f) :
    ∃ l, f.location = some l ∧ l.pointer = some f.path.pointer ∧
      ∃ (p : Path) (x : Value) (m : Node), p <+: f.path ∧ d.data.follow p = some x ∧
        (∀ q : Path, q <+: f.path → (d.data.follow q).isSome = true → q.length ≤ p.length) ∧
        root.follow p = some m ∧ m.Constructs x ∧
        l.line = some ↑(m.site.mark.line + 1) ∧ l.column = some ↑(m.site.mark.column + 1) := by
  obtain ⟨hc, hm⟩ := parse_eq_ok hr hd
  obtain ⟨f', hf', hpath, hl⟩ := validate_eq_rejected hf
  have hleads := Schema.leads_of_rejected hs (Node.hasStringKeys_of_constructs hp hc) hf'
  have rel_follow {q : Path} (hq : q <+: f'.path) :
      Option.Rel Node.Constructs (root.follow q) (d.data.follow q) :=
    (hc.leads hp (hleads.of_prefix hq)).2
  obtain ⟨p, m, hpre, hfollow, hsearch, hmax⟩ := Node.search_pointer hp (hc.leads hp hleads).1
  have hplace : d.place file f' =
      ⟨file, some f'.path.pointer, m.site.spot.line, m.site.spot.column⟩ := by
    rw [place, hm]
    simp only [SourceMap.locate?_of_found hsearch, Option.getD_some]
  rw [hpath, hl, hplace]
  refine ⟨_, rfl, rfl, p, ?_⟩
  have hx := rel_follow hpre
  rw [hfollow] at hx
  cases hv : d.data.follow p with
  | none => simp [hv] at hx
  | some x =>
    rw [hv, Option.rel_some_some] at hx
    refine ⟨x, m, hpre, rfl, fun q hq hsome => hmax q hq ?_, hfollow, hx, rfl, rfl⟩
    have hq := rel_follow hq
    cases hn : root.follow q with
    | none =>
      obtain ⟨y, hy⟩ := Option.isSome_iff_exists.1 hsome
      simp [hn, hy] at hq
    | some _ => rfl

theorem location_of_missing_field :
    let text := "a/b:\n- x: 1\n"
    let s : Schema := .object [(.text "a/b", .array (.object [(.text "y", .leaf .string)]))]
    ∃ root d f, compose text.toList = .ok (some root) ∧ root.isPlain = true ∧
      parse text none = .ok d ∧ d.validate none s {} = .rejected f ∧
      f.location = some ⟨none, some "/a~1b/0/y", some 2, some 3⟩ ∧
      ∃ (p : Path) (m : Node), p <+: f.path ∧ root.follow p = some m ∧
        m.site.mark.line = 1 ∧ m.site.mark.column = 2 := by
  intro text s
  have hplain : (compose text.toList).toOption.join.any Node.isPlain = true := by decide +kernel
  have hplace : ((parse text none).toOption.any fun d => (d.validate none s {}).fault?.any fun f =>
      f.location = some ⟨none, some "/a~1b/0/y", some 2, some 3⟩) = true := by decide +kernel
  obtain ⟨root, hr, hp⟩ := (Option.any_eq_true _ _).1 hplain
  obtain ⟨d, hd, hf⟩ := (Option.any_eq_true _ _).1 hplace
  obtain ⟨f, hf, hl⟩ := (Option.any_eq_true _ _).1 hf
  have hr := ok_of_toOption (Option.join_eq_some_iff.1 hr)
  have hd := ok_of_toOption hd
  have hf := Outcome.fault?_eq_some_iff.1 hf
  have hl := of_decide_eq_true hl
  obtain ⟨l, hl', -, p, x, m, hpre, -, -, hm, -, hline, hcolumn⟩ :=
    location_of_rejected hr hp (by decide) hd hf
  obtain rfl := Option.some.inj (hl.symm.trans hl')
  rw [Option.some.injEq] at hline hcolumn
  exact ⟨root, d, f, hr, hp, hd, hf, hl, p, m, hpre, hm, by omega, by omega⟩

/-- A document has a place for every path of its data, and for no other pointer. -/
theorem pointers_of_parse {text : String} {file : Option String} {root : Option Node} {d : Document}
    (hr : compose text.toList = .ok root) (ho : root.all (Node.everywhere Node.isOrdinary) = true)
    (hv : root.all (Node.everywhere Node.hasVerbatimKeys) = true) (hd : parse text file = .ok d) :
    (root = none → d.places = []) ∧
      (root ≠ none → ∀ p, d.data.HasPath p → p.pointer ∈ d.places.map (·.1)) ∧
      (root ≠ none → root.all (Node.everywhere Node.hasNoRemains) = true →
        ∀ q, q ∈ d.places.map (·.1) ↔ ∃ p, d.data.HasPath p ∧ p.pointer = q) := by
  cases root with
  | none =>
    refine ⟨fun _ => ?_, fun h => absurd rfl h, fun h => absurd rfl h⟩
    rw [parse, bind_eq_ok] at hd
    obtain ⟨root', hr', hd⟩ := hd
    obtain rfl := Except.ok.inj (hr.symm.trans (ok_of_mapError hr'))
    obtain ⟨data, -, hd⟩ := bind_eq_ok.1 hd
    obtain rfl := pure_eq_ok.1 hd
    rfl
  | some n =>
    obtain ⟨hc, hm⟩ := parse_eq_ok hr hd
    have held {p : Path} (hp : d.data.HasPath p) : p.pointer ∈ d.places.map (·.1) := by
      rw [hm, Node.mem_sourceMap_iff]
      exact Node.exists_mem_places_of_hasPath ho hv hc hp
    refine ⟨by simp, fun _ p hp => held hp, fun _ hn q => ⟨fun hq => ?_, ?_⟩⟩
    · rw [hm, Node.mem_sourceMap_iff] at hq
      obtain ⟨s, hs⟩ := hq
      obtain ⟨p, hp, rfl⟩ := Node.exists_hasPath_of_mem_places ho hv hn hc hs
      exact ⟨p, hp, rfl⟩
    · rintro ⟨p, hp, rfl⟩
      exact held hp

theorem pointers_of_repeated_key :
    let text := "True: [a]\n2: b\n2: \x7bc: d\x7d\n"
    ∃ root d, compose text.toList = .ok (some root) ∧ root.everywhere Node.isOrdinary = true ∧
      root.everywhere Node.hasVerbatimKeys = true ∧ root.everywhere Node.hasNoRemains = true ∧
      parse text none = .ok d ∧
      (∀ q, q ∈ d.places.map (·.1) ↔ ∃ p, d.data.HasPath p ∧ p.pointer = q) ∧
      d.places.map (·.1) = ["", "/True", "/True/0", "/2", "/2/c"] := by
  intro text
  have hroot : ((compose text.toList).toOption.join.any fun n => n.everywhere Node.isOrdinary &&
      (n.everywhere Node.hasVerbatimKeys && n.everywhere Node.hasNoRemains)) = true := by
    decide +kernel
  have hplaces : ((parse text none).toOption.any fun d => d.places.map (·.1) =
      ["", "/True", "/True/0", "/2", "/2/c"]) = true := by
    decide +kernel
  obtain ⟨root, hr, hn⟩ := (Option.any_eq_true _ _).1 hroot
  obtain ⟨d, hd, hp⟩ := (Option.any_eq_true _ _).1 hplaces
  have hr := ok_of_toOption (Option.join_eq_some_iff.1 hr)
  have hd := ok_of_toOption hd
  rw [Bool.and_eq_true, Bool.and_eq_true] at hn
  obtain ⟨ho, hv, hrem⟩ := hn
  obtain ⟨-, -, h⟩ := pointers_of_parse hr ho hv hd
  exact ⟨root, d, hr, ho, hv, hrem, hd, h (by simp) hrem, of_decide_eq_true hp⟩

/-- A key that is not written as its value is has no place at the pointer of its path, and what an earlier
pair with the same key held has places beside all paths. -/
theorem pointers_beside_paths :
    (∃ d p, parse "yes: 1\n" none = .ok d ∧ d.data.HasPath p ∧ p.pointer = "/True" ∧
      d.places.map (·.1) = ["", "/yes"]) ∧
    ∃ d, parse "a: \x7bb: 1\x7d\na: 2\n" none = .ok d ∧ d.places.map (·.1) = ["", "/a", "/a/b"] ∧
      ∀ p, d.data.HasPath p → p.pointer ≠ "/a/b" := by
  have hyes : ((parse "yes: 1\n" none).toOption.any fun d => d.places.map (·.1) = ["", "/yes"] &&
      d.data.entries?.any fun es => es.any fun e => Path.pointer [e.1] = "/True") = true := by
    decide +kernel
  -- the only entry of the data has a scalar
  have hlost : ((parse "a: \x7bb: 1\x7d\na: 2\n" none).toOption.any fun d =>
      d.places.map (·.1) = ["", "/a", "/a/b"] && d.data.entries?.any fun es => es.all fun e =>
        e.2.elements?.isNone && (e.2.entries?.isNone && Path.pointer [e.1] ≠ "/a/b")) = true := by
    decide +kernel
  constructor
  · obtain ⟨d, hd, h⟩ := (Option.any_eq_true _ _).1 hyes
    rw [Bool.and_eq_true, decide_eq_true_eq] at h
    obtain ⟨es, hes, h'⟩ := (Option.any_eq_true _ _).1 h.2
    obtain ⟨e, he, hpointer⟩ := List.any_eq_true.1 h'
    exact ⟨d, [e.1], ok_of_toOption hd, ⟨e.2, .inl ⟨es, hes, he⟩, trivial⟩,
      of_decide_eq_true hpointer, h.1⟩
  · obtain ⟨d, hd, h⟩ := (Option.any_eq_true _ _).1 hlost
    rw [Bool.and_eq_true, decide_eq_true_eq] at h
    obtain ⟨es, hes, h'⟩ := (Option.any_eq_true _ _).1 h.2
    obtain ⟨form, hform⟩ := Value.exists_eq_map hes
    refine ⟨d, ok_of_toOption hd, h.1, fun p hp => ?_⟩
    rw [hform] at hp
    cases p with
    | nil => decide
    | cons token p =>
      obtain ⟨x, ⟨fs, hfs, hx⟩ | ⟨e, i, he, -⟩, hp⟩ := hp
      · obtain rfl := Option.some.inj hfs
        have hx := List.all_eq_true.1 h' (token, x) hx
        simp only [Bool.and_eq_true, Option.isNone_iff_eq_none, decide_eq_true_eq] at hx
        obtain rfl := Value.eq_nil_of_hasPath hp hx.1 hx.2.1
        exact hx.2.2
      · cases he

section Parse

variable {text : String} (file : Option String)

theorem parse_of_flaw {f : Flaw} (h : compose text.toList = .error f) :
    parse text file = .error (ofFlaw file f) := by
  rw [parse, h]
  rfl

theorem parse_of_root {root : Option Node} (h : compose text.toList = .ok root) :
    parse text file = ((dataOf root).mapError (ofMisfit file)).map fun data => ⟨data, placesOf root⟩ := by
  rw [parse, h]
  rfl

theorem ofMisfit_of_ne_unfit {m : Misfit} (h : m ≠ .unfit) : ofMisfit file m = .misfit m := by
  cases m with
  | unfit => exact absurd rfl h
  | _ => rfl

end Parse

/-- A text has a document or is refused as one that has none, unless an escape in it is beyond all characters,
a scalar in it does not fit its tag, or a collection in it holds itself. -/
theorem parse_cases (text : String) (file : Option String) :
    (∃ d, parse text file = .ok d) ∨
      parse text file = .error (.document (.unparsable file)) ∨
      (∃ code, 0x10FFFF < code ∧ HasEscape text.toList code ∧ parse text file = .error (.character code)) ∨
      (∃ root m, compose text.toList = .ok (some root) ∧ m ≠ .unfit ∧ root.Misses m ∧
        parse text file = .error (.misfit m)) ∨
      ∃ root m, compose text.toList = .ok (some root) ∧ root.IsTied ∧ (m = .endless ∨ m = .circular) ∧
        parse text file = .error (.misfit m) := by
  cases hr : compose text.toList with
  | error f =>
    have hp := parse_of_flaw file hr
    rcases isFlawOf_compose hr with rfl | ⟨code, rfl, hcode, hescape⟩
    · exact .inr (.inl hp)
    · exact .inr (.inr (.inl ⟨code, hcode, hescape, hp⟩))
  | ok root =>
    have hp := parse_of_root file hr
    cases hd : dataOf root with
    | ok data =>
      rw [hd] at hp
      exact .inl ⟨_, hp⟩
    | error m =>
      rw [hd] at hp
      by_cases hu : m = .unfit
      · subst hu
        exact .inr (.inl hp)
      · have hparse := hp.trans (congrArg Except.error (ofMisfit_of_ne_unfit file hu))
        cases root with
        | none => cases hd
        | some n =>
          rcases (accounts_of_dataOf hd).resolve_left hu with hm | ⟨ht, hm⟩
          · exact .inr (.inr (.inr (.inl ⟨n, m, rfl, hu, hm, hparse⟩)))
          · exact .inr (.inr (.inr (.inr ⟨n, m, rfl, ht, hm, hparse⟩)))

theorem parse_misfits :
    parse "!!int foo" none = .error (.misfit (.number (.integer 10 "foo"))) ∧
      parse "d: 2001-99-99\n" none = .error (.misfit (.calendar .month)) ∧
      parse "\"\\U00110000\"" none = .error (.character 0x110000) ∧
      parse "&a [*a]" none = .error (.misfit .endless) := by
  have error_of_map {text : String} {e : ParseError} (h : (parse text none).map (fun _ => ()) = .error e) :
      parse text none = .error e := by
    cases hp : parse text none with
    | ok d =>
      rw [hp] at h
      cases h
    | error e' =>
      rw [hp] at h
      exact congrArg _ (Except.error.inj h)
  exact ⟨error_of_map (by decide +kernel), error_of_map (by decide +kernel), error_of_map (by decide +kernel),
    error_of_map (by decide +kernel)⟩

end Document

end Conform
