import Conform.Document
import Conform.Proofs.Json.Composition
import Conform.Proofs.Yaml.Building

/-! Loading JSON texts as documents. A regular text whose objects have distinct names gives a document with the
value that it has as JSON. Other JSON texts may give something else, or nothing: see the texts at the end. -/

namespace Conform

open Yaml

namespace Json

/-! From the shape of a tree to its data. -/

theorem map_keyText?_of_forall₂ {members : List Member} {ps : List (Node × Node)}
    (h : List.Forall₂ (fun m p => ∃ s, p.1 = .scalar .str m.1.symbols.chars s) members ps) :
    ps.map (·.1.keyText?) = members.map fun m => some m.1.string := by
  refine map_eq_map_iff_forall₂.2 (h.flip.imp fun p m hp => ?_)
  obtain ⟨s, hs⟩ := hp
  rw [hs]
  rfl

/-- Distinct names are distinct keys. -/
theorem haveStringKeys_of_nodup {members : List Member} {ps : List (Node × Node)}
    (h : List.Forall₂ (fun m p => ∃ s, p.1 = .scalar .str m.1.symbols.chars s) members ps)
    (hd : (members.map (·.1.string)).Nodup) : Node.haveStringKeys ps = true := by
  rw [Node.haveStringKeys, Bool.and_eq_true, decide_eq_true_eq, List.all_eq_true, map_keyText?_of_forall₂ h]
  refine ⟨fun p hp => ?_, ?_⟩
  · obtain ⟨m, -, s, hs⟩ := exists_mem_of_forall₂ h.flip hp
    rw [hs]
    rfl
  · have hm : (members.map fun m => some m.1.string) = (members.map (·.1.string)).map some := by
      rw [List.map_map]
      rfl
    rw [hm]
    exact List.Pairwise.map some (fun _ _ hne h => hne (Option.some.inj h)) hd

theorem isSound_of_shapes {j : Json} : ∀ {n : Node}, j.isRegular = true → j.hasDistinctNames = true →
    j.Shapes n → n.IsSound := by
  induction j using Json.induction with
  | word w =>
    intro n hr _ hs
    obtain ⟨_, site⟩ := hs
    exact .scalar (Word.readText_text hr)
  | string ss =>
    intro n _ _ hs
    obtain ⟨_, site⟩ := hs
    have ht : readText ss.chars .str = .ok (.str (String.ofList ss.chars)) := rfl
    exact .scalar ht
  | array blanks items ih =>
    intro n hr hd hs
    obtain _ | _ | ⟨hs, hn⟩ := hs
    refine .sequence (fun m hm => ?_) hn
    obtain ⟨e, he, hs⟩ := exists_mem_of_forall₂ hs.flip hm
    exact ih e he ((isRegular_array.1 hr).2 e he).2.2 (hasDistinctNames_array.1 hd e he) hs
  | object blanks members ih =>
    intro n hr hd hs
    obtain ⟨hd, hds⟩ := hasDistinctNames_object.1 hd
    obtain _ | _ | _ | ⟨hk, hs, hn⟩ := hs
    refine .mapping (haveStringKeys_of_nodup hk hd) (fun p hp => ?_) hn
    obtain ⟨m, hm, hs⟩ := exists_mem_of_forall₂ hs.flip hp
    exact ih m hm ((isRegular_object.1 hr).2 m hm).2.2.2 (hds m hm) hs

theorem eq_value_of_constructs {j : Json} : ∀ {n : Node} {v : Value}, j.isRegular = true →
    j.hasDistinctNames = true → j.Shapes n → n.Constructs v → v = j.value := by
  induction j using Json.induction with
  | word w =>
    intro n v hr _ hs hv
    obtain ⟨_, site⟩ := hs
    have ht := Word.readText_text hr
    have hv := hv.scalar
    rw [(Tag.settled_of_readText ht).2, ht] at hv
    exact (Except.ok.inj hv).symm
  | string ss =>
    intro n v _ _ hs hv
    obtain ⟨_, site⟩ := hs
    exact (Except.ok.inj hv.scalar).symm
  | array blanks items ih =>
    intro n v hr hd hs hv
    obtain _ | _ | ⟨hs, -⟩ := hs
    obtain ⟨xs, rfl, hx⟩ := hv.sequence
    have he : List.Forall₂ (fun x e => x = e.2.1.value) xs items :=
      forall₂_imp_of_mem (forall₂_of_common hx hs.flip) fun x _ e he h => by
        obtain ⟨m, -, hc, hs⟩ := h
        exact ih e he ((isRegular_array.1 hr).2 e he).2.2 (hasDistinctNames_array.1 hd e he) hs hc
    rw [value, itemValues_eq]
    rw [← List.forall₂_map_right_iff, List.forall₂_eq_eq_eq] at he
    rw [he]
  | object blanks members ih =>
    intro n v hr hd hs hv
    obtain ⟨hd, hds⟩ := hasDistinctNames_object.1 hd
    obtain _ | _ | _ | ⟨hk, hs, -⟩ := hs
    obtain ⟨es, rfl, he⟩ := hv.mapping (haveStringKeys_of_nodup hk hd)
    have he : List.Forall₂ (fun e m => e = (.str m.1.string, m.2.2.1.value)) es members :=
      forall₂_imp_of_mem (forall₂_of_common he (forall₂_and hk.flip hs.flip)) fun e _ m hm h => by
        obtain ⟨p, -, ⟨⟨s, hp, hkey⟩, hc⟩, ⟨t, hk⟩, hs⟩ := h
        have hval := ih m hm ((isRegular_object.1 hr).2 m hm).2.2.2 (hds m hm) hs hc
        rw [hk] at hp
        obtain rfl := Option.some.inj hp
        exact Prod.ext hkey hval
    rw [value, memberEntries_eq]
    rw [← List.forall₂_map_right_iff, List.forall₂_eq_eq_eq] at he
    rw [he]

end Json

/-- A regular JSON text with distinct names gives a document with its value. -/
theorem JsonText.parse_text {t : JsonText} (file : Option String) (hr : t.isRegular = true)
    (hd : t.root.hasDistinctNames = true) :
    ∃ d, Document.parse (String.ofList t.text) file = .ok d ∧ d.data = t.root.value := by
  obtain ⟨n, hc, hs⟩ := t.exists_compose hr
  simp only [isRegular, Bool.and_eq_true] at hr
  obtain ⟨v, hv, hcon⟩ := (Json.isSound_of_shapes hr.1.1.2 hd hs).exists_dataOf
  refine ⟨⟨v, n.sourceMap⟩, ?_, Json.eq_value_of_constructs hr.1.1.2 hd hs hcon⟩
  rw [Document.parse, String.toList_ofList, hc]
  change ((dataOf (some n)).mapError _ >>= _) = _
  rw [hv]
  rfl

namespace JsonText

open Json

theorem parse_text_object :
    let t : JsonText := ⟨[.lineFeed], .object [.space]
      [(⟨[], [.plain 'a' rfl, .code ⟨0, false⟩ ⟨0, false⟩ ⟨14, true⟩ ⟨9, false⟩ rfl], [.space]⟩, [.carriageReturn],
        .array [] [([], .word .null, [.space]), ([.lineFeed], .word (.number ⟨true, .digits 0 [], some ⟨5, []⟩,
          some ⟨false, some .plus, ⟨3, []⟩⟩⟩), [])], []),
      (⟨[.lineFeed], [], []⟩, [], .string [.plain ' ' rfl, .short .lineFeed], [])], [.space]⟩
    String.ofList t.text = "\n\x7b \"a\\u00E9\" :\r[null ,\n-1.5e+3],\n\"\":\" \\n\"\x7d " ∧
      t.isRegular = true ∧ t.root.hasDistinctNames = true ∧
      ∃ d, Document.parse (String.ofList t.text) none = .ok d ∧ d.data = t.root.value := by
  intro t
  have hr : t.isRegular = true := by decide
  have hd : t.root.hasDistinctNames = true := by decide
  exact ⟨rfl, hr, hd, parse_text none hr hd⟩

theorem error_of_map {text : String} {e : ParseError}
    (h : (Document.parse text none).map (fun _ => ()) = .error e) : Document.parse text none = .error e := by
  cases hp : Document.parse text none with
  | ok d =>
    rw [hp] at h
    cases h
  | error e' =>
    rw [hp] at h
    exact congrArg _ (Except.error.inj h)

/-- Texts that are not regular may be misread or refused. A number with an exponent alone is a string, and there
is no document with a tab between tokens, with a colon on another line than the name, or with a control character
in a string. -/
theorem parse_irregular :
    (∃ t : JsonText, String.ofList t.text = "1e5" ∧ t.root.hasDistinctNames = true ∧
      ∃ d, Document.parse "1e5" none = .ok d ∧ d.data = .str "1e5" ∧ d.data ≠ t.root.value) ∧
    ∀ text ∈ ["[\t1]", "\x7b\"a\"\n:1\x7d", "\"\x7f\""], ∃ t : JsonText, String.ofList t.text = text ∧
      t.root.hasDistinctNames = true ∧ Document.parse text none = .error (.document (.unparsable none)) := by
  have hdata : ((Document.parse "1e5" none).toOption.any fun d =>
      d.data.type = .str && d.data.string? == some "1e5") = true := by
    decide +kernel
  have refused {text : String} (t : JsonText) (ht : String.ofList t.text = text)
      (hd : t.root.hasDistinctNames = true)
      (hp : (Document.parse text none).map (fun _ => ()) = .error (.document (.unparsable none))) :
      ∃ t : JsonText, String.ofList t.text = text ∧ t.root.hasDistinctNames = true ∧
        Document.parse text none = .error (.document (.unparsable none)) :=
    ⟨t, ht, hd, error_of_map hp⟩
  let one : Json := .word (.number ⟨false, .digits 0 [], none, none⟩)
  constructor
  · obtain ⟨d, hd, hs⟩ := (Option.any_eq_true _ _).1 hdata
    rw [Bool.and_eq_true, decide_eq_true_eq, beq_iff_eq] at hs
    obtain ⟨s, hv⟩ := Value.eq_str_of_type hs.1
    rw [hv] at hs
    obtain rfl := Option.some.inj hs.2
    refine ⟨⟨[], .word (.number ⟨false, .digits 0 [], none, some ⟨false, none, ⟨5, []⟩⟩⟩), []⟩, rfl, rfl, d,
      ok_of_toOption hd, hv, ?_⟩
    rw [hv]
    exact Value.noConfusion
  · simp only [List.forall_mem_cons, List.not_mem_nil, false_implies, implies_true, and_true]
    refine ⟨refused ⟨[], .array [.tab] [([], one, [])], []⟩ rfl rfl ?_,
      refused ⟨[], .object [] [(⟨[], [.plain 'a' rfl], [.lineFeed]⟩, [], one, [])], []⟩ rfl rfl ?_,
      refused ⟨[], .string [.plain '\x7f' rfl], []⟩ rfl rfl ?_⟩
    · decide +kernel
    · decide +kernel
    · decide +kernel

end JsonText

end Conform
