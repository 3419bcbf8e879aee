import Conform.Proofs.Json.Scanning
import Conform.Proofs.Json.Words
import Conform.Proofs.Yaml.Flaws.Tokens
import Mathlib.Logic.Relation

/-! The tokens of JSON texts. Between brackets no block is ever open, and no token must become a key, so a round
of the tokenizer passes over white space, takes a token, and goes on. The name of a member has become a key when
the colon behind it is taken, which is why that colon must not be far from it. -/

namespace Conform

open Yaml

namespace Json

/-! The characters of words and strings. -/

theorem isBare_of_isNumeric {c : Char} (h : isNumeric c = true) : isBare c = true := of_isNumeric (by decide) h

namespace Word

variable (w : Word)

theorem isBare_of_mem {c : Char} (h : c ∈ w.text) : isBare c = true := by
  have of_all {cs : List Char} (hcs : cs.all isBare = true) (hc : c ∈ cs) : isBare c = true :=
    List.all_eq_true.1 hcs c hc
  cases w with
  | null => exact of_all (by decide) h
  | truth b => cases b <;> exact of_all (by decide) h
  | number n => exact isBare_of_isNumeric (n.isNumeric_of_mem h)

/-- A word begins with a letter or a digit, or with a minus sign in front of a digit. -/
theorem exists_text : ∃ x xs, w.text = x :: xs ∧ isBare x = true ∧ x ≠ '.' ∧
    (x = '-' → ∃ y ys, xs = y :: ys ∧ y ≠ '-' ∧ isBare y = true) := by
  cases w with
  | null => exact ⟨'n', "ull".toList, rfl, by decide, by decide, fun h => absurd h (by decide)⟩
  | truth b =>
    cases b with
    | true => exact ⟨'t', "rue".toList, rfl, by decide, by decide, fun h => absurd h (by decide)⟩
    | false => exact ⟨'f', "alse".toList, rfl, by decide, by decide, fun h => absurd h (by decide)⟩
  | number n =>
    obtain ⟨d, ds, hb⟩ := n.exists_body
    have hd := isBare_of_isNumeric d.isNumeric_char
    rw [text, Numeral.text, hb]
    cases n.negative with
    | true => exact ⟨'-', _, rfl, by decide, by decide, fun _ => ⟨_, _, rfl, d.char_ne_sign.2, hd⟩⟩
    | false =>
      exact ⟨d.char, _, rfl, hd, ne_of_holds d.isDigit_char (by decide), fun he => absurd he d.char_ne_sign.2⟩

end Word

theorem isAllowed_of_mem_quoted {ss : Symbols} (hs : ss.isRegular = true) {c : Char} (h : c ∈ ss.quoted) :
    isAllowed c = true ∧ isBreak c = false := by
  have hq : isAllowed '\x22' = true ∧ isBreak '\x22' = false := by decide
  have hhex (d : HexDigit) : isAllowed d.char = true ∧ isBreak d.char = false := by
    obtain ⟨v, b⟩ := d
    revert v b
    decide
  rcases List.mem_cons.1 h with rfl | h
  · exact hq
  rcases List.mem_append.1 h with h | h
  · obtain ⟨s, hmem, hc⟩ := List.mem_flatMap.1 h
    have hs := List.all_eq_true.1 hs s hmem
    cases s with
    | plain x hu =>
      rw [List.mem_singleton.1 hc]
      simpa [Symbol.isRegular] using hs
    | short e =>
      rcases List.mem_cons.1 hc with rfl | hc
      · decide
      · rw [List.mem_singleton.1 hc]
        cases e <;> decide
    | code a b d e he =>
      simp only [Symbol.text, List.mem_cons, List.not_mem_nil, or_false] at hc
      rcases hc with rfl | rfl | rfl | rfl | rfl | rfl
      · decide
      · decide
      · exact hhex a
      · exact hhex b
      · exact hhex d
      · exact hhex e
  · rw [List.mem_singleton.1 h]
    exact hq

end Json

namespace Yaml.Tokenizer

variable {t u : Tokenizer} {ls : List Lexeme} {l : Lexeme} {k : Nat} {cs r : List Char} {x : Char}

/-- Where a tokenizer is in a text of brackets: the tokens so far, how many brackets are open, and what is left
of the text. -/
structure Reads (t : Tokenizer) (ls : List Lexeme) (k : Nat) (r : List Char) : Prop where
  rest : t.cursor.rest = r
  lexemes : t.tokens.map Token.lexeme = ls.reverse
  count : t.count = ls.length
  flow : t.flow = k
  indent : t.indent = -1
  indents : t.indents = []
  keys : ∀ e ∈ t.keys, e.2.required = false
  goes : t.isDone = false

/-- One round of the tokenizer. -/
def next (t : Tokenizer) : Scan Tokenizer := t.dropStale >>= advance

theorem run_of_next {n : Nat} (hd : t.isDone = false) (h : t.next = .ok u) : run (n + 1) t = run n u := by
  obtain ⟨v, hv, hu⟩ := bind_eq_ok.1 h
  rw [run_succ, hd, hv]
  simp only [hu, Bool.false_eq_true, if_false]

/-- One round that takes some of the text. -/
structure Turns (t u : Tokenizer) : Prop where
  goes : t.isDone = false
  next : t.next = .ok u
  less : u.cursor.rest.length < t.cursor.rest.length

abbrev Reaches : Tokenizer → Tokenizer → Prop := Relation.ReflTransGen Turns

/-- Rounds that each take some of the text are not more than its characters. -/
theorem exists_run_of_reaches (h : Reaches t u) {n : Nat} (hn : t.cursor.rest.length ≤ n) :
    ∃ m, u.cursor.rest.length ≤ m ∧ run (n + 2) t = run (m + 2) u := by
  induction h using Relation.ReflTransGen.head_induction_on generalizing n with
  | refl => exact ⟨n, hn, rfl⟩
  | head h _ ih =>
    have := h.less
    obtain ⟨n, rfl⟩ := Nat.exists_eq_succ_of_ne_zero (show n ≠ 0 by omega)
    obtain ⟨m, hm, hr⟩ := ih (show _ ≤ n by omega)
    exact ⟨m, hm, (run_of_next h.goes h.next).trans hr⟩

namespace Reads

/-- Other key starts, as long as none must become a key. -/
theorem withKeys (h : t.Reads ls k r) {ks : List (Int × KeyStart)} (hk : ∀ e ∈ ks, e.2.required = false) :
    ({ t with keys := ks } : Tokenizer).Reads ls k r := { h with keys := hk }

/-- Of the key starts the newest stays if it is not stale. -/
theorem exists_dropStale (h : t.Reads ls k r) : ∃ ks, t.dropStale = .ok { t with keys := ks } ∧
    (∀ e ∈ ks, e.2.required = false) ∧
    ∀ e, t.keys.head? = some e → t.isStale e.2 = false → ks.head? = some e := by
  refine ⟨t.keys.filter fun e => !t.isStale e.2, ?_, fun e he => h.keys e (List.mem_of_mem_filter he),
    fun e he hs => ?_⟩
  · unfold Tokenizer.dropStale
    rw [if_neg]
    intro ha
    obtain ⟨e, he, hs⟩ := List.any_eq_true.1 ha
    rw [h.keys e he, Bool.and_false] at hs
    cases hs
  · obtain ⟨es, hk⟩ := List.head?_eq_some_iff.1 he
    rw [hk, List.filter_cons_of_pos (by simp [hs])]
    rfl

theorem exists_dropKey (h : t.Reads ls k r) : ∃ ks, t.dropKey = .ok { t with keys := ks } ∧
    ∀ e ∈ ks, e.2.required = false := by
  unfold Tokenizer.dropKey
  split
  · next key hkey =>
    obtain ⟨_, _, he, -⟩ := List.lookup_eq_some_iff.1 hkey
    have hreq : key.required = false := h.keys (t.flow, key) (by rw [he]; simp)
    rw [hreq]
    exact ⟨_, rfl, fun e he => h.keys e (List.mem_of_mem_filter he)⟩
  · exact ⟨t.keys, rfl, h.keys⟩

/-- The next token may begin a key if one is allowed. -/
theorem exists_saveKey (h : t.Reads ls k r) : ∃ ks, t.saveKey = .ok { t with keys := ks } ∧
    (∀ e ∈ ks, e.2.required = false) ∧ (t.keyAllowed = true →
      ks.head? = some (t.flow, ⟨ls.length, false, t.cursor.index, t.cursor.mark⟩)) := by
  unfold Tokenizer.saveKey
  split
  · obtain ⟨ks, hd, hk⟩ := h.exists_dropKey
    have hreq : (!t.inFlow && decide (t.indent = (t.cursor.column : Int))) = false := by
      have hi : t.indent ≠ (t.cursor.column : Int) := by
        rw [h.indent]
        omega
      rw [decide_eq_false hi, Bool.and_false]
    rw [hd, hreq]
    refine ⟨_, rfl, List.forall_mem_cons.2 ⟨rfl, hk⟩, fun _ => ?_⟩
    rw [← h.count]
    rfl
  · next ha => exact ⟨t.keys, rfl, h.keys, fun hb => absurd hb ha⟩

theorem unwind (h : t.Reads ls k r) (column : Int) : t.unwind column = t := by
  unfold Tokenizer.unwind
  rw [h.indents]
  exact ite_self t

theorem inFlow (h : t.Reads ls k r) : t.inFlow = decide (k ≠ 0) := by
  rw [Tokenizer.inFlow, h.flow]
  simp

/-- Taking a token: the cursor moves on, brackets open or close, and key starts come and go. -/
theorem push (h : t.Reads ls k r) (hl : l ≠ .streamEnd) {c : Cursor} {f : Int} {b : Bool}
    {ks : List (Int × KeyStart)} {m : Mark} {j : Nat} {q : List Char} (hc : c.rest = q) (hf : f = j)
    (hk : ∀ e ∈ ks, e.2.required = false) :
    (({ t with cursor := c, flow := f, keyAllowed := b, keys := ks } : Tokenizer).push l m).Reads (ls ++ [l]) j
      q where
  rest := hc
  lexemes := by
    rw [List.reverse_append]
    exact congrArg _ h.lexemes
  count := by
    rw [List.length_append]
    exact congrArg (· + 1) h.count
  flow := hf
  indent := h.indent
  indents := h.indents
  keys := hk
  goes := decide_eq_false hl

/-- A token is put in front of the last one. -/
theorem insert (h : t.Reads (ls ++ [l]) k r) (m : Mark) (new : Lexeme) :
    (t.insert ls.length new m).Reads (ls ++ [new, l]) k r := by
  have hl := h.lexemes
  rw [List.reverse_append] at hl
  obtain ⟨tok, toks, ht, rfl, htoks⟩ := List.map_eq_cons_iff.1 hl
  have hc : t.count - ls.length = 1 := by
    rw [h.count, List.length_append, Nat.add_sub_cancel_left]
    rfl
  have hi : (t.insert ls.length new m).tokens = tok :: ⟨new, m, m⟩ :: toks := by
    rw [Tokenizer.insert]
    simp only [hc, ht]
    rfl
  refine { h with rest := h.rest, lexemes := ?_, count := ?_, goes := ?_ }
  · rw [hi, List.map_cons, List.map_cons, List.reverse_append]
    exact congrArg (fun ls => tok.lexeme :: new :: ls) htoks
  · rw [Tokenizer.insert]
    simp only [h.count, List.length_append, List.length_cons, List.length_nil]
  · have hg := h.goes
    rw [isDone, ht] at hg
    rw [isDone, hi]
    exact hg

end Reads

/-! White space in front of a token. -/

open Json

theorem skipGaps_isLayout (n : Nat) : ∀ {cs r : List Char} {t : Tokenizer}, IsLayout cs → IsLead r →
    t.cursor.rest = cs ++ r → cs.length < n → ∃ b,
      skipGaps n t = { t with cursor := t.cursor.forward cs.length, keyAllowed := b } ∧
      (t.inFlow = true → b = t.keyAllowed) := by
  induction n with
  | zero =>
    intro cs r t _ _ _ hn
    cases hn
  | succ n ih =>
    intro cs r t hcs hr h hn
    obtain ⟨us, d, hs, hc, hd⟩ := exists_span hcs hr h
    have hskip : t.cursor.skipSpaces.skipComment = d := by
      rw [show t.cursor.skipSpaces = d from congrArg Prod.snd hs, Cursor.skipComment, if_neg hc]
    rw [skipGaps, hskip]
    rcases hd with ⟨hp, rfl⟩ | ⟨hp, vs, e, hb, he, hvs, hlen, hf⟩
    · simp only [hp, Bool.false_eq_true, if_false]
      exact ⟨t.keyAllowed, rfl, fun _ => rfl⟩
    · simp only [hp, if_true, hb]
      obtain ⟨b, hg, hk⟩ := ih (t := { t with
        cursor := e
        keyAllowed := if t.inFlow then t.keyAllowed else true }) hvs hr he (by omega)
      exact ⟨b, hg.trans (by rw [hf]), fun hin => (hk hin).trans (if_pos hin)⟩

theorem exists_skipToToken (hcs : IsLayout cs) (hr : IsLead r) (h : t.cursor.rest = cs ++ r) : ∃ b,
    t.skipToToken = { t with cursor := t.cursor.forward cs.length, keyAllowed := b } ∧
    (t.inFlow = true → b = t.keyAllowed) := by
  have hp : t.cursor.peek ≠ '\uFEFF' := by
    cases cs with
    | nil => exact (peek_of_isLead (show IsLead t.cursor.rest by rwa [h])).2.2
    | cons x cs =>
      rw [Cursor.peek_of_rest h]
      rcases hcs x List.mem_cons_self with rfl | rfl | rfl <;> decide
  rw [skipToToken]
  simp only [hp, decide_false, Bool.and_false, Bool.false_eq_true, if_false]
  refine skipGaps_isLayout _ hcs hr h ?_
  rw [h, List.length_append]
  omega

theorem next_of_dropStale (h : t.dropStale = .ok u) : t.next = u.advance := by
  rw [next, h]
  simp only [bind, Except.bind]

theorem advance_of_skipToToken {v : Tokenizer} (hs : t.skipToToken = v) (hd : v.dropStale = .ok u) :
    t.advance = (u.unwind u.cursor.column).takeToken := by
  rw [advance, hs, hd]
  rfl

/-- A round takes the token behind the white space. -/
theorem Reads.exists_next (hcs : IsLayout cs) (hr : IsLead r) (h : t.Reads ls k (cs ++ r)) : ∃ u : Tokenizer,
    t.next = u.takeToken ∧ u.Reads ls k r ∧ u.cursor = t.cursor.forward cs.length ∧
    (k ≠ 0 → u.keyAllowed = t.keyAllowed) ∧
    ∀ e, t.keys.head? = some e → t.isStale e.2 = false → u.isStale e.2 = false → u.keys.head? = some e := by
  obtain ⟨ks, hks, hkr, hkh⟩ := h.exists_dropStale
  have hv := h.withKeys hkr
  obtain ⟨b, hs, hb⟩ := exists_skipToToken hcs hr hv.rest
  have hw : ({ t with
      cursor := t.cursor.forward cs.length
      keys := ks
      keyAllowed := b } : Tokenizer).Reads ls k r := { hv with rest := Cursor.rest_forward_append h.rest }
  obtain ⟨js, hjs, hjr, hjh⟩ := hw.exists_dropStale
  have hu := hw.withKeys hjr
  have hn : t.next = takeToken { t with
      cursor := t.cursor.forward cs.length
      keys := js
      keyAllowed := b } := by
    rw [next_of_dropStale hks, advance_of_skipToToken hs hjs, hu.unwind]
  refine ⟨_, hn, hu, rfl, fun hk => hb ?_, fun e he ht hu => hjh e (hkh e he ht) hu⟩
  rw [hv.inFlow]
  exact decide_eq_true hk

/-! Marks and scalars. -/

theorem atMarker_of_ne {c : Cursor} {y : Char} (h : c.rest = x :: r) (hx : x ≠ y) : c.atMarker y = false := by
  rw [Cursor.atMarker, h]
  simp [hx]

theorem takeToken_opening {l : Lexeme} (hl : x = '[' ∧ l = .sequenceStart ∨ x = '\x7b' ∧ l = .mappingStart)
    (h : t.cursor.rest = x :: r) : t.takeToken = t.takeOpening l := by
  have hm {y : Char} (hy : x ≠ y) : t.cursor.atMarker y = false := atMarker_of_ne h hy
  rcases hl with ⟨rfl, rfl⟩ | ⟨rfl, rfl⟩ <;>
    simp [takeToken, Cursor.peek_of_rest h, finis, hm]

theorem takeToken_closing {l : Lexeme} (hl : x = ']' ∧ l = .sequenceEnd ∨ x = '\x7d' ∧ l = .mappingEnd)
    (h : t.cursor.rest = x :: r) : t.takeToken = t.takeClosing l := by
  have hm {y : Char} (hy : x ≠ y) : t.cursor.atMarker y = false := atMarker_of_ne h hy
  rcases hl with ⟨rfl, rfl⟩ | ⟨rfl, rfl⟩ <;>
    simp [takeToken, Cursor.peek_of_rest h, finis, hm]

theorem takeToken_comma (h : t.cursor.rest = ',' :: r) : t.takeToken = t.takeFlowEntry := by
  have hm {y : Char} (hy : ',' ≠ y) : t.cursor.atMarker y = false := atMarker_of_ne h hy
  simp [takeToken, Cursor.peek_of_rest h, finis, hm]

theorem takeToken_colon (hf : t.inFlow = true) (h : t.cursor.rest = ':' :: r) : t.takeToken = t.takeValue := by
  have hm {y : Char} (hy : ':' ≠ y) : t.cursor.atMarker y = false := atMarker_of_ne h hy
  simp [takeToken, Cursor.peek_of_rest h, finis, hm, hf]

theorem takeToken_quote (h : t.cursor.rest = '\x22' :: r) : t.takeToken = t.takeQuoted true := by
  have hm {y : Char} (hy : '\x22' ≠ y) : t.cursor.atMarker y = false := atMarker_of_ne h hy
  simp [takeToken, Cursor.peek_of_rest h, finis, hm]

theorem takeToken_end (h : t.cursor.rest = []) : t.takeToken = t.takeStreamEnd := by
  rw [takeToken, Cursor.peek, h]
  rfl

theorem takeToken_bare {xs : List Char} (hx : isBare x = true) (hd : x ≠ '.')
    (hm : x = '-' → ∃ y ys, xs = y :: ys ∧ y ≠ '-' ∧ isBare y = true) (h : t.cursor.rest = x :: xs) :
    t.takeToken = t.takePlain := by
  have ne {y : Char} (hy : isBare y = false) : x ≠ y := ne_of_holds hx hy
  have hminus : t.cursor.atMarker '-' = false := by
    by_cases hx : x = '-'
    · obtain ⟨y, ys, rfl, hy, -⟩ := hm hx
      rw [Cursor.atMarker, h]
      simp [hy]
    · exact atMarker_of_ne h hx
  have hgap : x = '-' → isGapOrEnd (t.cursor.peekAt 1) = false := by
    intro hx
    obtain ⟨y, ys, rfl, -, hy⟩ := hm hx
    rw [Cursor.peekAt, h]
    exact isGapOrEnd_of_isBare hy
  have hplain : t.startsPlain = true := by
    rw [startsPlain, Cursor.peek_of_rest h]
    by_cases hx' : x = '-'
    · simp [hx', hgap hx']
    · have hi : isIndicator x = false := by
        simp [isIndicator, isGapOrEnd_of_isBare hx, isFlowMark_of_isBare hx, hx', ne (y := '?') (by decide),
          ne (y := ':') (by decide), ne (y := '#') (by decide), ne (y := '&') (by decide),
          ne (y := '*') (by decide), ne (y := '!') (by decide), ne (y := '|') (by decide),
          ne (y := '>') (by decide), ne (y := '%') (by decide), ne (y := '@') (by decide),
          ne (y := '\x27') (by decide), ne (y := '\x22') (by decide), ne (y := '\x60') (by decide)]
      simp [hi]
  have hnogap : (decide (x = '-') && isGapOrEnd (t.cursor.peekAt 1)) = false := by
    by_cases hx' : x = '-'
    · simp [hgap hx']
    · simp [hx']
  rw [takeToken]
  simp only [Cursor.peek_of_rest h, hminus, atMarker_of_ne h hd, hnogap, hplain, Bool.and_false, Bool.false_eq_true,
    if_false, if_true, ne (y := finis) (by decide), ne (y := '%') (by decide), ne (y := '[') (by decide),
    ne (y := '\x7b') (by decide), ne (y := ']') (by decide), ne (y := '\x7d') (by decide), ne (y := ',') (by decide),
    ne (y := '?') (by decide), ne (y := ':') (by decide), ne (y := '*') (by decide), ne (y := '&') (by decide),
    ne (y := '!') (by decide), ne (y := '|') (by decide), ne (y := '>') (by decide), ne (y := '\x27') (by decide),
    ne (y := '\x22') (by decide), decide_false, Bool.false_and]

theorem takePlain_of_saveKey {b : Bool} {c : Cursor} (hs : t.saveKey = .ok u)
    (hp : plainScalar u.inFlow u.indent u.cursor = (cs, b, c)) : t.takePlain =
      .ok (({ u with cursor := c, keyAllowed := b } : Tokenizer).push (.scalar cs true) u.cursor.mark) := by
  rw [takePlain, hs]
  simp only [bind, Except.bind, hp, pure, Except.pure]

theorem takeQuoted_of_saveKey {double : Bool} {c : Cursor} (hs : t.saveKey = .ok u)
    (hq : quotedScalar double u.cursor = .ok (cs, c)) : t.takeQuoted double =
      .ok (({ u with cursor := c, keyAllowed := false } : Tokenizer).push (.scalar cs false) u.cursor.mark) := by
  rw [takeQuoted, hs]
  simp only [bind, Except.bind, hq, pure, Except.pure]

theorem takeValue_of_lookup {key : KeyStart} (hf : t.inFlow = true) (hk : t.keys.lookup t.flow = some key) :
    t.takeValue = .ok ((({ t with keys := t.keys.filter fun e => e.1 ≠ t.flow } : Tokenizer).insert key.number
      .key key.mark).allowKey false |>.take 1 .value) := by
  have hin : (({ t with keys := t.keys.filter fun e => e.1 ≠ t.flow } : Tokenizer).insert key.number
      .key key.mark).inFlow = true := hf
  rw [takeValue, hk]
  simp only [hin, if_true, pure, Except.pure]

/-! Rounds, by what they take. -/

theorem isLead_cons (h : x ≠ ' ' ∧ isBreak x = false ∧ x ≠ '#' ∧ x ≠ '\uFEFF') : IsLead (x :: r) := by
  intro y hy
  obtain rfl := Option.some.inj hy
  exact h

namespace Reads

theorem turns {ms : List Lexeme} {j : Nat} {q : List Char} (h : t.Reads ls k (cs ++ r)) (hn : t.next = .ok u)
    (hu : u.Reads ms j q) (hq : q.length < r.length) : Turns t u := by
  refine ⟨h.goes, hn, ?_⟩
  rw [hu.rest, h.rest, List.length_append]
  omega

theorem rest_forward_one (h : t.Reads ls k (x :: r)) : (t.cursor.forward 1).rest = r := by
  rw [Cursor.rest_forward, h.rest]
  rfl

theorem opening (hl : x = '[' ∧ l = .sequenceStart ∨ x = '\x7b' ∧ l = .mappingStart) (hcs : IsLayout cs)
    (h : t.Reads ls k (cs ++ x :: r)) : ∃ u, Turns t u ∧ u.Reads (ls ++ [l]) (k + 1) r ∧
      u.keyAllowed = true := by
  have hlead : IsLead (x :: r) := isLead_cons (by rcases hl with ⟨rfl, -⟩ | ⟨rfl, -⟩ <;> decide)
  have hne : l ≠ .streamEnd := by rcases hl with ⟨-, rfl⟩ | ⟨-, rfl⟩ <;> simp
  obtain ⟨v, hn, hv, -, -, -⟩ := h.exists_next hcs hlead
  obtain ⟨ks, hs, hk, -⟩ := hv.exists_saveKey
  have hf : v.flow + 1 = ((k + 1 : Nat) : Int) := by
    rw [hv.flow]
    rfl
  have hu := hv.push (b := true) (m := v.cursor.mark) hne hv.rest_forward_one hf hk
  refine ⟨_, h.turns (hn.trans ?_) hu (Nat.lt_succ_self _), hu, rfl⟩
  rw [takeToken_opening hl hv.rest, takeOpening, hs]
  rfl

theorem closing (hl : x = ']' ∧ l = .sequenceEnd ∨ x = '\x7d' ∧ l = .mappingEnd) (hcs : IsLayout cs)
    (h : t.Reads ls (k + 1) (cs ++ x :: r)) : ∃ u, Turns t u ∧ u.Reads (ls ++ [l]) k r := by
  have hlead : IsLead (x :: r) := isLead_cons (by rcases hl with ⟨rfl, -⟩ | ⟨rfl, -⟩ <;> decide)
  have hne : l ≠ .streamEnd := by rcases hl with ⟨-, rfl⟩ | ⟨-, rfl⟩ <;> simp
  obtain ⟨v, hn, hv, -, -, -⟩ := h.exists_next hcs hlead
  obtain ⟨ks, hs, hk⟩ := hv.exists_dropKey
  have hf : v.flow - 1 = (k : Int) := by
    rw [hv.flow]
    omega
  have hu := hv.push (b := false) (m := v.cursor.mark) hne hv.rest_forward_one hf hk
  refine ⟨_, h.turns (hn.trans ?_) hu (Nat.lt_succ_self _), hu⟩
  rw [takeToken_closing hl hv.rest, takeClosing, hs]
  rfl

theorem comma (hcs : IsLayout cs) (h : t.Reads ls k (cs ++ ',' :: r)) : ∃ u, Turns t u ∧
    u.Reads (ls ++ [.flowEntry]) k r ∧ u.keyAllowed = true := by
  obtain ⟨v, hn, hv, -, -, -⟩ := h.exists_next hcs (isLead_cons (by decide))
  have hw : (v.allowKey true).Reads ls k (',' :: r) := { hv with rest := hv.rest }
  obtain ⟨ks, hs, hk⟩ := hw.exists_dropKey
  have hu := hw.push (l := .flowEntry) (b := true) (m := v.cursor.mark) (by simp) hw.rest_forward_one hv.flow hk
  refine ⟨_, h.turns (hn.trans ?_) hu (Nat.lt_succ_self _), hu, rfl⟩
  rw [takeToken_comma hv.rest, takeFlowEntry, hs]
  rfl

/-- A string may begin a key where one is allowed. -/
theorem string {ss : Symbols} (hs : ss.isRegular = true) (hcs : IsLayout cs)
    (h : t.Reads ls k (cs ++ (ss.quoted ++ r))) : ∃ u, Turns t u ∧ u.Reads (ls ++ [.scalar ss.chars false]) k r ∧
      (k ≠ 0 → t.keyAllowed = true → ∃ c : Cursor, c.rest = ss.quoted ++ r ∧
        u.cursor = c.forward ss.quoted.length ∧
        u.keys.head? = some (u.flow, ⟨ls.length, false, c.index, c.mark⟩)) := by
  obtain ⟨v, hn, hv, -, ha, -⟩ := h.exists_next hcs (isLead_cons (x := '\x22') (by decide))
  obtain ⟨ks, hsave, hk, hkey⟩ := hv.exists_saveKey
  have hq : (v.cursor.forward ss.quoted.length).rest = r := Cursor.rest_forward_append hv.rest
  have hu := hv.push (l := .scalar ss.chars false) (b := false) (m := v.cursor.mark) (by simp) hq hv.flow hk
  refine ⟨_, h.turns (hn.trans ?_) hu ?_, hu, fun hf hka => ⟨v.cursor, hv.rest, rfl, hkey ((ha hf).trans hka)⟩⟩
  · rw [takeToken_quote hv.rest, takeQuoted_of_saveKey hsave (quotedScalar_text hs hv.rest)]
  · rw [List.length_append]
    exact Nat.lt_add_of_pos_left (Nat.succ_pos _)

/-- A word takes the white space behind it along. -/
theorem word {w : Word} {ds : List Char} (hcs : IsLayout cs) (hds : IsLayout ds) (hr : Stops r)
    (hf : k ≠ 0 ∨ r = []) (h : t.Reads ls k (cs ++ (w.text ++ (ds ++ r)))) : ∃ u, Turns t u ∧
      u.Reads (ls ++ [.scalar w.text true]) k r := by
  obtain ⟨x, xs, hw, hx, hdot, hminus⟩ := w.exists_text
  have hbare : ∀ y ∈ w.text, isBare y = true := fun y hy => w.isBare_of_mem hy
  have hlead : IsLead (w.text ++ (ds ++ r)) := by
    have ne {y : Char} (hy : isBare y = false) : x ≠ y := ne_of_holds hx hy
    have hgap := isGapOrEnd_of_isBare hx
    simp only [isGapOrEnd, isSpaceOrEnd, isBreakOrEnd, Bool.or_eq_false_iff] at hgap
    rw [hw]
    exact isLead_cons ⟨ne (by decide), hgap.2.2.2, ne (by decide), ne (by decide)⟩
  obtain ⟨v, hn, hv, -, -, -⟩ := h.exists_next hcs hlead
  obtain ⟨ks, hsave, hk, -⟩ := hv.exists_saveKey
  have hflow : v.inFlow = true ∨ r = [] := hf.imp_left fun hf => by
    rw [hv.inFlow]
    exact decide_eq_true hf
  obtain ⟨fresh, hs⟩ := exists_plainScalar (by rw [hw]; simp) hbare hds hr hflow hv.rest
  have hq : (v.cursor.forward (w.text ++ ds).length).rest = r :=
    Cursor.rest_forward_append (by rw [hv.rest, List.append_assoc])
  have hu := hv.push (l := .scalar w.text true) (b := fresh) (m := v.cursor.mark) (by simp) hq hv.flow hk
  refine ⟨_, h.turns (hn.trans ?_) hu ?_, hu⟩
  · have hrest : v.cursor.rest = x :: (xs ++ (ds ++ r)) := by
      rw [hv.rest, hw]
      rfl
    have hplain : v.takeToken = v.takePlain := by
      refine takeToken_bare hx hdot (fun hx => ?_) hrest
      obtain ⟨y, ys, rfl, hy⟩ := hminus hx
      exact ⟨y, _, rfl, hy⟩
    rw [hplain, takePlain_of_saveKey hsave (hv.indent ▸ hs)]
  · rw [hw, List.cons_append, List.length_cons, List.length_append, List.length_append]
    omega

/-- The colon behind a name makes it a key, if it is on its line and not too far from where it begins. -/
theorem colon {ss : Symbols} {c : Cursor} (hss : ss.isRegular = true) (hcs : ∀ y ∈ cs, y = ' ')
    (hlen : ss.quoted.length + cs.length ≤ 1024) (hc : c.rest = ss.quoted ++ (cs ++ ':' :: r))
    (hat : t.cursor = c.forward ss.quoted.length)
    (hkey : t.keys.head? = some (t.flow, ⟨ls.length, false, c.index, c.mark⟩))
    (h : t.Reads (ls ++ [l]) (k + 1) (cs ++ ':' :: r)) : ∃ u, Turns t u ∧
      u.Reads (ls ++ [.key, l, .value]) (k + 1) r := by
  have hlay : IsLayout cs := fun y hy => .inl (hcs y hy)
  obtain ⟨v, hn, hv, hvc, -, hvk⟩ := h.exists_next hlay (isLead_cons (by decide))
  have notStale (u : Tokenizer) (ds : List Char) (hu : u.cursor = c.forward (ss.quoted ++ ds).length)
      (hds : ∀ y ∈ ds, y = ' ') (hl : ds.length ≤ cs.length) (hr : ∃ q, c.rest = (ss.quoted ++ ds) ++ q) :
      u.isStale ⟨ls.length, false, c.index, c.mark⟩ = false := by
    obtain ⟨q, hq⟩ := hr
    have hb : ∀ y ∈ ss.quoted ++ ds, isBreak y = false := by
      intro y hy
      rcases List.mem_append.1 hy with hy | hy
      · exact (isAllowed_of_mem_quoted hss hy).2
      · rw [hds y hy]
        rfl
    rw [isStale, hu, Cursor.index_forward hq, Cursor.line_forward hq hb, List.length_append]
    simp only [Cursor.mark, ne_eq, not_true, decide_false, Bool.false_or, decide_eq_false_iff_not]
    omega
  have hvk := hvk _ hkey
    (notStale t [] (by rw [hat, List.append_nil]) (by simp) (Nat.zero_le _)
      ⟨cs ++ ':' :: r, by rw [hc, List.append_nil]⟩)
    (notStale v cs (by rw [hvc, hat, ← Cursor.forward_add, List.length_append]) hcs (Nat.le_refl _)
      ⟨_, by rw [hc, List.append_assoc]⟩)
  have hfl : t.flow = v.flow := h.flow.trans hv.flow.symm
  have hlookup : v.keys.lookup v.flow = some ⟨ls.length, false, c.index, c.mark⟩ := by
    obtain ⟨es, he⟩ := List.head?_eq_some_iff.1 hvk
    rw [he, hfl, List.lookup_cons_self]
  have hin : v.inFlow = true := by
    rw [hv.inFlow]
    exact decide_eq_true (Nat.succ_ne_zero k)
  have hkeys : ∀ e ∈ v.keys.filter fun e => e.1 ≠ v.flow, e.2.required = false :=
    fun e he => hv.keys e (List.mem_of_mem_filter he)
  have hw := (hv.withKeys hkeys).insert c.mark .key
  have hu := hw.push (l := .value) (b := false) (m := v.cursor.mark) (by simp) hw.rest_forward_one hw.flow hw.keys
  rw [List.append_assoc] at hu
  refine ⟨_, h.turns (hn.trans ?_) hu (Nat.lt_succ_self _), hu⟩
  rw [takeToken_colon hin hv.rest, takeValue_of_lookup hin hlookup]
  rfl

/-- At the end of the text the last token is taken. -/
theorem ending (hcs : IsLayout cs) (h : t.Reads ls k cs) : ∃ u, t.next = .ok u ∧
    u.tokens.map Token.lexeme = (ls ++ [Lexeme.streamEnd]).reverse ∧ u.isDone = true := by
  have h' : t.Reads ls k (cs ++ []) := by rwa [List.append_nil]
  obtain ⟨v, hn, hv, -, -, -⟩ := h'.exists_next hcs (fun y hy => by cases hy)
  obtain ⟨ks, hs, -⟩ := hv.exists_dropKey
  refine ⟨({ v with keys := [], keyAllowed := false } : Tokenizer).pushHere .streamEnd, hn.trans ?_, ?_, rfl⟩
  · rw [takeToken_end hv.rest, takeStreamEnd, hv.unwind, hs]
    rfl
  · rw [List.reverse_append]
    exact congrArg _ hv.lexemes

end Reads

end Yaml.Tokenizer

/-! Whole texts. -/

namespace Json

open Tokenizer

/-- The tokens in front of an item. -/
def entryMark (first : Bool) : List Lexeme := if first then [] else [.flowEntry]

mutual

/-- The tokens of a value. -/
def lexemes : Json → List Lexeme
  | .word w => [.scalar w.text true]
  | .string ss => [.scalar ss.chars false]
  | .array _ items => .sequenceStart :: (itemLexemes true items ++ [.sequenceEnd])
  | .object _ members => .mappingStart :: (memberLexemes true members ++ [.mappingEnd])
termination_by structural j => j

def itemLexemes (first : Bool) : List (List Blank × Json × List Blank) → List Lexeme
  | [] => []
  | (_, j, _) :: items => entryMark first ++ (j.lexemes ++ itemLexemes false items)
termination_by structural items => items

def memberLexemes (first : Bool) : List (Name × List Blank × Json × List Blank) → List Lexeme
  | [] => []
  | (name, _, j, _) :: members =>
    entryMark first ++ (.key :: .scalar name.symbols.chars false :: .value ::
      (j.lexemes ++ memberLexemes false members))
termination_by structural members => members

end

variable {t : Tokenizer} {ls : List Lexeme} {k : Nat} {cs r : List Char} {first : Bool}

/-- Whether reading a value takes its tokens, and no more than the white space behind it. -/
def IsRead (j : Json) : Prop := ∀ {t : Tokenizer} {ls : List Lexeme} {k : Nat} {cs ds r : List Char},
  IsLayout cs → IsLayout ds → Stops r → k ≠ 0 ∨ r = [] → t.Reads ls k (cs ++ (j.text ++ (ds ++ r))) →
    ∃ u es, Reaches t u ∧ u.Reads (ls ++ j.lexemes) k (es ++ r) ∧ IsLayout es

theorem stops_cons {x : Char} (hx : isFlowMark x = true) : Stops (x :: r) := by
  intro y hy
  obtain rfl := Option.some.inj hy
  exact hx

theorem stops_itemText (items : List Item) : Stops (itemText false items ++ ']' :: r) := by
  cases items with
  | nil => exact stops_cons rfl
  | cons e items => exact stops_cons rfl

theorem stops_memberText (members : List Member) : Stops (memberText false members ++ '\x7d' :: r) := by
  cases members with
  | nil => exact stops_cons rfl
  | cons m members => exact stops_cons rfl

theorem isLayout_append {cs ds : List Char} (hcs : IsLayout cs) (hds : IsLayout ds) : IsLayout (cs ++ ds) :=
  List.forall_mem_append.2 ⟨hcs, hds⟩

theorem exists_reads_separator (hcs : IsLayout cs) (h : t.Reads ls k (cs ++ (separator first ++ r))) :
    ∃ u ds, Reaches t u ∧ u.Reads (ls ++ entryMark first) k (ds ++ r) ∧ IsLayout ds ∧
      ((first = true → t.keyAllowed = true) → u.keyAllowed = true) := by
  cases first with
  | true =>
    refine ⟨t, cs, .refl, ?_, hcs, fun ha => ha rfl⟩
    rw [show ls ++ entryMark true = ls from List.append_nil ls]
    exact h
  | false =>
    obtain ⟨u, hu, hr, ha⟩ := h.comma hcs
    exact ⟨u, [], .single hu, hr, by simp [IsLayout], fun _ => ha⟩

theorem exists_reads_items {items : List Item} (hread : ∀ e ∈ items, e.2.1.IsRead)
    (hreg : ∀ e ∈ items, haveNoTab e.1 = true ∧ haveNoTab e.2.2 = true) :
    ∀ {first : Bool} {t : Tokenizer} {ls : List Lexeme} {cs : List Char}, IsLayout cs →
      t.Reads ls (k + 1) (cs ++ (itemText first items ++ ']' :: r)) →
      ∃ u ds, Reaches t u ∧ u.Reads (ls ++ itemLexemes first items) (k + 1) (ds ++ ']' :: r) ∧ IsLayout ds := by
  induction items with
  | nil =>
    intro first t ls cs hcs h
    refine ⟨t, cs, .refl, ?_, hcs⟩
    rw [itemLexemes, List.append_nil]
    exact h
  | cons e items ih =>
    intro first t ls cs hcs h
    obtain ⟨hread, hreads⟩ := List.forall_mem_cons.1 hread
    obtain ⟨⟨hbefore, hafter⟩, hregs⟩ := List.forall_mem_cons.1 hreg
    rw [show itemText first (e :: items) ++ ']' :: r = separator first ++ (blankText e.1 ++ (e.2.1.text ++
      (blankText e.2.2 ++ (itemText false items ++ ']' :: r)))) by
        simp only [itemText, List.append_assoc]] at h
    obtain ⟨u, ds, hu, hur, hds, -⟩ := exists_reads_separator hcs h
    rw [← List.append_assoc ds] at hur
    obtain ⟨v, es, hv, hvr, hes⟩ := hread (isLayout_append hds (isLayout_blankText hbefore))
      (isLayout_blankText hafter) (stops_itemText items) (.inl (Nat.succ_ne_zero k)) hur
    obtain ⟨w, fs, hw, hwr, hfs⟩ := ih hreads hregs hes hvr
    refine ⟨w, fs, (hu.trans hv).trans hw, ?_, hfs⟩
    rw [itemLexemes, ← List.append_assoc, ← List.append_assoc]
    exact hwr

theorem exists_reads_name {name : Name} (hn : name.isRegular = true) (hcs : IsLayout cs)
    (ha : t.keyAllowed = true) (h : t.Reads ls (k + 1) (cs ++ (name.text ++ ':' :: r))) : ∃ u, Reaches t u ∧
      u.Reads (ls ++ [.key, .scalar name.symbols.chars false, .value]) (k + 1) r := by
  simp only [Name.isRegular, Bool.and_eq_true, List.all_eq_true, decide_eq_true_eq] at hn
  obtain ⟨⟨⟨hbefore, hsymbols⟩, hafter⟩, hlen⟩ := hn
  rw [show cs ++ (name.text ++ ':' :: r) = (cs ++ blankText name.before) ++ (name.symbols.quoted ++
    (blankText name.after ++ ':' :: r)) by simp only [Name.text, List.append_assoc]] at h
  obtain ⟨u, hu, hur, hkey⟩ := h.string hsymbols (isLayout_append hcs (isLayout_blankText hbefore))
  obtain ⟨c, hc, hat, hkey⟩ := hkey (Nat.succ_ne_zero k) ha
  have hspaces : ∀ y ∈ blankText name.after, y = ' ' := by
    intro y hy
    obtain ⟨b, hb, rfl⟩ := List.mem_map.1 hy
    rw [hafter b hb]
    rfl
  have hlen : name.symbols.quoted.length + (blankText name.after).length ≤ 1024 := by
    rw [blankText, List.length_map]
    exact hlen
  obtain ⟨v, hv, hvr⟩ := hur.colon hsymbols hspaces hlen hc hat hkey
  exact ⟨v, (Relation.ReflTransGen.single hu).tail hv, hvr⟩

theorem exists_reads_members {members : List Member} (hread : ∀ m ∈ members, m.2.2.1.IsRead)
    (hreg : ∀ m ∈ members, m.1.isRegular = true ∧ haveNoTab m.2.1 = true ∧ haveNoTab m.2.2.2 = true) :
    ∀ {first : Bool} {t : Tokenizer} {ls : List Lexeme} {cs : List Char}, IsLayout cs →
      (first = true → t.keyAllowed = true) →
      t.Reads ls (k + 1) (cs ++ (memberText first members ++ '\x7d' :: r)) →
      ∃ u ds, Reaches t u ∧ u.Reads (ls ++ memberLexemes first members) (k + 1) (ds ++ '\x7d' :: r) ∧
        IsLayout ds := by
  induction members with
  | nil =>
    intro first t ls cs hcs _ h
    refine ⟨t, cs, .refl, ?_, hcs⟩
    rw [memberLexemes, List.append_nil]
    exact h
  | cons m members ih =>
    intro first t ls cs hcs ha h
    obtain ⟨hread, hreads⟩ := List.forall_mem_cons.1 hread
    obtain ⟨⟨hname, hbefore, hafter⟩, hregs⟩ := List.forall_mem_cons.1 hreg
    rw [show memberText first (m :: members) ++ '\x7d' :: r = separator first ++ (m.1.text ++ ':' ::
      (blankText m.2.1 ++ (m.2.2.1.text ++ (blankText m.2.2.2 ++ (memberText false members ++ '\x7d' :: r))))) by
        simp only [memberText, List.append_assoc, List.cons_append]] at h
    obtain ⟨u, ds, hu, hur, hds, hua⟩ := exists_reads_separator hcs h
    obtain ⟨v, hv, hvr⟩ := exists_reads_name hname hds (hua ha) hur
    obtain ⟨w, es, hw, hwr, hes⟩ := hread (isLayout_blankText hbefore) (isLayout_blankText hafter)
      (stops_memberText members) (.inl (Nat.succ_ne_zero k)) hvr
    obtain ⟨x, fs, hx, hxr, hfs⟩ := ih hreads hregs hes (fun h => by cases h) hwr
    refine ⟨x, fs, ((hu.trans hv).trans hw).trans hx, ?_, hfs⟩
    rw [memberLexemes, ← List.append_assoc]
    simpa only [List.append_assoc, List.cons_append, List.nil_append] using hxr

theorem isRead_of_isRegular {j : Json} : j.isRegular = true → j.IsRead := by
  induction j using Json.induction with
  | word w =>
    intro _ t ls k cs ds r hcs hds hr hf h
    obtain ⟨u, hu, hur⟩ := h.word hcs hds hr hf
    exact ⟨u, [], .single hu, hur, by simp [IsLayout]⟩
  | string ss =>
    intro hreg t ls k cs ds r hcs hds _ _ h
    obtain ⟨u, hu, hur, -⟩ := h.string hreg hcs
    exact ⟨u, ds, .single hu, hur, hds⟩
  | array blanks items ih =>
    intro hreg t ls k cs ds r hcs hds _ _ h
    obtain ⟨hblanks, hitems⟩ := isRegular_array.1 hreg
    rw [show (array blanks items).text ++ (ds ++ r) = '[' :: (blankText blanks ++ (itemText true items ++ ']' ::
      (ds ++ r))) by simp only [text, List.append_assoc, List.cons_append, List.nil_append]] at h
    obtain ⟨u, hu, hur, -⟩ := h.opening (.inl ⟨rfl, rfl⟩) hcs
    obtain ⟨v, es, hv, hvr, hes⟩ := exists_reads_items (fun e he => ih e he (hitems e he).2.2)
      (fun e he => ⟨(hitems e he).1, (hitems e he).2.1⟩) (isLayout_blankText hblanks) hur
    obtain ⟨w, hw, hwr⟩ := hvr.closing (.inl ⟨rfl, rfl⟩) hes
    refine ⟨w, ds, (hv.head hu).tail hw, ?_, hds⟩
    simpa only [lexemes, List.append_assoc, List.cons_append, List.nil_append] using hwr
  | object blanks members ih =>
    intro hreg t ls k cs ds r hcs hds _ _ h
    obtain ⟨hblanks, hmembers⟩ := isRegular_object.1 hreg
    rw [show (object blanks members).text ++ (ds ++ r) = '\x7b' :: (blankText blanks ++ (memberText true members ++
      '\x7d' :: (ds ++ r))) by simp only [text, List.append_assoc, List.cons_append, List.nil_append]] at h
    obtain ⟨u, hu, hur, hua⟩ := h.opening (.inr ⟨rfl, rfl⟩) hcs
    obtain ⟨v, es, hv, hvr, hes⟩ := exists_reads_members (fun m hm => ih m hm (hmembers m hm).2.2.2)
      (fun m hm => ⟨(hmembers m hm).1, (hmembers m hm).2.1, (hmembers m hm).2.2.1⟩)
      (isLayout_blankText hblanks) (fun _ => hua) hur
    obtain ⟨w, hw, hwr⟩ := hvr.closing (.inr ⟨rfl, rfl⟩) hes
    refine ⟨w, ds, (hv.head hu).tail hw, ?_, hds⟩
    simpa only [lexemes, List.append_assoc, List.cons_append, List.nil_append] using hwr

theorem isAllowed_of_isBare {c : Char} (h : isBare c = true) : isAllowed c = true := by
  have between {a b : Char} (ha : a ≤ c) (hb : c ≤ b) (hab : 0x20 ≤ a.toNat ∧ b.toNat ≤ 0x7E) :
      0x20 ≤ c.toNat ∧ c.toNat ≤ 0x7E :=
    ⟨Nat.le_trans hab.1 ha, Nat.le_trans hb hab.2⟩
  have hn : 0x20 ≤ c.toNat ∧ c.toNat ≤ 0x7E := by
    simp only [isBare, isWord, Bool.or_eq_true, Bool.and_eq_true, decide_eq_true_eq] at h
    rcases h with (((((⟨hl, hu⟩ | ⟨hl, hu⟩) | ⟨hl, hu⟩) | rfl) | rfl) | rfl) | rfl
    · exact between hl hu (by decide)
    · exact between hl hu (by decide)
    · exact between hl hu (by decide)
    all_goals decide
  simp [isAllowed, hn]

theorem all_isAllowed_blankText (bs : List Blank) : (blankText bs).all isAllowed = true := by
  rw [List.all_eq_true]
  intro c hc
  obtain ⟨b, -, rfl⟩ := List.mem_map.1 hc
  cases b <;> decide

theorem all_isAllowed_separator : (separator first).all isAllowed = true := by cases first <;> decide

theorem all_isAllowed_itemText {items : List Item} (h : ∀ e ∈ items, e.2.1.text.all isAllowed = true) :
    ∀ {first : Bool}, (itemText first items).all isAllowed = true := by
  induction items with
  | nil => exact rfl
  | cons e items ih =>
    obtain ⟨he, hes⟩ := List.forall_mem_cons.1 h
    intro first
    simp only [itemText, List.all_append, all_isAllowed_separator, all_isAllowed_blankText, he, ih hes, Bool.and_true]

theorem all_isAllowed_memberText {members : List Member} (hn : ∀ m ∈ members, m.1.isRegular = true)
    (h : ∀ m ∈ members, m.2.2.1.text.all isAllowed = true) :
    ∀ {first : Bool}, (memberText first members).all isAllowed = true := by
  induction members with
  | nil => exact rfl
  | cons m members ih =>
    obtain ⟨hm, hms⟩ := List.forall_mem_cons.1 h
    obtain ⟨hname, hnames⟩ := List.forall_mem_cons.1 hn
    simp only [Name.isRegular, Bool.and_eq_true] at hname
    have hquoted : m.1.symbols.quoted.all isAllowed = true :=
      List.all_eq_true.2 fun c hc => (isAllowed_of_mem_quoted hname.1.1.2 hc).1
    have hcolon : isAllowed ':' = true := by decide
    intro first
    simp only [memberText, Name.text, List.all_append, List.all_cons, all_isAllowed_separator,
      all_isAllowed_blankText, hquoted, hcolon, hm, ih hnames hms, Bool.and_true]

/-- A document may hold the text of a value. -/
theorem all_isAllowed_text {j : Json} : j.isRegular = true → j.text.all isAllowed = true := by
  induction j using Json.induction with
  | word w => exact fun _ => List.all_eq_true.2 fun c hc => isAllowed_of_isBare (w.isBare_of_mem hc)
  | string ss => exact fun h => List.all_eq_true.2 fun c hc => (isAllowed_of_mem_quoted h hc).1
  | array blanks items ih =>
    intro hreg
    obtain ⟨-, hitems⟩ := isRegular_array.1 hreg
    simp only [text, List.all_cons, List.all_append, all_isAllowed_blankText,
      all_isAllowed_itemText fun e he => ih e he (hitems e he).2.2]
    decide
  | object blanks members ih =>
    intro hreg
    obtain ⟨-, hmembers⟩ := isRegular_object.1 hreg
    simp only [text, List.all_cons, List.all_append, all_isAllowed_blankText,
      all_isAllowed_memberText (fun m hm => (hmembers m hm).1) fun m hm => ih m hm (hmembers m hm).2.2.2]
    decide

end Json

open Json Tokenizer in
/-- The tokens of a regular text are those of its value. -/
theorem JsonText.exists_tokens {t : JsonText} (h : t.isRegular = true) : ∃ ts, Yaml.tokens t.text = (ts, none) ∧
    ts.map Token.lexeme = t.root.lexemes ++ [.streamEnd] := by
  simp only [isRegular, Bool.and_eq_true] at h
  obtain ⟨⟨⟨hbefore, hroot⟩, hafter⟩, -⟩ := h
  have hall : t.text.all isAllowed = true := by
    rw [text, List.all_append, List.all_append, all_isAllowed_blankText, all_isAllowed_blankText,
      all_isAllowed_text hroot]
    rfl
  have hreads : (Tokenizer.ofText t.text).Reads [] 0 (blankText t.before ++ (t.root.text ++
      (blankText t.after ++ []))) := by
    refine ⟨?_, rfl, rfl, rfl, rfl, rfl, fun e he => (by cases he), rfl⟩
    rw [List.append_nil, ← List.append_assoc]
    rfl
  obtain ⟨u, ds, hu, hur, hds⟩ := isRead_of_isRegular hroot (isLayout_blankText hbefore)
    (isLayout_blankText hafter) (fun x hx => by cases hx) (.inr rfl) hreads
  rw [List.append_nil] at hur
  obtain ⟨v, hv, hvl, hvd⟩ := hur.ending hds
  obtain ⟨m, -, hrun⟩ := exists_run_of_reaches hu (Nat.le_refl t.text.length)
  refine ⟨v.tokens.reverse, ?_, ?_⟩
  · rw [Yaml.tokens, if_pos hall, hrun, run_of_next hur.goes hv, run_succ, if_pos hvd]
  · rw [List.map_reverse, hvl, List.reverse_reverse]
    rfl

end Conform
