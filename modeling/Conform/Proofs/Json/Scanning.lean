import Conform.Proofs.Json.Text
import Conform.Proofs.Yaml.Flaws.Scanning

/-! How the scalars of JSON texts are scanned in a document: strings in double quotes, and the words between
brackets and commas, which take the white space behind them along. Scanning is moving forward over what is taken,
so where it ends is told by the number of characters. -/

namespace Conform

open Yaml

/-! Moving forward. -/

namespace Yaml.Cursor

variable {c : Cursor} {x : Char} {cs r : List Char}

theorem forward_add (m n : Nat) (c : Cursor) : c.forward (m + n) = (c.forward m).forward n := by
  induction m generalizing c with
  | zero => rw [Nat.zero_add, forward]
  | succ m ih => rw [Nat.succ_add, forward, ih, forward]

theorem rest_forward (n : Nat) (c : Cursor) : (c.forward n).rest = c.rest.drop n := by
  induction n generalizing c with
  | zero => rfl
  | succ n ih => rw [forward, ih, rest_step, List.drop_tail]

theorem rest_forward_append (h : c.rest = cs ++ r) : (c.forward cs.length).rest = r := by
  rw [rest_forward, h, List.drop_left]

theorem index_step (h : c.rest = x :: r) : c.step.index = c.index + 1 := by
  unfold step
  rw [h]
  simp only
  split
  · rfl
  · split <;> rfl

theorem index_forward (h : c.rest = cs ++ r) : (c.forward cs.length).index = c.index + cs.length := by
  induction cs generalizing c with
  | nil => rfl
  | cons x cs ih =>
    have hs : c.step.rest = cs ++ r := by rw [rest_step, h, List.cons_append, List.tail_cons]
    rw [List.length_cons, forward, ih hs, index_step h]
    omega

theorem line_step (h : c.rest = x :: r) (hx : isBreak x = false) : c.step.line = c.line := by
  simp only [isBreak, Bool.or_eq_false_iff, decide_eq_false_iff_not] at hx
  unfold step
  rw [h]
  simp only
  rw [if_neg (by simp [hx])]
  split <;> rfl

theorem line_forward (h : c.rest = cs ++ r) (hcs : ∀ x ∈ cs, isBreak x = false) :
    (c.forward cs.length).line = c.line := by
  induction cs generalizing c with
  | nil => rfl
  | cons x cs ih =>
    have hs : c.step.rest = cs ++ r := by rw [rest_step, h, List.cons_append, List.tail_cons]
    rw [List.length_cons, forward, ih hs fun y hy => hcs y (List.mem_cons_of_mem _ hy),
      line_step h (hcs x List.mem_cons_self)]

theorem peek_of_rest (h : c.rest = x :: r) : c.peek = x := by
  rw [peek, h, List.headD_cons]

theorem span_of_append {p : Char → Bool} (h : c.rest = cs ++ r) (hcs : ∀ x ∈ cs, p x = true)
    (hr : ∀ x ∈ r.head?, p x = false) : c.span p = (cs, c.forward cs.length) := by
  have ht : r.takeWhile p = [] := by
    cases r with
    | nil => rfl
    | cons x r => exact List.takeWhile_cons_of_neg (by simp [hr x rfl])
  simp only [span, h, List.takeWhile_append_of_pos hcs, ht, List.append_nil]

theorem span_of_end {p : Char → Bool} (h : ∀ x ∈ c.rest.head?, p x = false) : c.span p = ([], c) := by
  have hc : c.rest = [] ++ c.rest := rfl
  exact span_of_append hc (by simp) h

theorem span_cons {p : Char → Bool} (h : c.rest = x :: r) (hx : p x = true) :
    c.span p = (x :: (c.step.span p).1, (c.step.span p).2) := by
  have hs : c.step.rest = r := by rw [rest_step, h, List.tail_cons]
  simp only [span, h, List.takeWhile_cons_of_pos hx, hs]
  rfl

end Yaml.Cursor

namespace Json

variable {c : Cursor} {r : List Char}

/-! Strings. -/

/-- Whether a string has a space here, which ends a run of quoted text. -/
def Symbol.isSpace (s : Symbol) : Bool := s.text == [' ']

theorem quotedRun_cons {x : Char} {n : Nat} (h : c.rest = x :: r) (hx : isQuotedEnd x = false) :
    quotedRun true (n + 1) c = (quotedRun true (n + 1) c.step).map fun p => (x :: p.1, p.2) := by
  rw [quotedRun, quotedRun, Cursor.span_cons h (by simp [hx])]
  simp only [Bool.not_true, Bool.false_and, Bool.true_and, Bool.or_false, Bool.false_eq_true, if_false]
  split
  · cases quotedRun true n _ <;> rfl
  · split
    · cases escape _ with
      | error e => rfl
      | ok q => cases hq : quotedRun true n q.2 <;> simp [hq, bind, Except.bind, pure, Except.pure, Except.map]
    · rfl

/-- A run ends where a space or a quote is, or the text. -/
theorem quotedRun_end {n : Nat} (h : ∀ x ∈ c.rest.head?, x = '\x22' ∨ x = ' ') :
    quotedRun true (n + 1) c = .ok ([], c) := by
  have hs : c.span (fun x => !isQuotedEnd x) = ([], c) := by
    refine Cursor.span_of_end fun x hx => ?_
    rcases h x hx with rfl | rfl <;> rfl
  have hp : c.peek ≠ '\x27' ∧ c.peek ≠ '\x5c' := by
    cases hr : c.rest with
    | nil =>
      rw [Cursor.peek, hr]
      decide
    | cons x r =>
      rw [Cursor.peek_of_rest hr]
      rcases h x (by rw [hr]; rfl) with rfl | rfl <;> decide
  rw [quotedRun, hs]
  simp [hp, pure, Except.pure]

theorem quotedRun_apostrophe {n : Nat} (h : c.rest = '\x27' :: r) :
    quotedRun true (n + 1) c = (quotedRun true n c.step).map fun p => ('\x27' :: p.1, p.2) := by
  have hs : c.span (fun x => !isQuotedEnd x) = ([], c) := Cursor.span_of_end (by rw [h]; simp [isQuotedEnd])
  rw [quotedRun, hs]
  simp only [Cursor.peek_of_rest h, Bool.not_true, Bool.false_and, Bool.true_and, decide_true, Bool.true_or,
    Bool.false_eq_true, if_true, if_false]
  cases quotedRun true n c.step <;> rfl

theorem quotedRun_escape {n : Nat} (h : c.rest = '\x5c' :: r) {y : List Char} {d : Cursor}
    (he : escape c.step = .ok (y, d)) :
    quotedRun true (n + 1) c = (quotedRun true n d).map fun p => (y ++ p.1, p.2) := by
  have hs : c.span (fun x => !isQuotedEnd x) = ([], c) := Cursor.span_of_end (by rw [h]; simp [isQuotedEnd])
  rw [quotedRun, hs]
  simp only [Cursor.peek_of_rest h, he]
  cases hq : quotedRun true n d <;> simp [hq, bind, Except.bind, pure, Except.pure, Except.map]

theorem escape_short {e : Short} (h : c.rest = e.letter :: r) : escape c = .ok ([e.char], c.step) := by
  have he : escaped? e.letter = some e.char := by cases e <;> rfl
  rw [escape, Cursor.peek_of_rest h, he]
  rfl

theorem HexDigit.hexDigit?_char (d : HexDigit) : Text.hexDigit? d.char = some d.value.val := by
  obtain ⟨v, b⟩ := d
  revert v b
  decide

theorem hexNumber_map (ds : List HexDigit) : Yaml.hexNumber (ds.map HexDigit.char) = Json.hexNumber ds := by
  rw [Yaml.hexNumber, List.foldl_map, Json.hexNumber]
  simp only [HexDigit.hexDigit?_char, Option.getD_some]

theorem escape_code {ds : List HexDigit} (hl : ds.length = 4) (hs : isSurrogate (Json.hexNumber ds) = false)
    (h : c.rest = 'u' :: (ds.map HexDigit.char ++ r)) :
    escape c = .ok ([Char.ofNat (Json.hexNumber ds)], c.forward 5) := by
  have hd : c.step.rest.take 4 = ds.map HexDigit.char := by
    rw [Cursor.rest_step, h, List.tail_cons]
    exact List.take_left' (by rw [List.length_map, hl])
  have hhex : ∀ d ∈ ds.map HexDigit.char, (Text.hexDigit? d).isSome = true := by
    intro d hd
    obtain ⟨e, -, rfl⟩ := List.mem_map.1 hd
    rw [e.hexDigit?_char]
    rfl
  have hlt := hexNumber_lt hhex
  rw [hexNumber_map, List.length_map, hl] at hlt
  have hc : characterOf (Json.hexNumber ds) = .ok (Char.ofNat (Json.hexNumber ds)) := by
    rw [characterOf, if_neg (by omega), if_neg]
    exact Bool.eq_false_iff.1 hs
  rw [escape, Cursor.peek_of_rest h]
  simp only [escaped?, escapeWidth?, hd, List.length_map, hl, decide_true, Bool.true_and,
    List.all_eq_true.2 hhex, if_true, hexNumber_map, hc]
  rfl

theorem isQuotedEnd_of_plain {x : Char} (hu : isUnescaped x = true) (hb : isBreak x = false) (hs : x ≠ ' ')
    (hq : x ≠ '\x27') : isQuotedEnd x = false := by
  simp only [isUnescaped, Bool.and_eq_true, decide_eq_true_eq] at hu
  have ne_of_lt {y : Char} (hy : y.toNat < 0x20) : x ≠ y := by
    rintro rfl
    omega
  simp [isQuotedEnd, isGapOrEnd, isSpaceOrEnd, isBreakOrEnd, hu, hb, hs, hq, ne_of_lt (y := finis) (by decide),
    ne_of_lt (y := '\t') (by decide)]

theorem text_cons (s : Symbol) (ss : Symbols) : Symbols.text (s :: ss) = s.text ++ ss.text := rfl

theorem chars_cons (s : Symbol) (ss : Symbols) : Symbols.chars (s :: ss) = s.char :: ss.chars := rfl

/-- What stands between quotes up to the next space or the closing quote. -/
theorem quotedRun_text {ss : Symbols} : ∀ {n : Nat} {c : Cursor} {r : List Char},
    (∀ s ∈ ss, s.isRegular = true ∧ s.isSpace = false) → c.rest = ss.text ++ r →
    (∀ x ∈ r.head?, x = '\x22' ∨ x = ' ') → ss.length < n →
    quotedRun true n c = .ok (ss.chars, c.forward ss.text.length) := by
  induction ss with
  | nil =>
    intro n c r _ hc hr hn
    obtain ⟨n, rfl⟩ := Nat.exists_eq_succ_of_ne_zero (Nat.ne_of_gt hn)
    exact quotedRun_end (by rw [hc]; exact hr)
  | cons s ss ih =>
    intro n c r hs hc hr hn
    obtain ⟨n, rfl⟩ := Nat.exists_eq_succ_of_ne_zero (Nat.ne_of_gt (Nat.zero_lt_of_lt hn))
    obtain ⟨⟨hreg, hsp⟩, hs⟩ := List.forall_mem_cons.1 hs
    rw [text_cons, List.append_assoc] at hc
    have hrest := Cursor.rest_forward_append hc
    have ih {m : Nat} (hm : ss.length < m) : quotedRun true m (c.forward s.text.length) =
        .ok (Symbols.chars ss, c.forward (Symbols.text (s :: ss)).length) := by
      rw [text_cons, List.length_append, Cursor.forward_add]
      exact ih hs hrest hr hm
    rw [List.length_cons] at hn
    rw [chars_cons]
    cases s with
    | plain x hu =>
      rw [Symbol.isRegular, Bool.and_eq_true, Bool.not_eq_true'] at hreg
      by_cases hq : x = '\x27'
      · subst hq
        rw [quotedRun_apostrophe hc]
        exact congrArg _ (ih (m := n) (by omega))
      · have hx : x ≠ ' ' := by
          rintro rfl
          cases hsp
        rw [quotedRun_cons hc (isQuotedEnd_of_plain hu hreg.2 hx hq)]
        exact congrArg _ (ih (m := n + 1) (by omega))
    | short e =>
      have hr : c.step.rest = e.letter :: (Symbols.text ss ++ r) := by
        rw [Cursor.rest_step, hc]
        rfl
      rw [quotedRun_escape hc (escape_short hr)]
      exact congrArg _ (ih (m := n) (by omega))
    | code a b d e hcode =>
      have hr : c.step.rest = 'u' :: ([a, b, d, e].map HexDigit.char ++ (Symbols.text ss ++ r)) := by
        rw [Cursor.rest_step, hc]
        rfl
      rw [quotedRun_escape hc (escape_code rfl hcode hr)]
      exact congrArg _ (ih (m := n) (by omega))

theorem text_append (ss ts : Symbols) : Symbols.text (ss ++ ts) = ss.text ++ ts.text := List.flatMap_append

theorem chars_append (ss ts : Symbols) : Symbols.chars (ss ++ ts) = ss.chars ++ ts.chars := List.map_append

theorem length_le_length_text (ss : Symbols) : ss.length ≤ ss.text.length := by
  induction ss with
  | nil => exact Nat.le_refl 0
  | cons s ss ih =>
    have hs : 0 < s.text.length := by cases s <;> exact Nat.succ_pos _
    rw [text_cons, List.length_append, List.length_cons]
    omega

/-- Spaces are written as they are. -/
theorem text_of_isSpace {ss : Symbols} (h : ∀ s ∈ ss, s.isSpace = true) :
    ss.chars = ss.text ∧ ∀ x ∈ ss.text, x = ' ' := by
  induction ss with
  | nil => exact ⟨rfl, by simp [Symbols.text]⟩
  | cons s ss ih =>
    obtain ⟨hs, hss⟩ := List.forall_mem_cons.1 h
    obtain ⟨hc, ht⟩ := ih hss
    have hs : s.text = [' '] ∧ s.char = ' ' := by
      have hs := eq_of_beq hs
      cases s with
      | plain x _ => exact ⟨hs, (List.cons.inj hs).1⟩
      | short e => cases (List.cons.inj hs).2
      | code => cases (List.cons.inj hs).2
    rw [chars_cons, text_cons, hc, hs.1, hs.2]
    exact ⟨rfl, by simpa using ht⟩

/-- What stands behind a gap in quoted text. -/
theorem head_of_not_isSpace {s : Symbol} (hr : s.isRegular = true) (hs : s.isSpace = false) :
    ∃ x xs, s.text = x :: xs ∧ isGapOrEnd x = false := by
  cases s with
  | short e => exact ⟨_, _, rfl, rfl⟩
  | code => exact ⟨_, _, rfl, rfl⟩
  | plain x hu =>
    rw [Symbol.isRegular, Bool.and_eq_true, Bool.not_eq_true'] at hr
    have hx : x ≠ ' ' := by
      rintro rfl
      cases hs
    refine ⟨x, [], rfl, ?_⟩
    by_cases hq : x = '\x27'
    · rw [hq]
      rfl
    · have hend := isQuotedEnd_of_plain hu hr.2 hx hq
      simp only [isQuotedEnd, Bool.or_eq_false_iff] at hend
      exact hend.2

theorem quotedGap_text {cs : List Char} {x : Char} (h : c.rest = cs ++ x :: r) (hcs : ∀ y ∈ cs, y = ' ')
    (hx : isGapOrEnd x = false) : quotedGap c = .ok (cs, c.forward cs.length) := by
  simp only [isGapOrEnd, isSpaceOrEnd, isBreakOrEnd, Bool.or_eq_false_iff, decide_eq_false_iff_not] at hx
  have hs : c.span isSpaceTab = (cs, c.forward cs.length) := by
    refine Cursor.span_of_append h (fun y hy => by rw [hcs y hy]; rfl) fun y hy => ?_
    obtain rfl := Option.some.inj hy
    simp [isSpaceTab, hx]
  rw [quotedGap, hs]
  simp only [Cursor.peek_of_rest (Cursor.rest_forward_append h), hx, if_false, Bool.false_eq_true]
  rfl

/-- The symbols before the first spaces, those spaces, and what is behind them. -/
theorem exists_front_gap (ss : Symbols) : ∃ front gap back : Symbols, ss = front ++ (gap ++ back) ∧
    (∀ s ∈ front, s.isSpace = false) ∧ (∀ s ∈ gap, s.isSpace = true) ∧ (∀ s ∈ back.head?, s.isSpace = false) ∧
    (gap = [] → back = []) := by
  induction ss with
  | nil => exact ⟨[], [], [], by simp⟩
  | cons s ss ih =>
    obtain ⟨front, gap, back, rfl, hf, hg, hb, he⟩ := ih
    cases hs : s.isSpace with
    | false => exact ⟨s :: front, gap, back, rfl, List.forall_mem_cons.2 ⟨hs, hf⟩, hg, hb, he⟩
    | true =>
      cases front with
      | nil => exact ⟨[], s :: gap, back, rfl, by simp, List.forall_mem_cons.2 ⟨hs, hg⟩, hb, by simp⟩
      | cons t front =>
        refine ⟨[], [s], t :: (front ++ (gap ++ back)), rfl, by simp, by simpa using hs, ?_, by simp⟩
        simpa using hf t List.mem_cons_self

theorem quotedRest_succ {n : Nat} {cs : List Char} {d : Cursor}
    (h : quotedRun true (c.rest.length + 1) c = .ok (cs, d)) : quotedRest true (n + 1) c =
      if d.peek = '\x22' then .ok (cs, d.step)
      else quotedGap d >>= fun g => (quotedRest true n g.2).map fun m => (cs ++ g.1 ++ m.1, m.2) := by
  rw [quotedRest, h]
  change (if d.peek = '\x22' then _ else _) = _
  split
  · rfl
  · cases quotedGap d with
    | error e => rfl
    | ok g => cases hg : quotedRest true n g.2 <;> simp [hg, bind, Except.bind, pure, Except.pure, Except.map]

theorem quotedRest_text (n : Nat) : ∀ {ss : Symbols} {c : Cursor} {r : List Char},
    (∀ s ∈ ss, s.isRegular = true) → c.rest = ss.text ++ '\x22' :: r → ss.length < n →
    quotedRest true n c = .ok (ss.chars, c.forward (ss.text.length + 1)) := by
  induction n with
  | zero =>
    intro ss c r _ _ hn
    cases hn
  | succ n ih =>
    intro ss c r hs hc hn
    obtain ⟨front, gap, back, rfl, hf, hg, hb, he⟩ := exists_front_gap ss
    rw [List.forall_mem_append, List.forall_mem_append] at hs
    obtain ⟨hsf, -, hsb⟩ := hs
    obtain ⟨hgc, hgt⟩ := text_of_isSpace hg
    rw [text_append, List.append_assoc, text_append, List.append_assoc] at hc
    have hd := Cursor.rest_forward_append hc
    have hlen : front.length < c.rest.length + 1 := by
      have := length_le_length_text front
      rw [hc, List.length_append]
      omega
    have hrun (hr : ∀ x ∈ (Symbols.text gap ++ (Symbols.text back ++ '\x22' :: r)).head?, x = '\x22' ∨ x = ' ') :
        quotedRun true (c.rest.length + 1) c = .ok (front.chars, c.forward front.text.length) :=
      quotedRun_text (fun s h => ⟨hsf s h, hf s h⟩) hc hr hlen
    -- the run ends at the closing quote if there is no gap, and at the gap otherwise
    cases gap with
    | nil =>
      obtain rfl := he rfl
      rw [quotedRest_succ (hrun (by simp [Symbols.text])), if_pos (Cursor.peek_of_rest hd),
        List.append_nil, List.append_nil, Cursor.forward_add]
      rfl
    | cons s gs =>
      have hx : (Symbols.text (s :: gs)).head? = some ' ' := by
        have := length_le_length_text (s :: gs)
        cases ht : Symbols.text (s :: gs) with
        | nil => simp [ht] at this
        | cons x xs => rw [hgt x (by rw [ht]; exact List.mem_cons_self)]; rfl
      obtain ⟨y, ys, hy, hgy⟩ : ∃ y ys, Symbols.text back ++ '\x22' :: r = y :: ys ∧ isGapOrEnd y = false := by
        cases back with
        | nil => exact ⟨_, _, rfl, rfl⟩
        | cons t ts =>
          obtain ⟨y, ys, hy, hgy⟩ := head_of_not_isSpace (hsb t List.mem_cons_self) (hb t rfl)
          exact ⟨y, _, by rw [text_cons, hy]; rfl, hgy⟩
      have hp : (c.forward front.text.length).peek ≠ '\x22' := by
        obtain ⟨xs, hx⟩ := List.head?_eq_some_iff.1 hx
        rw [hx] at hd
        rw [Cursor.peek_of_rest hd]
        decide
      have hg' : quotedGap (c.forward front.text.length) =
          .ok (Symbols.text (s :: gs), (c.forward front.text.length).forward (Symbols.text (s :: gs)).length) :=
        quotedGap_text (hy ▸ hd) hgt hgy
      have hm := ih (c := (c.forward front.text.length).forward (Symbols.text (s :: gs)).length) hsb
        (Cursor.rest_forward_append hd) (by simp at hn; omega)
      rw [quotedRest_succ (hrun (by simp [hx])), if_neg hp, hg']
      simp only [bind, Except.bind, hm, Except.map]
      simp only [← Cursor.forward_add, text_append, chars_append, hgc, List.length_append, List.append_assoc,
        Nat.add_assoc]

/-- A string is scanned up to its closing quote, and gives its characters. -/
theorem quotedScalar_text {ss : Symbols} (hs : ss.isRegular = true) (h : c.rest = ss.quoted ++ r) :
    quotedScalar true c = .ok (ss.chars, c.forward ss.quoted.length) := by
  have hc : c.step.rest = ss.text ++ '\x22' :: r := by
    rw [Cursor.rest_step, h, Symbols.quoted, List.cons_append, List.tail_cons, List.append_assoc]
    rfl
  have hl : ss.quoted.length = 1 + (ss.text.length + 1) := by
    rw [Symbols.quoted, List.length_cons, List.length_append, Nat.add_comm]
    rfl
  have hn : ss.length < c.rest.length + 1 := by
    have := length_le_length_text ss
    rw [h, List.length_append]
    omega
  rw [quotedScalar, quotedRest_text _ (List.all_eq_true.1 hs) hc hn, hl, Cursor.forward_add 1]
  rfl

/-! White space and words. -/

/-- Whether white space has no tab. -/
def IsLayout (cs : List Char) : Prop := ∀ x ∈ cs, x = ' ' ∨ x = '\n' ∨ x = '\r'

/-- Whether nothing comes next that scanning passes over in front of a token. -/
def IsLead (r : List Char) : Prop := ∀ x ∈ r.head?, x ≠ ' ' ∧ isBreak x = false ∧ x ≠ '#' ∧ x ≠ '\uFEFF'

/-- Whether nothing or a mark between items comes next. -/
def Stops (r : List Char) : Prop := ∀ x ∈ r.head?, isFlowMark x = true

theorem Stops.isLead (h : Stops r) : IsLead r := by
  intro x hx
  have ne {y : Char} (hy : isFlowMark y = false) : x ≠ y := ne_of_holds (h x hx) hy
  simp only [isBreak, Bool.or_eq_false_iff, decide_eq_false_iff_not]
  refine ⟨ne (by decide), ⟨⟨⟨⟨?_, ?_⟩, ?_⟩, ?_⟩, ?_⟩, ne (by decide), ne (by decide)⟩ <;> exact ne (by decide)

theorem isLayout_blankText {bs : List Blank} (h : haveNoTab bs = true) : IsLayout (blankText bs) := by
  intro x hx
  obtain ⟨b, hb, rfl⟩ := List.mem_map.1 hx
  have hb := List.all_eq_true.1 h b hb
  cases b with
  | tab => cases hb
  | _ => simp [Blank.char]

theorem IsLayout.exists_spaces {cs : List Char} (h : IsLayout cs) : ∃ us vs, cs = us ++ vs ∧
    (∀ x ∈ us, x = ' ') ∧ ∀ x ∈ vs.head?, x = '\n' ∨ x = '\r' := by
  induction cs with
  | nil => exact ⟨[], [], by simp⟩
  | cons x cs ih =>
    obtain ⟨hx, hcs⟩ := List.forall_mem_cons.1 h
    by_cases hs : x = ' '
    · obtain ⟨us, vs, rfl, hu, hv⟩ := ih hcs
      exact ⟨x :: us, vs, rfl, List.forall_mem_cons.2 ⟨hs, hu⟩, hv⟩
    · exact ⟨[], x :: cs, rfl, by simp, by simpa using hx.resolve_left hs⟩

theorem IsLayout.of_append {us vs : List Char} (h : IsLayout (us ++ vs)) : IsLayout us ∧ IsLayout vs :=
  List.forall_mem_append.1 h

/-- What comes next behind white space that may be empty. -/
theorem head_of_isLayout {cs r : List Char} (h : IsLayout cs) (hr : Stops r) : ∀ x ∈ (cs ++ r).head?,
    (x = ' ' ∨ x = '\n' ∨ x = '\r') ∨ isFlowMark x = true := by
  intro x hx
  cases cs with
  | nil => exact .inr (hr x hx)
  | cons y cs =>
    obtain rfl := Option.some.inj hx
    exact .inl (h y List.mem_cons_self)

theorem peek_of_isLead (h : IsLead c.rest) : isBreak c.peek = false ∧ c.peek ≠ '#' ∧ c.peek ≠ '\uFEFF' := by
  cases hc : c.rest with
  | nil =>
    rw [Cursor.peek, hc]
    decide
  | cons x r =>
    rw [Cursor.peek_of_rest hc]
    exact (h x (by rw [hc]; rfl)).2

/-- A line break, of one character or of two, and the white space behind it. -/
theorem exists_lineBreak {cs : List Char} {x : Char} (hx : x = '\n' ∨ x = '\r') (hcs : IsLayout cs)
    (hr : IsLead r) (h : c.rest = x :: cs ++ r) : ∃ vs d, c.lineBreak = (['\n'], d) ∧ d.rest = vs ++ r ∧
      IsLayout vs ∧ vs.length ≤ cs.length ∧ d.forward vs.length = c.forward (x :: cs).length := by
  unfold Cursor.lineBreak
  split
  · next t ht =>
    rw [h, List.cons_append] at ht
    obtain ⟨rfl, hy⟩ := List.cons.inj ht
    cases cs with
    | nil =>
      rw [List.nil_append] at hy
      have hb := (hr '\n' (by rw [hy]; rfl)).2.1
      cases hb
    | cons y cs =>
      obtain ⟨rfl, -⟩ := List.cons.inj hy
      refine ⟨cs, c.forward 2, rfl, ?_, (List.forall_mem_cons.1 hcs).2, Nat.le_succ _, rfl⟩
      rw [Cursor.rest_forward, h]
      rfl
  · next y t _ ht =>
    rw [h, List.cons_append] at ht
    obtain ⟨rfl, -⟩ := List.cons.inj ht
    rw [if_pos (by rcases hx with rfl | rfl <;> rfl)]
    refine ⟨cs, c.step, rfl, ?_, hcs, Nat.le_refl _, rfl⟩
    rw [Cursor.rest_step, h]
    rfl
  · next ht =>
    rw [h] at ht
    cases ht

theorem not_atSeparator {cs : List Char} (hcs : IsLayout cs) (hr : Stops r) (h : c.rest = cs ++ r) :
    c.atSeparator = false := by
  have head_ne {y : Char} (hy : y = '-' ∨ y = '.') : ∀ x ∈ c.rest.head?, x ≠ y := by
    intro x hx
    rw [h] at hx
    rcases head_of_isLayout hcs hr x hx with (rfl | rfl | rfl) | hx
    · rcases hy with rfl | rfl <;> decide
    · rcases hy with rfl | rfl <;> decide
    · rcases hy with rfl | rfl <;> decide
    · rcases hy with rfl | rfl <;> exact ne_of_holds hx (by decide)
  have not_atMarker {y : Char} (hy : y = '-' ∨ y = '.') : c.atMarker y = false := by
    rw [Cursor.atMarker]
    cases hc : c.rest with
    | nil => simp
    | cons x r => simp [head_ne hy x (by rw [hc]; rfl)]
  rw [Cursor.atSeparator, not_atMarker (.inl rfl), not_atMarker (.inr rfl), Bool.or_false]

/-- White space begins with spaces. Behind them it ends, or there are a line break and more white space. -/
theorem exists_span {cs : List Char} (hcs : IsLayout cs) (hr : IsLead r) (h : c.rest = cs ++ r) : ∃ us d,
    c.span (· = ' ') = (us, d) ∧ d.peek ≠ '#' ∧ (isBreak d.peek = false ∧ d = c.forward cs.length ∨
      isBreak d.peek = true ∧ ∃ vs e, d.lineBreak = (['\n'], e) ∧ e.rest = vs ++ r ∧ IsLayout vs ∧
        vs.length < cs.length ∧ e.forward vs.length = c.forward cs.length) := by
  obtain ⟨us, vs, rfl, hu, hv⟩ := hcs.exists_spaces
  rw [List.append_assoc] at h
  have hd := Cursor.rest_forward_append h
  have hs : c.span (· = ' ') = (us, c.forward us.length) := by
    refine Cursor.span_of_append h (fun x hx => decide_eq_true (hu x hx)) fun x hx => decide_eq_false ?_
    cases vs with
    | nil => exact (hr x hx).1
    | cons y vs =>
      obtain rfl := Option.some.inj hx
      rcases hv y rfl with rfl | rfl <;> decide
  refine ⟨us, _, hs, ?_⟩
  cases vs with
  | nil =>
    obtain ⟨hb, hp, -⟩ := peek_of_isLead (show IsLead (c.forward us.length).rest by rwa [hd])
    rw [List.append_nil]
    exact ⟨hp, .inl ⟨hb, rfl⟩⟩
  | cons x vs =>
    have hx := hv x rfl
    obtain ⟨ws, e, hl, he, hws, hlen, hf⟩ := exists_lineBreak hx (List.forall_mem_cons.1 hcs.of_append.2).2 hr hd
    have hx : x ≠ '#' ∧ isBreak x = true := by rcases hx with rfl | rfl <;> decide
    rw [Cursor.peek_of_rest hd]
    refine ⟨hx.1, .inr ⟨hx.2, ws, e, hl, he, hws, ?_, ?_⟩⟩
    · rw [List.length_append, List.length_cons]
      omega
    · rw [hf, ← Cursor.forward_add, List.length_append]

theorem exists_plainBreaks (n : Nat) : ∀ {cs : List Char} {c : Cursor} {r : List Char}, IsLayout cs → Stops r →
    c.rest = cs ++ r → cs.length < n → ∃ bs, plainBreaks n c = (some bs, c.forward cs.length) := by
  induction n with
  | zero =>
    intro cs c r _ _ _ hn
    cases hn
  | succ n ih =>
    intro cs c r hcs hr h hn
    obtain ⟨us, d, hs, -, hd⟩ := exists_span hcs hr.isLead h
    have hskip : c.skipSpaces = d := congrArg Prod.snd hs
    rw [plainBreaks, hskip]
    rcases hd with ⟨hp, rfl⟩ | ⟨hp, vs, e, hb, he, hvs, hlen, hf⟩
    · simp only [hp, Bool.false_eq_true, if_false]
      exact ⟨_, rfl⟩
    · obtain ⟨bs, hbs⟩ := ih hvs hr he (by omega)
      simp only [hp, if_true, hb, not_atSeparator hvs hr he, hbs, hf, Bool.false_eq_true, if_false]
      exact ⟨_, rfl⟩

/-- A gap behind a word takes in all the white space. -/
theorem exists_plainGap {cs : List Char} (hcs : IsLayout cs) (hr : Stops r) (h : c.rest = cs ++ r) :
    ∃ gap fresh, plainGap c = (gap, fresh, c.forward cs.length) := by
  obtain ⟨us, d, hs, -, hd⟩ := exists_span hcs hr.isLead h
  rw [plainGap, hs]
  rcases hd with ⟨hp, rfl⟩ | ⟨hp, vs, e, hb, he, hvs, -, hf⟩
  · simp only [hp, Bool.false_eq_true, if_false]
    exact ⟨us, false, rfl⟩
  · have hlen : vs.length < e.rest.length + 1 := by
      rw [he, List.length_append]
      omega
    obtain ⟨bs, hbs⟩ := exists_plainBreaks _ hvs hr he hlen
    simp only [hp, if_true, hb, not_atSeparator hvs hr he, hbs, hf, Bool.false_eq_true, if_false]
    exact ⟨_, true, rfl⟩

/-- The characters of words. -/
def isBare (x : Char) : Bool := isWord x || x = '+' || x = '.'

theorem isGapOrEnd_of_isBare {x : Char} (h : isBare x = true) : isGapOrEnd x = false := by
  simp only [isGapOrEnd, isSpaceOrEnd, isBreakOrEnd, isBreak, Bool.or_eq_false_iff, decide_eq_false_iff_not]
  refine ⟨?_, ?_, ?_, ⟨⟨⟨?_, ?_⟩, ?_⟩, ?_⟩, ?_⟩ <;> exact ne_of_holds h (by decide)

theorem isFlowMark_of_isBare {x : Char} (h : isBare x = true) : isFlowMark x = false := by
  simp only [isFlowMark, Bool.or_eq_false_iff, decide_eq_false_iff_not]
  refine ⟨⟨⟨⟨?_, ?_⟩, ?_⟩, ?_⟩, ?_⟩ <;> exact ne_of_holds h (by decide)

theorem plainRun_bare {flow : Bool} {w : List Char} (hw : ∀ x ∈ w, isBare x = true)
    (hr : ∀ x ∈ r.head?, isGapOrEnd x = true ∨ (flow = true ∧ isFlowMark x = true)) :
    plainRun flow (w ++ r) = w := by
  induction w with
  | nil =>
    cases r with
    | nil => rfl
    | cons x r =>
      rw [List.nil_append, plainRun, if_pos]
      rcases hr x rfl with h | ⟨hf, h⟩ <;> simp [*]
  | cons x w ih =>
    obtain ⟨hx, hw⟩ := List.forall_mem_cons.1 hw
    rw [List.cons_append, plainRun, ih hw, if_neg]
    simp [isGapOrEnd_of_isBare hx, isFlowMark_of_isBare hx, ne_of_holds hx (b := ':') (by decide),
      ne_of_holds hx (b := '?') (by decide)]

theorem plainRun_of_stops {flow : Bool} (hr : Stops r) (hf : flow = true ∨ r = []) : plainRun flow r = [] := by
  refine plainRun_bare (w := []) (by simp) fun x hx => ?_
  rcases hf with hf | rfl
  · exact .inr ⟨hf, hr x hx⟩
  · cases hx

/-- Nothing more of a plain scalar comes where the text stops. -/
theorem plainRest_of_stops {flow fresh : Bool} {indent : Int} {gap : List Char} (n : Nat) (hr : Stops c.rest)
    (hf : flow = true ∨ c.rest = []) : plainRest flow indent n gap fresh c = ([], fresh, c) := by
  cases n with
  | zero => rfl
  | succ n =>
    rw [plainRest, plainRun_of_stops hr hf]
    simp

/-- A word is scanned together with the white space behind it. -/
theorem exists_plainScalar {flow : Bool} {w cs : List Char} (hne : w ≠ []) (hw : ∀ x ∈ w, isBare x = true)
    (hcs : IsLayout cs) (hr : Stops r) (hf : flow = true ∨ r = []) (h : c.rest = w ++ (cs ++ r)) :
    ∃ fresh, plainScalar flow (-1) c = (w, fresh, c.forward (w ++ cs).length) := by
  obtain ⟨x, xs, rfl⟩ := List.exists_cons_of_ne_nil hne
  have hp : c.peek ≠ '#' := by
    rw [Cursor.peek_of_rest h]
    exact ne_of_holds (hw x List.mem_cons_self) (by decide)
  have hrun : plainRun flow c.rest = x :: xs := by
    rw [h]
    refine plainRun_bare hw fun y hy => ?_
    cases cs with
    | nil =>
      rcases hf with hf | rfl
      · exact .inr ⟨hf, hr y hy⟩
      · cases hy
    | cons z cs =>
      obtain rfl := Option.some.inj hy
      rcases hcs z List.mem_cons_self with rfl | rfl | rfl <;> exact .inl (by decide)
  obtain ⟨gap, fresh, hg⟩ := exists_plainGap hcs hr (Cursor.rest_forward_append h)
  have hd : ((c.forward (x :: xs).length).forward cs.length).rest = r :=
    Cursor.rest_forward_append (Cursor.rest_forward_append h)
  have hrest : plainRest flow (-1 + 1) c.rest.length gap fresh ((c.forward (x :: xs).length).forward cs.length) =
      ([], fresh, (c.forward (x :: xs).length).forward cs.length) :=
    plainRest_of_stops _ (by rwa [hd]) (by rwa [hd])
  refine ⟨fresh, ?_⟩
  rw [plainScalar, plainRest, if_neg hp, hrun, List.length_append, Cursor.forward_add]
  simp only [hg, hrest, List.nil_append, List.append_nil, List.isEmpty_cons, Bool.false_eq_true, if_false,
    ite_self]

end Json

end Conform
