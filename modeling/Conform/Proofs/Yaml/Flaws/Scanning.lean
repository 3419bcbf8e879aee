import Conform.Proofs.Triples
import Conform.Yaml.Property
import Conform.Yaml.Scalar
import Mathlib.Algebra.Group.Nat.Defs

/-! Flaws that reading at a cursor finds in a text. A text that is ill formed has no more to say; a flaw that
names a character comes of an escape of the text, whose number is beyond all characters. -/

namespace Conform.Yaml

/-- Whether a text writes a number as an escape of eight hexadecimal digits. -/
def HasEscape (text : List Char) (code : Nat) : Prop :=
  ∃ before ds after, text = before ++ '\x5c' :: 'U' :: (ds ++ after) ∧ ds.length = 8 ∧
    (∀ d ∈ ds, (Text.hexDigit? d).isSome = true) ∧ hexNumber ds = code

/-- Whether a flaw can be one of a text. -/
def IsFlawOf (text : List Char) (f : Flaw) : Prop :=
  f = .illFormed ∨ ∃ code, f = .character code ∧ 0x10FFFF < code ∧ HasEscape text code

variable {text : List Char} {c : Cursor}

namespace Cursor

/-- Whether what is left at a cursor is the end of a text. -/
def Within (text : List Char) (c : Cursor) : Prop := c.rest <:+ text

theorem rest_step (c : Cursor) : c.step.rest = c.rest.tail := by
  unfold Cursor.step
  split
  · next h => rw [h, List.tail_nil]
  · next x rest h =>
    rw [h, List.tail_cons]
    split
    · rfl
    · split <;> rfl

theorem rest_of_peek {x : Char} (h : c.peek = x) (hx : x ≠ finis) : c.rest = x :: c.step.rest := by
  rw [rest_step]
  unfold Cursor.peek at h
  cases hc : c.rest with
  | nil =>
    rw [hc] at h
    exact absurd h.symm hx
  | cons y rest =>
    rw [hc] at h
    rw [show y = x from h, List.tail_cons]

theorem Within.step (h : c.Within text) : c.step.Within text := by
  unfold Within
  rw [rest_step]
  exact (List.tail_suffix _).trans h

theorem Within.forward (h : c.Within text) (n : Nat) : (c.forward n).Within text := by
  induction n generalizing c with
  | zero => exact h
  | succ n ih => exact ih h.step

theorem Within.span (h : c.Within text) (p : Char → Bool) : (c.span p).2.Within text := h.forward _

theorem Within.skip (h : c.Within text) (p : Char → Bool) : (c.skip p).Within text := h.span p

theorem Within.skipSpaces (h : c.Within text) : c.skipSpaces.Within text := h.skip _

theorem Within.skipLine (h : c.Within text) : c.skipLine.Within text := h.skip _

theorem Within.skipComment (h : c.Within text) : c.skipComment.Within text := by
  unfold Cursor.skipComment
  split
  · exact h.skipLine
  · exact h

theorem Within.lineBreak (h : c.Within text) : c.lineBreak.2.Within text := by
  unfold Cursor.lineBreak
  split
  · exact h.forward 2
  · split
    · exact h.step
    · split
      · exact h.step
      · exact h
  · exact h

end Cursor

/-- Whether reading at a cursor stays in a text and fails for a flaw of it. -/
abbrev Scans {α : Type} (text : List Char) (x : Scan (α × Cursor)) : Prop :=
  Meets (fun r => r.2.Within text) (IsFlawOf text) x

theorem meets_failed {α : Type} {Q : α → Prop} : Meets Q (IsFlawOf text) failed := .inl rfl

theorem scans_word (h : c.Within text) : Scans text (word c) :=
  Meets.ite (fun _ => meets_failed) fun _ => h.forward _

theorem scans_anchorName (h : c.Within text) : Scans text (anchorName c) :=
  (scans_word h.step).bind fun _ hd => Meets.ite (fun _ => hd) fun _ => meets_failed

theorem scans_escapedBytes (n : Nat) : ∀ {c}, c.Within text → Scans text (escapedBytes n c) := by
  induction n with
  | zero => exact fun h => h
  | succ n ih =>
    intro c h
    refine Meets.ite (fun _ => ?_) fun _ => h
    split
    · exact (ih (h.forward 3)).bind fun _ hd => hd
    · exact meets_failed

theorem scans_uriRest (n : Nat) : ∀ {c}, c.Within text → Scans text (uriRest n c) := by
  induction n with
  | zero => exact fun h => h
  | succ n ih =>
    intro c h
    refine Meets.ite (fun _ => ?_) fun _ => h.span isUriChar
    refine (scans_escapedBytes _ (h.span isUriChar)).bind fun r hd => ?_
    obtain ⟨bs, d⟩ := r
    simp only
    split
    · exact meets_failed
    · exact (ih hd).bind fun _ he => he

theorem scans_uri (h : c.Within text) : Scans text (uri c) :=
  Meets.ite (fun _ => scans_uriRest _ h) fun _ => meets_failed

theorem scans_tagHandle (h : c.Within text) : Scans text (tagHandle c) := by
  refine Meets.ite (fun _ => meets_failed) fun _ => Meets.ite (fun _ => h.step) fun _ => ?_
  exact Meets.ite (fun _ => (h.step.span _).step) fun _ => meets_failed

theorem meets_tag (h : c.Within text) : Meets (fun r => r.2.2.Within text) (IsFlawOf text) (tag c) := by
  have hend (r : Option (List Char) × List Char × Cursor) (hr : r.2.2.Within text) :
      Meets (fun r => r.2.2.Within text) (IsFlawOf text)
        (if isSpaceOrEnd r.2.2.peek then pure (r.1, r.2.1, r.2.2) else failed :
          Scan (Option (List Char) × List Char × Cursor)) :=
    Meets.ite (fun _ => hr) fun _ => meets_failed
  refine Meets.ite (fun _ => ?_) fun _ => Meets.ite (fun _ => ?_) fun _ => Meets.ite (fun _ => ?_) fun _ => ?_
  · refine (scans_uri (h.forward 2)).bind fun r hd => Meets.ite (fun _ => ?_) fun _ => meets_failed
    exact hend (none, r.1, r.2.step) hd.step
  · exact hend (none, ['!'], c.step) h.step
  · refine (scans_tagHandle h).bind fun r hd => (scans_uri hd).bind fun s he => ?_
    exact hend (some r.1, s.1, s.2) he
  · exact (scans_uri h.step).bind fun r hd => hend (some ['!'], r.1, r.2) hd

theorem scans_decimal (h : c.Within text) : Scans text (decimal c) :=
  Meets.ite (fun _ => meets_failed) fun _ => h.span _

theorem scans_versionDirective (h : c.Within text) : Scans text (versionDirective c) := by
  refine (scans_decimal h.skipSpaces).bind fun _ hd => ?_
  refine Meets.ite (fun _ => meets_failed) fun _ => ?_
  exact (scans_decimal hd.step).bind fun _ he => Meets.ite (fun _ => he) fun _ => meets_failed

theorem scans_handleDirective (h : c.Within text) : Scans text (handleDirective c) := by
  refine (scans_tagHandle h.skipSpaces).bind fun _ hd => ?_
  refine Meets.ite (fun _ => meets_failed) fun _ => ?_
  exact (scans_uri hd.skipSpaces).bind fun _ he => Meets.ite (fun _ => he) fun _ => meets_failed

theorem scans_directive (h : c.Within text) : Scans text (directive c) := by
  have hend (r : Directive × Cursor) (hr : r.2.Within text) : Scans text
      (if isBreakOrEnd r.2.skipSpaces.skipComment.peek then
        pure (r.1, r.2.skipSpaces.skipComment.lineBreak.2) else failed) :=
    Meets.ite (fun _ => hr.skipSpaces.skipComment.lineBreak) fun _ => meets_failed
  refine (scans_word h.step).bind fun r hd => Meets.ite (fun _ => meets_failed) fun _ => ?_
  refine Meets.ite (fun _ => ?_) fun _ => Meets.ite (fun _ => ?_) fun _ => ?_
  · exact (scans_versionDirective hd).bind hend
  · exact (scans_handleDirective hd).bind hend
  · exact hend (.other, r.2.skipLine) hd.skipLine

/-! Scalars. -/

theorem scans_increment? (h : c.Within text) : Scans text (increment? c) := by
  refine Meets.ite (fun _ => ?_) fun _ => h
  exact Meets.ite (fun _ => meets_failed) fun _ => h.step

theorem within_chomping? (h : c.Within text) : (chomping? c).2.Within text := by
  unfold chomping?
  split
  · exact h.step
  · split
    · exact h.step
    · exact h

theorem meets_blockHeader (h : c.Within text) :
    Meets (fun r => r.2.2.Within text) (IsFlawOf text) (blockHeader c) := by
  have hend (r : Chomping × Option Nat × Cursor) (hr : r.2.2.Within text) :
      Meets (fun r => r.2.2.Within text) (IsFlawOf text)
        (if isSpaceOrEnd r.2.2.peek then
          if isBreakOrEnd r.2.2.skipSpaces.skipComment.peek then
            pure (r.1, r.2.1, r.2.2.skipSpaces.skipComment.lineBreak.2)
          else failed
        else failed : Scan (Chomping × Option Nat × Cursor)) := by
    refine Meets.ite (fun _ => ?_) fun _ => meets_failed
    exact Meets.ite (fun _ => hr.skipSpaces.skipComment.lineBreak) fun _ => meets_failed
  unfold blockHeader
  have hc := within_chomping? h
  cases hch : chomping? c with
  | mk k d =>
    rw [hch] at hc
    cases k with
    | some k => exact (scans_increment? hc).bind fun r hr => hend (k, r.1, r.2) hr
    | none =>
      refine (scans_increment? hc).bind fun r hr => ?_
      obtain ⟨n, e⟩ := r
      cases n with
      | none => exact hend (.clip, none, e) hr
      | some n => exact hend ((chomping? e).1.getD .clip, some n, (chomping? e).2) (within_chomping? hr)

theorem within_leadingBreaks (n : Nat) : ∀ {c : Cursor} {widest : Nat}, c.Within text →
    (leadingBreaks n c widest).2.2.Within text := by
  induction n with
  | zero => exact fun h => h
  | succ n ih =>
    intro c widest h
    unfold leadingBreaks
    split
    · exact ih h.step
    · split
      · exact ih h.lineBreak
      · exact h

theorem within_breaksWithin (indent n : Nat) : ∀ {c : Cursor}, c.Within text →
    (breaksWithin indent n c).2.Within text := by
  induction n with
  | zero => exact fun h => h.forward _
  | succ n ih =>
    intro c h
    unfold breaksWithin
    simp only
    split
    · exact ih (h.forward _).lineBreak
    · exact h.forward _

theorem within_blockLines (folded : Bool) (indent n : Nat) : ∀ {breaks : List Char} {c : Cursor},
    c.Within text → (blockLines folded indent n breaks c).cursor.Within text := by
  induction n with
  | zero => exact fun h => h
  | succ n ih =>
    intro breaks c h
    have hb := within_breaksWithin indent (c.span fun x => !isBreakOrEnd x).2.lineBreak.2.rest.length
      (h.span fun x => !isBreakOrEnd x).lineBreak
    unfold blockLines
    simp only
    split
    · exact ih hb
    · exact hb

theorem scans_blockScalar (folded : Bool) (outer : Int) (h : c.Within text) :
    Scans text (blockScalar folded outer c) := by
  refine (meets_blockHeader h.step).bind fun r hr => ?_
  obtain ⟨chomping, increment, d⟩ := r
  have hend (breaks : List Char) (indent : Nat) {e : Cursor} (he : e.Within text) :
      (if hasLine indent e then blockLines folded indent e.rest.length breaks e
        else ⟨[], [], breaks, e⟩).cursor.Within text := by
    split
    · exact within_blockLines folded indent _ he
    · exact he
  cases increment with
  | none => exact hend _ _ (within_leadingBreaks _ hr)
  | some k => exact hend _ _ (within_breaksWithin _ _ hr)

theorem scans_quotedBreaks (n : Nat) : ∀ {c}, c.Within text → Scans text (quotedBreaks n c) := by
  induction n with
  | zero => exact fun h => h
  | succ n ih =>
    intro c h
    refine Meets.ite (fun _ => meets_failed) fun _ => Meets.ite (fun _ => ?_) fun _ => h.skip isSpaceTab
    exact (ih (h.skip isSpaceTab).lineBreak).bind fun _ hd => hd

theorem foldl_hexDigit_lt {ds : List Char} (h : ∀ d ∈ ds, (Text.hexDigit? d).isSome = true) (n : Nat) :
    ds.foldl (fun n c => n * 16 + (Text.hexDigit? c).getD 0) n < (n + 1) * 16 ^ ds.length := by
  induction ds generalizing n with
  | nil => simp
  | cons d ds ih =>
    obtain ⟨hd, hds⟩ := List.forall_mem_cons.1 h
    obtain ⟨k, hk⟩ := Option.isSome_iff_exists.1 hd
    have hlt := Text.hexDigit?_lt hk
    rw [List.foldl_cons, hk, Option.getD_some]
    refine Nat.lt_of_lt_of_le (ih hds _) ?_
    rw [List.length_cons, Nat.pow_succ', ← Nat.mul_assoc]
    exact Nat.mul_le_mul_right _ (by omega)

theorem hexNumber_lt {ds : List Char} (h : ∀ d ∈ ds, (Text.hexDigit? d).isSome = true) :
    hexNumber ds < 16 ^ ds.length := by
  have hlt := foldl_hexDigit_lt h 0
  rwa [Nat.zero_add, Nat.one_mul] at hlt

theorem meets_characterOf {code : Nat} (h : 0x10FFFF < code → HasEscape text code) :
    Meets (fun _ => True) (IsFlawOf text) (characterOf code) := by
  refine Meets.ite (fun hlt => .inr ⟨code, rfl, hlt, h hlt⟩) fun _ => ?_
  exact Meets.ite (fun _ => meets_failed) fun _ => trivial

/-- Only an escape with eight digits can go beyond all characters. -/
theorem escapeWidth?_of_lt {x : Char} {ds : List Char} (hw : escapeWidth? x = some ds.length)
    (hds : ∀ d ∈ ds, (Text.hexDigit? d).isSome = true) (h : 0x10FFFF < hexNumber ds) :
    ds.length = 8 ∧ x = 'U' := by
  have hlt := hexNumber_lt hds
  unfold escapeWidth? at hw
  split at hw
  · rw [← Option.some.inj hw] at hlt
    omega
  · rw [← Option.some.inj hw] at hlt
    omega
  · exact ⟨(Option.some.inj hw).symm, rfl⟩
  · cases hw

theorem scans_escape (h : '\x5c' :: c.rest <:+ text) : Scans text (escape c) := by
  have hc : c.Within text := (List.suffix_cons _ _).trans h
  unfold escape
  split
  · exact hc.step
  · split
    · next width hw =>
      refine Meets.ite (fun hds => ?_) fun _ => meets_failed
      simp only [Bool.and_eq_true, decide_eq_true_eq, List.all_eq_true] at hds
      obtain ⟨hlen, hhex⟩ := hds
      refine (meets_characterOf fun hlt => ?_).bind fun _ _ => hc.step.forward width
      obtain ⟨rfl, hpeek⟩ : width = 8 ∧ c.peek = 'U' := by
        rw [← hlen] at hw ⊢
        exact escapeWidth?_of_lt hw hhex hlt
      obtain ⟨before, hb⟩ := h
      refine ⟨before, c.step.rest.take 8, c.step.rest.drop 8, ?_, hlen, hhex, rfl⟩
      rw [List.take_append_drop, ← Cursor.rest_of_peek hpeek (by decide), hb]
    · refine Meets.ite (fun _ => ?_) fun _ => meets_failed
      exact scans_quotedBreaks _ hc.lineBreak

theorem scans_quotedRun (double : Bool) (n : Nat) : ∀ {c}, c.Within text →
    Scans text (quotedRun double n c) := by
  induction n with
  | zero => exact fun h => h
  | succ n ih =>
    intro c h
    have hd := h.span fun x => !isQuotedEnd x
    refine Meets.ite (fun _ => ?_) fun _ => Meets.ite (fun _ => ?_) fun _ => ?_
    · exact (ih (hd.forward 2)).bind fun _ he => he
    · exact (ih hd.step).bind fun _ he => he
    · refine Meets.ite (fun hx => ?_) fun _ => hd
      simp only [Bool.and_eq_true, decide_eq_true_eq] at hx
      have hrest := Cursor.rest_of_peek hx.2 (by decide)
      refine (scans_escape ?_).bind fun _ he => (ih he).bind fun _ hf => hf
      rw [← hrest]
      exact hd

theorem scans_quotedGap (h : c.Within text) : Scans text (quotedGap c) := by
  have hd := h.span isSpaceTab
  refine Meets.ite (fun _ => meets_failed) fun _ => Meets.ite (fun _ => ?_) fun _ => hd
  exact (scans_quotedBreaks _ hd.lineBreak).bind fun _ he => he

theorem scans_quotedRest (double : Bool) (n : Nat) : ∀ {c}, c.Within text →
    Scans text (quotedRest double n c) := by
  induction n with
  | zero => exact fun _ => meets_failed
  | succ n ih =>
    intro c h
    refine (scans_quotedRun double _ h).bind fun r hd => Meets.ite (fun _ => hd.step) fun _ => ?_
    exact (scans_quotedGap hd).bind fun s he => (ih he).bind fun _ hf => hf

theorem scans_quotedScalar (double : Bool) (h : c.Within text) : Scans text (quotedScalar double c) :=
  scans_quotedRest double _ h.step

theorem within_plainBreaks (n : Nat) : ∀ {c : Cursor}, c.Within text → (plainBreaks n c).2.Within text := by
  induction n with
  | zero => exact fun h => h
  | succ n ih =>
    intro c h
    unfold plainBreaks
    simp only
    split
    · split
      · exact h.skipSpaces.lineBreak
      · exact ih h.skipSpaces.lineBreak
    · exact h.skipSpaces

theorem within_plainGap (h : c.Within text) : (plainGap c).2.2.Within text := by
  have hd := h.span (· = ' ')
  unfold plainGap
  simp only
  split
  · split
    · exact hd.lineBreak
    · have hb := within_plainBreaks ((c.span (· = ' ')).2.lineBreak.2.rest.length + 1) hd.lineBreak
      split
      · next he =>
        rw [he] at hb
        exact hb
      · next he =>
        rw [he] at hb
        exact hb
  · exact hd

theorem within_plainRest (flow : Bool) (indent : Int) (n : Nat) : ∀ {gap : List Char} {fresh : Bool}
    {c : Cursor}, c.Within text → (plainRest flow indent n gap fresh c).2.2.Within text := by
  induction n with
  | zero => exact fun h => h
  | succ n ih =>
    intro gap fresh c h
    unfold plainRest
    generalize (if c.peek = '#' then [] else plainRun flow c.rest) = run
    simp only
    split
    · exact h
    · have hg := within_plainGap (h.forward run.length)
      split
      · exact hg
      · exact ih hg

theorem within_plainScalar (flow : Bool) (outer : Int) (h : c.Within text) :
    (plainScalar flow outer c).2.2.Within text :=
  within_plainRest flow _ _ h

end Conform.Yaml
