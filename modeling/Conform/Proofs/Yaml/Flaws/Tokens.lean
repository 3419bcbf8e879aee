import Conform.Proofs.Yaml.Flaws.Scanning
import Conform.Yaml.Tokens

/-! Flaws that splitting a text into tokens finds in it. No step of the tokenizer leaves the text. -/

namespace Conform.Yaml

variable {text : List Char}

namespace Tokenizer

variable {t : Tokenizer}

/-- Whether a tokenizer is in a text. -/
def Within (text : List Char) (t : Tokenizer) : Prop := t.cursor.Within text

/-- Whether a step of the tokenizer stays in a text and fails for a flaw of it. -/
abbrev Steps (text : List Char) (x : Scan Tokenizer) : Prop := Meets (Within text) (IsFlawOf text) x

theorem Within.take (h : t.Within text) (n : Nat) (l : Lexeme) : (t.take n l).Within text :=
  Cursor.Within.forward h n

theorem Within.unwind (h : t.Within text) (column : Int) : (t.unwind column).Within text := by
  have closeBlocks (is : List Int) : ∀ {t : Tokenizer}, t.Within text →
      (closeBlocks column is t).Within text := by
    induction is with
    | nil => exact fun h => h
    | cons i is ih =>
      intro t h
      unfold Tokenizer.closeBlocks
      split
      · exact ih h
      · exact h
  unfold Tokenizer.unwind
  split
  · exact h
  · exact closeBlocks _ h

theorem within_of_indentTo {column : Nat} {u : Tokenizer} (ht : t.indentTo column = some u)
    (h : t.Within text) : u.Within text := by
  unfold Tokenizer.indentTo at ht
  split at ht
  · obtain rfl := Option.some.inj ht
    exact h
  · cases ht

theorem steps_dropStale (h : t.Within text) : Steps text t.dropStale :=
  Meets.ite (fun _ => meets_failed) fun _ => h

theorem steps_dropKey (h : t.Within text) : Steps text t.dropKey := by
  unfold dropKey
  split
  · exact Meets.ite (fun _ => meets_failed) fun _ => h
  · exact h

theorem steps_saveKey (h : t.Within text) : Steps text t.saveKey :=
  Meets.ite (fun _ => (steps_dropKey h).bind fun _ hu => hu) fun _ => h

theorem within_skipGaps (n : Nat) : ∀ {t : Tokenizer}, t.Within text → (skipGaps n t).Within text := by
  induction n with
  | zero => exact fun h => h
  | succ n ih =>
    intro t h
    have hc : t.cursor.skipSpaces.skipComment.Within text := (Cursor.Within.skipSpaces h).skipComment
    unfold skipGaps
    simp only
    split
    · exact ih hc.lineBreak
    · exact hc

theorem within_skipToToken (h : t.Within text) : t.skipToToken.Within text := by
  refine within_skipGaps _ ?_
  unfold Within
  simp only
  split
  · exact Cursor.Within.step h
  · exact h

theorem steps_openBlock (l : Lexeme) (h : t.Within text) : Steps text (t.openBlock l) := by
  refine Meets.ite (fun _ => h) fun _ => Meets.ite (fun _ => ?_) fun _ => meets_failed
  split
  · next u hu =>
    have : u.Within text := within_of_indentTo hu h
    exact this
  · exact h

theorem steps_takeStreamEnd (h : t.Within text) : Steps text t.takeStreamEnd :=
  (steps_dropKey (h.unwind _)).bind fun _ hu => hu

theorem steps_takeDirective (h : t.Within text) : Steps text t.takeDirective :=
  (steps_dropKey (h.unwind _)).bind fun _ hu => (scans_directive hu).bind fun _ hd => hd

theorem steps_takeMarker (l : Lexeme) (h : t.Within text) : Steps text (t.takeMarker l) :=
  (steps_dropKey (h.unwind _)).bind fun _ hu => hu.take 3 l

theorem steps_takeOpening (l : Lexeme) (h : t.Within text) : Steps text (t.takeOpening l) :=
  (steps_saveKey h).bind fun _ hu => hu.take 1 l

theorem steps_takeClosing (l : Lexeme) (h : t.Within text) : Steps text (t.takeClosing l) :=
  (steps_dropKey h).bind fun _ hu => hu.take 1 l

theorem steps_takeFlowEntry (h : t.Within text) : Steps text t.takeFlowEntry :=
  (steps_dropKey (t := t.allowKey true) h).bind fun _ hu => hu.take 1 .flowEntry

theorem steps_takeBlockEntry (h : t.Within text) : Steps text t.takeBlockEntry :=
  (steps_openBlock _ h).bind fun u hu =>
    (steps_dropKey (t := u.allowKey true) hu).bind fun _ hv => hv.take 1 .blockEntry

theorem steps_takeKey (h : t.Within text) : Steps text t.takeKey :=
  (steps_openBlock _ h).bind fun u hu =>
    (steps_dropKey (t := u.allowKey !u.inFlow) hu).bind fun _ hv => hv.take 1 .key

theorem steps_takeValue (h : t.Within text) : Steps text t.takeValue := by
  unfold takeValue
  split
  · refine Meets.pure (Within.take ?_ 1 .value)
    unfold Within allowKey
    split
    · exact h
    · split
      · next u hu =>
        have : u.Within text := within_of_indentTo hu h
        exact this
      · exact h
  · exact (steps_openBlock _ h).bind fun u hu =>
      (steps_dropKey (t := u.allowKey !u.inFlow) hu).bind fun _ hv => hv.take 1 .value

theorem steps_takeName (make : List Char → Lexeme) (h : t.Within text) : Steps text (t.takeName make) :=
  (steps_saveKey h).bind fun _ hu => (scans_anchorName hu).bind fun _ hd => hd

theorem steps_takeTag (h : t.Within text) : Steps text t.takeTag :=
  (steps_saveKey h).bind fun _ hu => (meets_tag hu).bind fun _ hd => hd

theorem steps_takeBlockScalar (folded : Bool) (h : t.Within text) : Steps text (t.takeBlockScalar folded) :=
  (steps_dropKey (t := t.allowKey true) h).bind fun u hu =>
    (scans_blockScalar folded u.indent hu).bind fun _ hd => hd

theorem steps_takeQuoted (double : Bool) (h : t.Within text) : Steps text (t.takeQuoted double) :=
  (steps_saveKey h).bind fun _ hu => (scans_quotedScalar double hu).bind fun _ hd => hd

theorem steps_takePlain (h : t.Within text) : Steps text t.takePlain :=
  (steps_saveKey h).bind fun u hu => within_plainScalar u.inFlow u.indent hu

theorem steps_takeToken (h : t.Within text) : Steps text t.takeToken := by
  unfold takeToken
  extract_lets c x gap
  refine Meets.ite (fun _ => steps_takeStreamEnd h) fun _ => ?_
  refine Meets.ite (fun _ => steps_takeDirective h) fun _ => ?_
  refine Meets.ite (fun _ => steps_takeMarker _ h) fun _ => ?_
  refine Meets.ite (fun _ => steps_takeMarker _ h) fun _ => ?_
  refine Meets.ite (fun _ => steps_takeOpening _ h) fun _ => ?_
  refine Meets.ite (fun _ => steps_takeOpening _ h) fun _ => ?_
  refine Meets.ite (fun _ => steps_takeClosing _ h) fun _ => ?_
  refine Meets.ite (fun _ => steps_takeClosing _ h) fun _ => ?_
  refine Meets.ite (fun _ => steps_takeFlowEntry h) fun _ => ?_
  refine Meets.ite (fun _ => steps_takeBlockEntry h) fun _ => ?_
  refine Meets.ite (fun _ => steps_takeKey h) fun _ => ?_
  refine Meets.ite (fun _ => steps_takeValue h) fun _ => ?_
  refine Meets.ite (fun _ => steps_takeName _ h) fun _ => ?_
  refine Meets.ite (fun _ => steps_takeName _ h) fun _ => ?_
  refine Meets.ite (fun _ => steps_takeTag h) fun _ => ?_
  refine Meets.ite (fun _ => steps_takeBlockScalar _ h) fun _ => ?_
  refine Meets.ite (fun _ => steps_takeBlockScalar _ h) fun _ => ?_
  refine Meets.ite (fun _ => steps_takeQuoted _ h) fun _ => ?_
  refine Meets.ite (fun _ => steps_takeQuoted _ h) fun _ => ?_
  exact Meets.ite (fun _ => steps_takePlain h) fun _ => meets_failed

theorem steps_advance (h : t.Within text) : Steps text t.advance :=
  (steps_dropStale (within_skipToToken h)).bind fun _ hu => steps_takeToken (hu.unwind _)

/-! One round of the tokenizer. -/

theorem run_zero (t : Tokenizer) : run 0 t = (t.tokens.reverse, none) := by exact rfl

theorem run_succ (n : Nat) (t : Tokenizer) : run (n + 1) t =
    if t.isDone then (t.tokens.reverse, none)
    else
      match t.dropStale with
      | .error e => (t.certain, some e)
      | .ok t =>
        match t.advance with
        | .error e => (t.certain, some e)
        | .ok t => run n t := by exact rfl

theorem isFlawOf_run (n : Nat) {f : Flaw} (h : t.Within text) (hf : (run n t).2 = some f) :
    IsFlawOf text f := by
  induction n generalizing t with
  | zero =>
    rw [run_zero] at hf
    cases hf
  | succ n ih =>
    rw [run_succ] at hf
    split at hf
    · cases hf
    · have hd := steps_dropStale h
      split at hf
      · next e he =>
        obtain rfl := Option.some.inj hf
        rw [he] at hd
        exact hd
      · next u hu =>
        rw [hu] at hd
        have ha := steps_advance hd
        split at hf
        · next e he =>
          obtain rfl := Option.some.inj hf
          rw [he] at ha
          exact ha
        · next v hv =>
          rw [hv] at ha
          exact ih ha hf

end Tokenizer

theorem isFlawOf_tokens {f : Flaw} (h : (tokens text).2 = some f) : IsFlawOf text f := by
  unfold tokens at h
  split at h
  · exact Tokenizer.isFlawOf_run (t := .ofText text) _ (List.suffix_refl text) h
  · obtain rfl := Option.some.inj h
    exact .inl rfl

end Conform.Yaml
