import Conform.Proofs.Json.Text
import Conform.Yaml.Data
import Mathlib.Data.List.TakeDrop
import Mathlib.Data.List.TakeWhile

/-! Words of JSON texts as scalars of a document: the tag that a plain scalar takes from such a text, and what is
read from it under that tag. -/

namespace Conform

open Number Yaml

namespace Json

/-! The characters of numbers. -/

def numerics : List Char := "0123456789+-.eE".toList

def isNumeric (c : Char) : Bool := numerics.contains c

theorem of_isNumeric {p : Char → Bool} (hp : numerics.all p = true) {c : Char} (hc : isNumeric c = true) :
    p c = true :=
  List.all_eq_true.1 hp c (List.contains_iff_mem.1 hc)

namespace Digit

variable (d : Digit)

theorem isDigit_char : Text.isDigit d.char = true := by revert d; decide

theorem hexDigit?_char : Text.hexDigit? d.char = some d.val := by revert d; decide

theorem toNat_char : d.char.toNat - 0x30 = d.val := by revert d; decide

theorem toLower_char : d.char.toLower = d.char := by revert d; decide

theorem char_ne_sign : d.char ≠ '+' ∧ d.char ≠ '-' := by revert d; decide

theorem isNumeric_char : isNumeric d.char = true := by revert d; decide

theorem char_succ_ne (d : Fin 9) : char d.succ ≠ '0' := by revert d; decide

end Digit

theorem isNumeric_of_mem_digitText {ds : List Digit} {c : Char} (h : c ∈ digitText ds) :
    isNumeric c = true := by
  obtain ⟨d, -, rfl⟩ := List.mem_map.1 h
  exact d.isNumeric_char

theorem isDigit_of_mem_digitText {ds : List Digit} {c : Char} (h : c ∈ digitText ds) :
    Text.isDigit c = true := by
  obtain ⟨d, -, rfl⟩ := List.mem_map.1 h
  exact d.isDigit_char

theorem Whole.exists_list (w : Whole) : ∃ d ds, w.list = d :: ds := by
  cases w with
  | zero => exact ⟨_, _, rfl⟩
  | digits first rest => exact ⟨_, _, rfl⟩

theorem Exponent.isNumeric_of_mem {e : Exponent} {c : Char} (h : c ∈ e.text) : isNumeric c = true := by
  rcases List.mem_cons.1 h with rfl | h
  · rw [letter]
    split <;> decide
  · rcases List.mem_append.1 h with h | h
    · obtain ⟨s, -, rfl⟩ := Option.map_eq_some_iff.1 (Option.mem_toList.1 h)
      cases s <;> decide
    · exact isNumeric_of_mem_digitText h

namespace Numeral

variable (n : Numeral)

/-- A body begins with a digit. -/
theorem exists_body : ∃ d cs, n.body = Digit.char d :: cs := by
  obtain ⟨d, ds, hw⟩ := n.whole.exists_list
  exact ⟨d, _, by rw [body, hw]; rfl⟩

variable {n}

theorem isNumeric_of_mem_body {c : Char} (h : c ∈ n.body) : isNumeric c = true := by
  rw [body, List.mem_append, List.mem_append] at h
  rcases h with (h | h) | h
  · exact isNumeric_of_mem_digitText h
  · cases hf : n.fraction with
    | none => simp [hf, fractionText] at h
    | some ds =>
      rw [hf, fractionText] at h
      rcases List.mem_cons.1 h with rfl | h
      · decide
      · exact isNumeric_of_mem_digitText h
  · cases he : n.exponent with
    | none => simp [he, exponentText] at h
    | some e =>
      rw [he] at h
      exact Exponent.isNumeric_of_mem h

theorem isNumeric_of_mem {c : Char} (h : c ∈ n.text) : isNumeric c = true := by
  rw [text, List.mem_append] at h
  rcases h with h | h
  · split at h
    · rw [List.mem_singleton.1 h]
      decide
    · cases h
  · exact isNumeric_of_mem_body h

variable (n)

theorem dropSign_body : Tag.dropSign n.body = n.body := by
  obtain ⟨d, cs, hb⟩ := n.exists_body
  rw [hb, Tag.dropSign]
  simp [d.char_ne_sign]

theorem dropSign_text : Tag.dropSign n.text = n.body := by
  rw [text]
  split
  · rfl
  · exact n.dropSign_body

theorem isNegative_text : Yaml.isNegative n.text = n.negative := by
  obtain ⟨d, cs, hb⟩ := n.exists_body
  rw [text]
  cases n.negative with
  | true => rfl
  | false =>
    simp only [Bool.false_eq_true, if_false, List.nil_append, hb]
    unfold Yaml.isNegative
    split
    · next h => exact absurd (List.cons.inj h).1 d.char_ne_sign.2
    · rfl

/-! The tag of a number. -/

theorem isGrouped_of_mem_digitText {ds : List Digit} {c : Char} (h : c ∈ digitText ds) :
    Tag.isGrouped c = true := by
  rw [Tag.isGrouped, isDigit_of_mem_digitText h, Bool.true_or]

theorem isGroup_whole (w : Whole) : Tag.isGroup (digitText w.list) = true := by
  obtain ⟨d, ds, hw⟩ := w.exists_list
  rw [hw, digitText, List.map_cons, Tag.isGroup, d.isDigit_char, Bool.true_and, List.all_eq_true]
  exact fun c hc => isGrouped_of_mem_digitText hc

theorem isExponent_text {e : Exponent} (h : e.sign.isSome = true) : Tag.isExponent e.text = true := by
  obtain ⟨s, hs⟩ := Option.isSome_iff_exists.1 h
  have hd : Tag.isRun Text.isDigit (digitText e.digits.list) = true := by
    rw [Tag.isRun, Bool.and_eq_true, List.all_eq_true]
    exact ⟨rfl, fun c hc => isDigit_of_mem_digitText hc⟩
  rw [Exponent.text, hs, Exponent.letter]
  simp only [Option.map_some, Option.toList_some, List.cons_append, List.nil_append, Tag.isExponent, hd,
    Bool.and_true]
  cases s <;> split <;> decide

/-- The digits of a fraction, and the exponent behind them. -/
theorem isFraction_text {ds : List Digit} {e : Option Exponent} (h : e.all fun e => e.sign.isSome) :
    Tag.isFraction (digitText ds ++ exponentText e) = true := by
  have hd : (digitText ds ++ exponentText e).dropWhile Tag.isGrouped = exponentText e := by
    rw [List.dropWhile_append_of_pos fun c hc => isGrouped_of_mem_digitText hc]
    cases e with
    | none => rfl
    | some e =>
      refine List.dropWhile_cons_of_neg ?_
      rw [Exponent.letter]
      split <;> decide
  rw [Tag.isFraction, hd]
  cases e with
  | none => rfl
  | some e =>
    rw [exponentText, isExponent_text (by simpa using h), Bool.or_true]

theorem body_of_fraction {ds : Digits} (h : n.fraction = some ds) :
    n.body = digitText n.whole.list ++ '.' :: (digitText ds.list ++ exponentText n.exponent) := by
  rw [body, h, fractionText, List.append_assoc, List.cons_append]

theorem span_body {ds : Digits} (h : n.fraction = some ds) :
    n.body.span (· ≠ '.') =
      (digitText n.whole.list, '.' :: (digitText ds.list ++ exponentText n.exponent)) := by
  have hw : ∀ c ∈ digitText n.whole.list, decide (c ≠ '.') = true :=
    fun c hc => decide_eq_true (ne_of_holds (isDigit_of_mem_digitText hc) (by decide))
  rw [List.span_eq_takeWhile_dropWhile, n.body_of_fraction h, List.takeWhile_append_of_pos hw,
    List.dropWhile_append_of_pos hw]
  simp

theorem isFloat_of_fraction {ds : Digits} (h : n.fraction = some ds) (hr : n.isRegular = true) :
    Tag.isFloat n.text = true := by
  have he : n.exponent.all fun e => e.sign.isSome := by
    cases hx : n.exponent with
    | none => rfl
    | some e =>
      rw [isRegular, hx] at hr
      simpa [h] using hr
  obtain ⟨d, w, hw⟩ := n.whole.exists_list
  have hs := n.span_body h
  rw [Tag.isFloat, n.dropSign_text]
  simp only [hs]
  rw [hw, digitText, List.map_cons]
  simp only
  rw [← List.map_cons, ← digitText, ← hw, isGroup_whole, isFraction_text he]
  rfl

/-- An integer is written with its digits only. -/
theorem body_of_integer (hf : n.fraction = none) (he : n.exponent = none) :
    n.body = digitText n.whole.list := by
  rw [body, hf, he, fractionText, exponentText, List.append_nil, List.append_nil]

theorem isFloat_of_integer (hf : n.fraction = none) (he : n.exponent = none) :
    Tag.isFloat n.text = false := by
  have hs : n.body.span (· ≠ '.') = (n.body, []) := by
    have hp : ∀ c ∈ n.body, decide (c ≠ '.') = true := by
      rw [n.body_of_integer hf he]
      exact fun c hc => decide_eq_true (ne_of_holds (isDigit_of_mem_digitText hc) (by decide))
    rw [List.span_eq_takeWhile_dropWhile, List.takeWhile_eq_self_iff.2 hp, List.dropWhile_eq_nil_iff.2 hp]
  rw [Tag.isFloat, n.dropSign_text]
  simp only [hs]

theorem isInt_of_integer (hf : n.fraction = none) (he : n.exponent = none) :
    Tag.isInt n.text = true := by
  have hg := isGroup_whole n.whole
  rw [Tag.isInt, n.dropSign_text, n.body_of_integer hf he]
  cases hw : n.whole with
  | zero => rfl
  | digits first rest =>
    rw [hw] at hg
    have hd : Digit.char first.succ ≠ '0' := Digit.char_succ_ne first
    simp only [Whole.list, digitText, List.map_cons] at hg ⊢
    split
    · rfl
    · next h => exact absurd (List.cons.inj h).1 hd
    · next h => exact absurd (List.cons.inj h).1 hd
    · next h => exact absurd (List.cons.inj h).1 hd
    · rw [hg, Bool.true_or]

theorem isBool_text : Tag.isBool n.text = false := by
  have text_ne (w : List Char) (hw : w.all isNumeric = false) : (w == n.text) = false := by
    refine beq_eq_false_iff_ne.2 ?_
    rintro rfl
    refine Bool.eq_false_iff.1 hw (List.all_eq_true.2 fun c => isNumeric_of_mem)
  simp (disch := decide) only [Tag.isBool, List.any_cons, List.any_nil, text_ne, Bool.or_false]

theorem core_text :
    (if n.text.length ≠ 1 && n.text.getLast? = some '\n' then n.text.dropLast else n.text) = n.text := by
  have hl : n.text.getLast? ≠ some '\n' := fun h =>
    absurd (isNumeric_of_mem (List.mem_of_getLast? h)) (by decide)
  simp [hl]

theorem resolve_of_integer (hf : n.fraction = none) (he : n.exponent = none) :
    Tag.resolve n.text = .int := by
  rw [Tag.resolve, n.core_text]
  simp [Tag.patterns, n.isBool_text, n.isFloat_of_integer hf he, n.isInt_of_integer hf he]

theorem resolve_of_fraction {ds : Digits} (h : n.fraction = some ds) (hr : n.isRegular = true) :
    Tag.resolve n.text = .float := by
  rw [Tag.resolve, n.core_text]
  simp [Tag.patterns, n.isBool_text, n.isFloat_of_fraction h hr]

end Numeral

/-! What is read from the characters of a number. -/

theorem filter_of_isNumeric {cs : List Char} (h : ∀ c ∈ cs, isNumeric c = true) :
    cs.filter (· ≠ '_') = cs :=
  List.filter_eq_self.2 fun c hc => decide_eq_true (ne_of_holds (h c hc) (by decide))

theorem map_plain {cs : List Char} (h : ∀ c ∈ cs, isNumeric c = true) : cs.map plain = cs := by
  have plain_eq {c : Char} (hc : c ∈ cs) : plain c = id c := by
    have hn := of_isNumeric (p := fun c => c.toNat < 0x7F) (by decide) (h c hc)
    rw [plain, if_pos (of_decide_eq_true hn), id_eq]
  rw [List.map_congr_left fun c => plain_eq, List.map_id]

theorem trim_of_isNumeric {cs : List Char} (h : ∀ c ∈ cs, isNumeric c = true) : trim cs = cs := by
  have hd {cs : List Char} (h : ∀ c ∈ cs, isNumeric c = true) : cs.dropWhile isSpace = cs := by
    cases cs with
    | nil => rfl
    | cons c cs =>
      refine List.dropWhile_cons_of_neg ?_
      simpa using of_isNumeric (p := fun c => !isSpace c) (by decide) (h c List.mem_cons_self)
  rw [trim, hd h, hd, List.reverse_reverse]
  simpa using h

theorem groupedDigits_digitText (ds : List Digit) : ∀ n,
    groupedDigits 10 (digitText ds) n true = some (numberOf n ds) := by
  induction ds with
  | nil => exact fun n => rfl
  | cons d ds ih =>
    intro n
    have hu : d.char ≠ '_' := ne_of_holds d.isNumeric_char (by decide)
    rw [digitText, List.map_cons, groupedDigits, if_neg hu, d.hexDigit?_char]
    simp only [d.isLt, if_true]
    exact ih _

theorem dropBaseMark_ten (cs : List Char) : dropBaseMark 10 cs = cs := by
  unfold dropBaseMark
  split
  · simp [baseLetters]
  · rfl

theorem takeSign_of_isDigit {c : Char} (h : Text.isDigit c = true) (cs : List Char) :
    takeSign (c :: cs) = (false, c :: cs) := by
  unfold takeSign
  split
  · next he =>
    obtain ⟨rfl, -⟩ := List.cons.inj he
    cases h
  · next he =>
    obtain ⟨rfl, -⟩ := List.cons.inj he
    cases h
  · rfl

/-- What is left of digits where they are read: there is nothing around them. -/
theorem takeSign_digitText (d : Digit) (ds : List Digit) :
    takeSign (trim ((digitText (d :: ds)).map plain)) = (false, digitText (d :: ds)) := by
  have hn : ∀ c ∈ digitText (d :: ds), isNumeric c = true := fun c => isNumeric_of_mem_digitText
  rw [map_plain hn, trim_of_isNumeric hn]
  exact takeSign_of_isDigit d.isDigit_char _

theorem digitCount_digitText (d : Digit) (ds : List Digit) :
    digitCount 10 (digitText (d :: ds)) = (d :: ds).length := by
  have hc : ∀ (es : List Digit) (n : Nat), leadingDigits 10 (digitText es) n true = n + es.length := by
    intro es
    induction es with
    | nil => exact fun n => rfl
    | cons e es ih =>
      intro n
      have hu : e.char ≠ '_' := ne_of_holds e.isNumeric_char (by decide)
      rw [digitText, List.map_cons, leadingDigits, if_neg hu, e.hexDigit?_char]
      simp only [Option.any_some, e.isLt, decide_true, if_true]
      rw [← digitText, ih, List.length_cons]
      omega
  have hu : d.char ≠ '_' := ne_of_holds d.isNumeric_char (by decide)
  rw [digitCount, takeSign_digitText, dropBaseMark_ten, digitText, List.map_cons, leadingDigits, if_neg hu,
    d.hexDigit?_char]
  simp only [Option.any_some, d.isLt, decide_true, if_true]
  rw [← digitText, hc, List.length_cons, Nat.zero_add, Nat.add_comm]

theorem integer?_digitText (d : Digit) (ds : List Digit) :
    integer? 10 (digitText (d :: ds)) = some (numberOf 0 (d :: ds) : Int) := by
  have hu : d.char ≠ '_' := ne_of_holds d.isNumeric_char (by decide)
  have hg : groupedDigits 10 (digitText (d :: ds)) 0 false = some (numberOf 0 (d :: ds)) := by
    rw [digitText, List.map_cons, groupedDigits, if_neg hu, d.hexDigit?_char]
    simp only [d.isLt, if_true]
    exact groupedDigits_digitText ds _
  rw [integer?, takeSign_digitText]
  simp only [dropBaseMark_ten, hg]
  rfl

theorem readDigits_digitText {d : Digit} {ds : List Digit} (h : (d :: ds).length ≤ digitLimit) :
    readDigits 10 (digitText (d :: ds)) = .ok (numberOf 0 (d :: ds)) := by
  rw [readDigits, readInteger, integer?_digitText, digitCount_digitText]
  simp only [Nat.not_lt.2 h, decide_false, Bool.and_false, Bool.false_eq_true, if_false]
  rfl

namespace Numeral

variable (n : Numeral)

theorem readInt_text (hf : n.fraction = none) (he : n.exponent = none) (hl : n.whole.list.length ≤ digitLimit) :
    readInt n.text = .ok (if n.negative then -(numberOf 0 n.whole.list : Int) else numberOf 0 n.whole.list) := by
  have hb := n.body_of_integer hf he
  rw [readInt, filter_of_isNumeric fun c => isNumeric_of_mem]
  simp only [n.dropSign_text, n.isNegative_text, hb]
  have hc : ':' ∉ digitText n.whole.list := fun h =>
    absurd (isDigit_of_mem_digitText h) (by decide)
  cases hw : n.whole with
  | zero => rfl
  | digits first rest =>
    have hd := Digit.char_succ_ne first
    rw [hw] at hc hl
    have hr := readDigits_digitText hl
    simp only [Whole.list, digitText, List.map_cons] at hc hr ⊢
    split
    · next h => cases h
    · next h => exact absurd (List.cons.inj h).1 hd
    · next h => exact absurd (List.cons.inj h).1 hd
    · next h => exact absurd (List.cons.inj h).1 hd
    · next h => exact absurd (List.cons.inj h).1 hd
    · rw [if_neg (by simpa using hc), hr]
      rfl

end Numeral

/-! Fractions. Before they are read, letters become small. -/

theorem lower_of_isNumeric {cs : List Char} (h : ∀ c ∈ cs, isNumeric c = true) :
    Text.lower cs = cs.map Char.toLower := by
  have lowerAfter_eq : ∀ (before : List Char) {cs : List Char}, (∀ c ∈ cs, isNumeric c = true) →
      Text.lowerAfter before cs = cs.map Char.toLower := by
    intro before cs
    induction cs generalizing before with
    | nil => exact fun _ => rfl
    | cons c cs ih =>
      intro h
      obtain ⟨hc, hcs⟩ := List.forall_mem_cons.1 h
      have hs : c ≠ 'Σ' := ne_of_holds hc (by decide)
      have hl := of_decide_eq_true (of_isNumeric (p := fun c => c.toNat < 0x80) (by decide) hc)
      rw [Text.lowerAfter, ih _ hcs, Text.lowerChar]
      simp [hs, hl]
  exact lowerAfter_eq [] h

theorem ungroup_of_isNumeric {cs : List Char} (h : ∀ c ∈ cs, isNumeric c = true) : ∀ {last : Char}, last ≠ '_' →
    ungroup cs last = some cs := by
  induction cs with
  | nil => intro last hl; simp [ungroup, hl]
  | cons c cs ih =>
    intro last hl
    obtain ⟨hc, hcs⟩ := List.forall_mem_cons.1 h
    have hu : c ≠ '_' := ne_of_holds hc (by decide)
    simp [ungroup, hu, hl, ih hcs hu]

theorem digitText_append (ds es : List Digit) : digitText (ds ++ es) = digitText ds ++ digitText es :=
  List.map_append

theorem natOfDigits_digitText (ds : List Digit) : natOfDigits (digitText ds) = numberOf 0 ds := by
  rw [natOfDigits, digitText, List.foldl_map, numberOf]
  simp only [Digit.toNat_char]

namespace Exponent

theorem exponent?_text (e : Exponent) : exponent? e.text = some e.value := by
  have hl : e.letter = 'e' ∨ e.letter = 'E' := by
    rw [letter]
    split
    · exact .inr rfl
    · exact .inl rfl
  have hd : (digitText e.digits.list).all Text.isDigit = true :=
    List.all_eq_true.2 fun c => isDigit_of_mem_digitText
  have hs : takeSign ((e.sign.map Sign.char).toList ++ digitText e.digits.list) =
      (decide (e.sign = some .minus), digitText e.digits.list) := by
    cases e.sign with
    | none => exact takeSign_of_isDigit e.digits.first.isDigit_char _
    | some s => cases s <;> rfl
  have hn : (digitText e.digits.list).isEmpty = false := rfl
  rw [text, exponent?, if_pos (by simpa using hl)]
  simp only [hs, hn, hd, natOfDigits_digitText, Bool.not_true, Bool.or_false, value]
  simp

end Exponent

namespace Numeral

variable (n : Numeral)

theorem scientific?_body : scientific? n.body = some n.scientific := by
  have hd {ds : List Digit} : ∀ c ∈ digitText ds, Text.isDigit c = true := fun c => isDigit_of_mem_digitText
  have hne : (digitText n.whole.list).isEmpty = false := by
    obtain ⟨d, ds, hw⟩ := n.whole.exists_list
    rw [hw]
    rfl
  have he : exponent? (exponentText n.exponent) = some ((n.exponent.map Exponent.value).getD 0) := by
    cases n.exponent with
    | none => rfl
    | some e => exact e.exponent?_text
  have ht : (exponentText n.exponent).takeWhile Text.isDigit = [] ∧
      (exponentText n.exponent).dropWhile Text.isDigit = exponentText n.exponent := by
    rcases n.exponent with _ | ⟨_ | _, sign, digits⟩ <;> exact ⟨rfl, rfl⟩
  rw [scientific?, body, List.append_assoc, List.takeWhile_append_of_pos hd, List.dropWhile_append_of_pos hd,
    scientific, fractionList]
  cases n.fraction with
  | none =>
    simp only [fractionText, List.nil_append, ht, List.append_nil, Option.map_none, Option.getD_none, hne,
      Bool.false_and]
    -- the letter of an exponent is no point
    revert he
    rcases n.exponent with _ | ⟨_ | _, sign, digits⟩ <;> intro he
    · simp [exponentText, exponent?, natOfDigits_digitText]
    · simp [exponentText, Exponent.text, Exponent.letter, natOfDigits_digitText]
      exact he
    · simp [exponentText, Exponent.text, Exponent.letter, natOfDigits_digitText]
      exact he
  | some ds =>
    have hf : fractionText (some ds) ++ exponentText n.exponent =
        '.' :: (digitText ds.list ++ exponentText n.exponent) := rfl
    have hp : Text.isDigit '.' = false := rfl
    simp only [hf, List.takeWhile_cons, List.dropWhile_cons, hp, Bool.false_eq_true, if_false, List.append_nil,
      List.takeWhile_append_of_pos hd, List.dropWhile_append_of_pos hd, ht, hne, he, Bool.false_and,
      ← digitText_append, natOfDigits_digitText, Option.map_some, Option.getD_some]
    simp [digitText]

theorem ofText?_body : Binary64.ofText? n.body = some (Binary64.ofDecimal false n.scientific) := by
  obtain ⟨d, cs, hb⟩ := n.exists_body
  have hn : ∀ c ∈ n.body, isNumeric c = true := fun c => isNumeric_of_mem_body
  have hs : takeSign n.body = (false, n.body) := by
    rw [hb]
    exact takeSign_of_isDigit d.isDigit_char cs
  have name_ne {w : List Char} (hw : w.head?.any isNumeric = false) : n.body.map Char.toLower ≠ w := by
    rintro rfl
    rw [hb, List.map_cons, d.toLower_char, List.head?_cons, Option.any_some, d.isNumeric_char] at hw
    cases hw
  have hi : ¬(n.body.map Char.toLower = "inf".toList || n.body.map Char.toLower = "infinity".toList) := by
    simp only [name_ne (w := "inf".toList) (by decide), name_ne (w := "infinity".toList) (by decide),
      decide_false, Bool.or_self, Bool.false_eq_true, not_false_eq_true]
  rw [Binary64.ofText?, map_plain hn, trim_of_isNumeric hn, ungroup_of_isNumeric hn (by decide),
    Option.bind_eq_bind, Option.bind_some, hs]
  simp only
  rw [if_neg hi, if_neg (name_ne (w := "nan".toList) (by decide)), n.scientific?_body]
  rfl

/-- A number with a small letter in front of its exponent. -/
def lowered : Numeral := { n with exponent := n.exponent.map fun e => { e with capital := false } }

theorem scientific_lowered : n.lowered.scientific = n.scientific := by
  cases h : n.exponent <;> simp [lowered, scientific, fractionList, h, Exponent.value]

theorem map_toLower_body : n.body.map Char.toLower = n.lowered.body := by
  have hd (ds : List Digit) : (digitText ds).map Char.toLower = digitText ds := by
    rw [digitText, List.map_map]
    exact List.map_congr_left fun d _ => d.toLower_char
  have hf : (fractionText n.fraction).map Char.toLower = fractionText n.fraction := by
    cases n.fraction with
    | none => rfl
    | some ds => rw [fractionText, List.map_cons, hd]; rfl
  have he : (exponentText n.exponent).map Char.toLower = exponentText n.lowered.exponent := by
    rw [lowered]
    cases n.exponent with
    | none => rfl
    | some e =>
      have hl : e.letter.toLower = 'e' := by
        rw [Exponent.letter]
        split <;> rfl
      have hs : ((e.sign.map Sign.char).toList).map Char.toLower = (e.sign.map Sign.char).toList := by
        rcases e.sign with _ | _ | _ <;> rfl
      rw [exponentText, Exponent.text, List.map_cons, List.map_append, hl, hs, hd]
      rfl
  rw [body, List.map_append, List.map_append, hd, hf, he]
  rfl

theorem plainDigits_text : plainDigits n.text = n.lowered.text := by
  have hn : ∀ c ∈ n.text, isNumeric c = true := fun c => isNumeric_of_mem
  rw [plainDigits, filter_of_isNumeric hn, lower_of_isNumeric hn, text, List.map_append, map_toLower_body,
    text, show n.lowered.negative = n.negative from rfl]
  cases n.negative <;> rfl

theorem body_ne {w : List Char} (hw : w.head?.any Text.isDigit = false) : n.body ≠ w := by
  obtain ⟨d, cs, hb⟩ := n.exists_body
  rintro rfl
  rw [hb, List.head?_cons, Option.any_some, d.isDigit_char] at hw
  cases hw

end Numeral

theorem neg_ofRatio (n d : Nat) : (Binary64.ofRatio false n d).neg = Binary64.ofRatio true n d := by
  unfold Binary64.ofRatio
  split
  · rfl
  · simp only
    rw [apply_ite Binary64.neg]
    rfl

theorem neg_ofDecimal (s : Scientific) :
    (Binary64.ofDecimal false s).neg = Binary64.ofDecimal true s := by
  unfold Binary64.ofDecimal
  simp only
  split
  · rfl
  · split
    · rfl
    · exact neg_ofRatio _ _

namespace Numeral

variable (n : Numeral)

theorem readFraction_text : readFraction n.text = .ok (Binary64.ofDecimal n.negative n.scientific) := by
  have hc : n.lowered.body.contains ':' = false := by
    refine Bool.eq_false_iff.2 fun h => ?_
    exact absurd (isNumeric_of_mem_body (List.contains_iff_mem.1 h)) (by decide)
  have he : n.lowered.text.isEmpty = false := by
    refine List.isEmpty_eq_false_iff.2 fun h => n.lowered.body_ne (w := []) rfl ?_
    rw [← dropSign_text, h]
    rfl
  have hw : isNanWord n.lowered.text = false := by
    rw [isNanWord, plainDigits_text, dropSign_text]
    exact beq_eq_false_iff_ne.2 (body_ne _ (by decide))
  have hr : readReal n.lowered.body = .ok (Binary64.ofDecimal false n.scientific) := by
    rw [readReal, readFloat, ofText?_body, scientific_lowered]
    rfl
  rw [readFraction, plainDigits_text]
  simp only [he, dropSign_text, hw, hc, hr, body_ne n.lowered (w := ".inf".toList) (by decide), isNegative_text]
  change Except.ok (if n.negative then (Binary64.ofDecimal false n.scientific).neg else _) = _
  rw [neg_ofDecimal]
  cases n.negative <;> rfl

end Numeral

/-- A regular word is read as what it says. -/
theorem Word.readText_text {w : Word} (h : w.isRegular = true) :
    readText w.text (Tag.resolve w.text) = .ok w.value := by
  cases w with
  | null => rfl
  | truth b => cases b <;> rfl
  | number n =>
    change readText n.text (Tag.resolve n.text) = .ok n.value
    rw [Numeral.value]
    cases hf : n.fraction with
    | some ds =>
      rw [n.resolve_of_fraction hf h, readText, n.readFraction_text]
      rfl
    | none =>
      have he : n.exponent = none := by
        cases hx : n.exponent with
        | none => rfl
        | some e => simp [isRegular, Numeral.isRegular, hx, hf] at h
      have hl : n.whole.list.length ≤ digitLimit := by
        simpa [isRegular, Numeral.isRegular, hf, he] using h
      rw [n.resolve_of_integer hf he, readText, n.readInt_text hf he hl, he]
      rfl

end Json

end Conform
