import Conform.Proofs.Value.Equality
import Conform.Proofs.Value.Keys
import Conform.Value.Kind
import Mathlib.Data.List.Forall2

/-! JSON values among all values. Numbers count what they count, however they are written: `3.0` is an
integer and equals `3`. A truth value is no number. -/

namespace Conform.Value

open Number

/-- Whether a value is a JSON value: lists and dictionaries over plain strings, finite numbers, truth values
and null. -/
def isJson (v : Value) : Bool :=
  v.everywhere fun
    | .null => true
    | .bool _ => true
    | .int _ => true
    | .float (.finite ..) => true
    | .str _ => true
    | .seq .list _ => true
    | .map .dict es => es.all (fun e => e.1.type == .str) && areDistinct (es.map (·.1))
    | _ => false

/-- What a JSON number counts. -/
def number? : Value → Option Rat
  | .int n => some n
  | .float (.finite s m e) =>
    some (mkRat (Binary64.exact s m e).numerator (Binary64.exact s m e).denominator)
  | _ => none

/-- Whether a JSON value is of the type with the given name. -/
def HasJsonType (v : Value) : String → Prop
  | "null" => v = .null
  | "boolean" => ∃ b, v = .bool b
  | "integer" => ∃ n : Int, v.number? = some (n : Rat)
  | "number" => ∃ q, v.number? = some q
  | "string" => ∃ s, v = .str s
  | "array" => ∃ xs, v = .list xs
  | "object" => ∃ es, v = .dict es
  | _ => False

/-- Equality of JSON values. The members of an object have no order. -/
inductive JsonEqual : Value → Value → Prop
  | null : JsonEqual .null .null
  | bool (b : Bool) : JsonEqual (.bool b) (.bool b)
  | number {v w : Value} {q : Rat} : v.number? = some q → w.number? = some q → JsonEqual v w
  | string {v w : Value} {s : String} : v.string? = some s → w.string? = some s → JsonEqual v w
  | array {xs ys : List Value} : List.Forall₂ JsonEqual xs ys → JsonEqual (.list xs) (.list ys)
  | object {es es' fs : Entries} : es.Perm es' → es'.map (·.1) = fs.map (·.1) →
      List.Forall₂ JsonEqual (es'.map (·.2)) (fs.map (·.2)) → JsonEqual (.dict es) (.dict fs)


/-! A JSON value, by its form. -/

theorem eq_dict_of_isJson {v : Value} {es : Entries} (hv : v.isJson = true)
    (h : v.entries? = some es) : v = .dict es := by
  obtain ⟨form, rfl⟩ := exists_eq_map h
  have := here_of_everywhere hv
  cases form <;> simp_all

theorem eq_list_of_isJson {v : Value} {e : Elements} (hv : v.isJson = true)
    (h : v.elements? = some e) : ∃ xs, v = .list xs ∧ e = .stored xs := by
  cases v with
  | seq form xs =>
    obtain rfl := Option.some.inj h
    have := here_of_everywhere hv
    cases form <;> simp_all
  | range start stop step => exact absurd (here_of_everywhere hv) (by simp)
  | _ => simp [elements?] at h

theorem key_of_isJson {es : Entries} (hv : (dict es).isJson = true) {e : Value × Value} (he : e ∈ es) :
    ∃ s, e.1 = .str s := by
  have := here_of_everywhere hv
  simp only [Bool.and_eq_true, List.all_eq_true, beq_iff_eq] at this
  exact eq_str_of_type (this.1 e he)

theorem areDistinct_of_isJson {es : Entries} (hv : (dict es).isJson = true) :
    areDistinct (es.map (·.1)) = true := by
  have := here_of_everywhere hv
  simp only [Bool.and_eq_true] at this
  exact this.2

theorem isQuiet_of_isJson {v : Value} (hv : v.isJson = true) : v.isQuiet = true := by
  refine everywhere_mono (fun x hx => ?_) hv
  cases x <;> simp_all [isSignaling]

/-! Kinds and types. A double is whole if the powers of two in its denominator cancel. -/

theorem exists_mkRat_eq_iff {a : Int} {d : Nat} (hd : d ≠ 0) :
    (∃ n : Int, mkRat a d = (n : Rat)) ↔ (d : Int) ∣ a := by
  simp only [← Rat.mkRat_one, Rat.mkRat_eq_iff hd Nat.one_ne_zero]
  refine ⟨fun h => ?_, fun h => ?_⟩
  · obtain ⟨n, hn⟩ := h
    exact ⟨n, by simpa [Int.mul_comm] using hn⟩
  · obtain ⟨n, rfl⟩ := h
    exact ⟨n, by simp [Int.mul_comm]⟩

theorem isWhole_iff {s : Bool} {m : Nat} {e : Int} :
    (Binary64.finite s m e).isWhole = true ↔ ∃ n : Int, (float (.finite s m e)).number? = some (n : Rat) := by
  have hd : Nat.pow 2 (-e).toNat ≠ 0 := Nat.ne_of_gt (Nat.pow_pos Nat.two_pos)
  have one : Nat.pow 2 0 = 1 := rfl
  simp only [number?, Option.some.injEq, Binary64.exact]
  rw [exists_mkRat_eq_iff hd, Binary64.isWhole, beq_iff_eq]
  rcases Int.le_total 0 e with he | he
  · have : (-e).toNat = 0 := by omega
    simp [this, Nat.mod_one]
  · have : e.toNat = 0 := by omega
    rw [← Nat.dvd_iff_mod_eq_zero, ← Int.natCast_dvd_natCast, this, one]
    cases s <;> simp

theorem isInteger_iff {v : Value} (hv : v.isJson = true) :
    v.isInteger = true ↔ ∃ n : Int, v.number? = some (n : Rat) := by
  cases v with
  | int n => simp [isInteger, number?]
  | float x =>
    cases x with
    | finite s m e => exact isWhole_iff
    | _ => exact absurd (here_of_everywhere hv) (by simp)
  | decimal d => exact absurd (here_of_everywhere hv) (by simp)
  | fraction q => exact absurd (here_of_everywhere hv) (by simp)
  | _ => simp [isInteger, number?]

theorem isNumber_iff {v : Value} (hv : v.isJson = true) :
    v.isNumber = true ↔ ∃ q, v.number? = some q := by
  cases v with
  | float x =>
    cases x with
    | finite s m e => simp [isNumber, number?]
    | _ => exact absurd (here_of_everywhere hv) (by simp)
  | decimal d => exact absurd (here_of_everywhere hv) (by simp)
  | fraction q => exact absurd (here_of_everywhere hv) (by simp)
  | _ => simp [isNumber, number?]

theorem isSome_string?_iff {v : Value} (hv : v.isJson = true) :
    v.string?.isSome = true ↔ ∃ s, v = .str s := by
  cases v with
  | kind k => exact absurd (here_of_everywhere hv) (by simp)
  | _ => simp [string?]

theorem type_eq_bool_iff {v : Value} : v.type = .bool ↔ ∃ b, v = .bool b := by
  refine ⟨fun h => ?_, fun h => ?_⟩
  · unfold type at h
    split at h <;> simp_all
  · obtain ⟨b, rfl⟩ := h
    rfl

/-! A literal that is a string, a truth value or null accepts what equals it, which is itself. -/

/-- Whether a value is a plain string, a truth value or null. -/
def isPlain (v : Value) : Bool := v.type == .str || v.type == .bool || v.type == .null

theorem isPlain_iff {v : Value} :
    v.isPlain = true ↔ (∃ s, v = .str s) ∨ (∃ b, v = .bool b) ∨ v = .null := by
  constructor
  · intro h
    simp only [isPlain, Bool.or_eq_true, beq_iff_eq] at h
    unfold type at h
    split at h <;> simp_all
  · rintro (⟨s, rfl⟩ | ⟨b, rfl⟩ | rfl) <;> rfl

theorem isQuiet_of_isPlain {v : Value} (hv : v.isPlain = true) : v.isQuiet = true := by
  rcases isPlain_iff.1 hv with ⟨s, rfl⟩ | ⟨b, rfl⟩ | rfl
  · rfl
  · rfl
  · rfl

theorem jsonEqual_iff_of_isPlain {v w : Value} (hv : v.isJson = true) (hw : w.isPlain = true) :
    v.JsonEqual w ↔ v = w := by
  rcases isPlain_iff.1 hw with ⟨s, rfl⟩ | ⟨b, rfl⟩ | rfl
  · refine ⟨fun h => ?_, fun h => ?_⟩
    · cases h with
      | number _ h => simp [number?] at h
      | string h hs =>
        obtain rfl := Option.some.inj hs
        cases v with
        | str t => exact congrArg _ (Option.some.inj h)
        | kind k => exact absurd (here_of_everywhere hv) (by simp)
        | _ => simp [string?] at h
    · obtain rfl := h
      exact .string rfl rfl
  · refine ⟨fun h => ?_, fun h => ?_⟩
    · cases h with
      | bool => rfl
      | number _ h => simp [number?] at h
      | string _ h => simp [string?] at h
    · obtain rfl := h
      exact .bool b
  · refine ⟨fun h => ?_, fun h => ?_⟩
    · cases h with
      | null => rfl
      | number _ h => simp [number?] at h
      | string _ h => simp [string?] at h
    · obtain rfl := h
      exact .null

theorem equal?_iff_of_isPlain {v w : Value} (hw : w.isPlain = true) :
    (v.type = w.type ∧ v.equal? w = some true) ↔ v = w := by
  refine ⟨fun h => ?_, fun h => ?_⟩
  · obtain ⟨ht, he⟩ := h
    have hv : v.isPlain = true := by simpa only [isPlain, ht] using hw
    rcases isPlain_iff.1 hv with ⟨s, rfl⟩ | ⟨b, rfl⟩ | rfl
    · rcases isPlain_iff.1 hw with ⟨t, rfl⟩ | ⟨c, rfl⟩ | rfl
      · obtain rfl : t = s := by simpa [equal?, string?] using he
        rfl
      · cases ht
      · cases ht
    · rcases isPlain_iff.1 hw with ⟨t, rfl⟩ | ⟨c, rfl⟩ | rfl
      · cases ht
      · cases b <;> cases c
        · rfl
        · exact absurd he (by decide)
        · exact absurd he (by decide)
        · rfl
      · cases ht
    · rcases isPlain_iff.1 hw with ⟨t, rfl⟩ | ⟨c, rfl⟩ | rfl
      · cases ht
      · cases ht
      · rfl
  · obtain rfl := h
    refine ⟨rfl, ?_⟩
    rcases isPlain_iff.1 hw with ⟨s, rfl⟩ | ⟨b, rfl⟩ | rfl
    · simp [equal?, string?]
    · cases b <;> rfl
    · rfl

end Conform.Value
