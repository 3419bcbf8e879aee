import Conform.Proofs.Value.Json
import Mathlib.Tactic.FieldSimp
import Mathlib.Tactic.NormNum

/-! Whole numbers among all numbers. A number that is finite and real counts a rational number: an integer or a
fraction itself, a double its dyadic value, a decimal its coefficient times a power of ten. It is an integer
exactly if this rational number is whole, whatever the size of its coefficient and its exponent.

A decimal is rounded to a whole number and compared with it. Comparing exact numbers decides whether they count
the same, and rounding leaves those as they are that are whole already. -/

namespace Conform

namespace Number

/-! Comparing exact numbers. -/

/-- What an exact number counts. -/
def Exact.value (x : Exact) : ℚ := x.numerator / x.denominator * 10 ^ x.tens

theorem compareScaled_eq_iff {x y : ℤ} {k : ℕ} : compareScaled x k y = .eq ↔ x * 10 ^ k = y := by
  unfold compareScaled
  split
  · next hx => rw [compare_eq_iff_eq, hx, zero_mul]
  · next hx =>
    split
    · next hk =>
      have hne : x * 10 ^ k ≠ y := by
        rintro rfl
        have hpow : 2 ^ k ≤ (x * 10 ^ k).natAbs := by
          rw [Int.natAbs_mul, Int.natAbs_pow]
          exact (Nat.pow_le_pow_left (by decide) k).trans (Nat.le_mul_of_pos_left _ (Int.natAbs_pos.2 hx))
        have hlog := (Nat.le_log2 (by have := Nat.two_pow_pos k; omega)).2 hpow
        omega
      refine iff_of_false ?_ hne
      split <;> nofun
    · rw [compare_eq_iff_eq]
      simp

theorem Exact.compare_eq_iff {a b : Exact} (ha : a.denominator ≠ 0) (hb : b.denominator ≠ 0) :
    a.compare b = .eq ↔ a.value = b.value := by
  have scaled {m n : ℤ} (h : n ≤ m) : (10 : ℚ) ^ m = 10 ^ (m - n).toNat * 10 ^ n := by
    rw [← zpow_natCast, ← zpow_add₀ (by norm_num)]
    congr 1
    omega
  have ha' : (a.denominator : ℚ) ≠ 0 := Nat.cast_ne_zero.2 ha
  have hb' : (b.denominator : ℚ) ≠ 0 := Nat.cast_ne_zero.2 hb
  have hten (m : ℤ) : (10 : ℚ) ^ m ≠ 0 := zpow_ne_zero m (by norm_num)
  unfold compare value
  split
  · next h =>
    rw [compareScaled_eq_iff, ← Int.cast_inj (α := ℚ), scaled h]
    have := hten b.tens
    push_cast
    field_simp
  · next h =>
    rw [Ordering.swap_eq_eq, compareScaled_eq_iff, ← Int.cast_inj (α := ℚ), scaled (Int.le_of_not_le h)]
    have := hten a.tens
    push_cast
    field_simp
    exact eq_comm

/-! Rounding. -/

theorem roundHalfEven_mul (n : ℕ) {d : ℕ} (hd : 0 < d) : roundHalfEven (n * d) d = n := by
  simp [roundHalfEven, Nat.mul_div_cancel n hd, hd]

namespace Decimal

/-- What is whole already is not changed by rounding, also where the power is not computed. -/
theorem dropPlaces_mul (n k : ℕ) : dropPlaces (n * 10 ^ k) k = n := by
  unfold dropPlaces
  split
  · next hk =>
    by_contra hn
    have hpow : 2 ^ k ≤ n * 10 ^ k :=
      (Nat.pow_le_pow_left (by decide) k).trans (Nat.le_mul_of_pos_left _ (by omega))
    have hlog := (Nat.le_log2 (by have := Nat.two_pow_pos k; omega)).2 hpow
    omega
  · exact roundHalfEven_mul n (Nat.pow_pos (by decide))

end Decimal

end Number

open Number

/-- A size with its sign. -/
def signed (negative : Bool) (q : ℚ) : ℚ := if negative then -q else q

theorem signed_inj {s : Bool} {p q : ℚ} : signed s p = signed s q ↔ p = q := by
  cases s <;> simp [signed]

theorem exists_signed_eq_intCast_iff {s : Bool} {q : ℚ} :
    (∃ n : ℤ, signed s q = n) ↔ ∃ n : ℤ, q = n := by
  cases s with
  | false => rfl
  | true =>
    refine ⟨fun ⟨n, hn⟩ => ⟨-n, ?_⟩, fun ⟨n, hn⟩ => ⟨-n, ?_⟩⟩
    · rw [Int.cast_neg, ← hn, signed, if_pos rfl, neg_neg]
    · rw [Int.cast_neg, ← hn, signed, if_pos rfl]

namespace Value

/-- The rational number that a value counts, if it is a finite real number. -/
def rational? : Value → Option ℚ
  | .int n => some n
  | .float (.finite s m e) => some (signed s (m * 2 ^ e))
  | .decimal (.finite s c e) => some (signed s (c * 10 ^ e))
  | .fraction q => some q
  | _ => none

end Value

/-! Decimals. -/

namespace Number.Decimal

theorem value_exact (s : Bool) (c : ℕ) (e : ℤ) : (exact s c e).value = signed s (c * 10 ^ e) := by
  cases s <;> simp [exact, Exact.value, signed]

theorem isWhole?_of_toIntegral {s t : Bool} {c r : ℕ} {e f : ℤ}
    (h : (finite s c e).toIntegral = .finite t r f) :
    (finite s c e).isWhole? = some (decide (signed s (c * 10 ^ e) = signed t (r * 10 ^ f))) := by
  have hc := Exact.compare_eq_iff (a := exact s c e) (b := exact t r f) Nat.one_ne_zero Nat.one_ne_zero
  rw [value_exact, value_exact] at hc
  simp only [isWhole?, isFinite, if_true, h, Amount.equal?, Amount.quantity?, Amount.isSignaling, isSignaling,
    Quantity.ofDecimal, Quantity.equal, Bool.or_self, Bool.false_eq_true, if_false, ← hc]
  rfl

theorem toIntegral_of_nonneg {e : ℤ} (s : Bool) (c : ℕ) (he : 0 ≤ e) :
    (finite s c e).toIntegral = .finite s c e := if_pos he

theorem toIntegral_of_neg {e : ℤ} (s : Bool) (c : ℕ) (he : e < 0) :
    (finite s c e).toIntegral = .finite s (dropPlaces c (-e).toNat) 0 := if_neg (Int.not_le.2 he)

/-- Rounding keeps what a decimal with places counts exactly if that is whole. -/
theorem eq_dropPlaces_iff {c : ℕ} {e : ℤ} (he : e < 0) :
    (c : ℚ) * 10 ^ e = dropPlaces c (-e).toNat ↔ ∃ n : ℤ, (c : ℚ) * 10 ^ e = n := by
  refine ⟨fun h => ⟨dropPlaces c (-e).toNat, by rw [h, Int.cast_natCast]⟩, fun ⟨n, hn⟩ => ?_⟩
  obtain ⟨m, rfl⟩ : ∃ m : ℕ, n = m := by
    refine Int.eq_ofNat_of_zero_le ?_
    rw [← Int.cast_nonneg_iff (R := ℚ), ← hn]
    exact mul_nonneg (Nat.cast_nonneg c) (zpow_nonneg (by norm_num) e)
  have hpow : (10 : ℚ) ^ e * 10 ^ (-e).toNat = 1 := by
    rw [← zpow_natCast, ← zpow_add₀ (by norm_num), show e + ((-e).toNat : ℤ) = 0 by omega, zpow_zero]
  have hc : c = m * 10 ^ (-e).toNat := by
    rw [← Nat.cast_inj (R := ℚ)]
    push_cast
    rw [← mul_one (c : ℚ), ← hpow, ← mul_assoc, hn, Int.cast_natCast]
  rw [hn, Int.cast_natCast, hc, dropPlaces_mul]

theorem exists_mul_zpow_eq_intCast (b m : ℕ) {e : ℤ} (he : 0 ≤ e) : ∃ n : ℤ, (m : ℚ) * b ^ e = n := by
  obtain ⟨k, rfl⟩ := Int.eq_ofNat_of_zero_le he
  exact ⟨m * b ^ k, by simp⟩

/-- Whether a decimal is whole always has an answer, the right one. -/
theorem isWhole?_spec (d : Decimal) :
    ∃ b, d.isWhole? = some b ∧ (b = true ↔ ∃ n : ℤ, (Value.decimal d).rational? = some (n : ℚ)) := by
  cases d with
  | finite s c e =>
    simp only [Value.rational?, Option.some.injEq, exists_signed_eq_intCast_iff]
    rcases le_or_gt 0 e with he | he
    · refine ⟨_, isWhole?_of_toIntegral (toIntegral_of_nonneg s c he), ?_⟩
      exact iff_of_true (decide_eq_true rfl) (exists_mul_zpow_eq_intCast 10 c he)
    · refine ⟨_, isWhole?_of_toIntegral (toIntegral_of_neg s c he), ?_⟩
      rw [decide_eq_true_eq, signed_inj, zpow_zero, mul_one]
      exact eq_dropPlaces_iff he
  | infinite s => exact ⟨false, rfl, by simp [Value.rational?]⟩
  | nan s q p => exact ⟨false, rfl, by simp [Value.rational?]⟩

end Number.Decimal

/-! All values. -/

namespace Value

/-- A finite double counts its significand times its power of two. -/
theorem rational?_float (s : Bool) (m : ℕ) (e : ℤ) :
    (float (.finite s m e)).rational? = (float (.finite s m e)).number? := by
  have hpow : (2 : ℚ) ^ e = 2 ^ e.toNat / 2 ^ (-e).toNat := by
    rw [← zpow_natCast, ← zpow_natCast, ← zpow_sub₀ two_ne_zero, Int.toNat_sub_toNat_neg]
  rw [rational?, number?, Binary64.exact, Rat.mkRat_eq_div, hpow]
  cases s <;> simp [signed, mul_div_assoc, neg_div]

theorem isInteger_iff_rational? (v : Value) :
    v.isInteger = true ↔ ∃ n : ℤ, v.rational? = some (n : ℚ) := by
  cases v with
  | int n => simp [isInteger, rational?]
  | float x =>
    cases x with
    | finite s m e => rw [rational?_float, isInteger, isWhole_iff]
    | infinite s => simp [isInteger, Binary64.isWhole, rational?]
    | nan => simp [isInteger, Binary64.isWhole, rational?]
  | decimal d =>
    obtain ⟨b, hb, h⟩ := Decimal.isWhole?_spec d
    rw [isInteger, hb, beq_iff_eq, Option.some.injEq, h]
  | fraction q =>
    simp only [isInteger, beq_iff_eq, rational?, Option.some.injEq]
    constructor
    · intro h
      exact ⟨q.num, ((Rat.den_eq_one_iff q).1 h).symm⟩
    · rintro ⟨n, rfl⟩
      exact Rat.den_intCast n
  | _ => simp [isInteger, rational?]

theorem isNumber_of_rational? {v : Value} {q : ℚ} (h : v.rational? = some q) : v.isNumber = true := by
  unfold rational? at h
  split at h <;> first | rfl | cases h

end Value

/-- A value is an integer exactly if it counts a rational number that is whole, and every integer is a number. No
other value is one, and to tell so never takes an answer that a comparison does not have. -/
theorem Kind.admits_integer_iff (v : Value) :
    (Kind.admits? (.kind .integer) v = some true ↔
      Kind.admits? (.kind .number) v = some true ∧ ∃ n : ℤ, v.rational? = some (n : ℚ)) ∧
    (Kind.admits? (.kind .integer) v = some false ↔ ¬ ∃ n : ℤ, v.rational? = some (n : ℚ)) ∧
    ∀ d : Decimal, d.isWhole?.isSome = true := by
  have hi := v.isInteger_iff_rational?
  simp only [admits?, admits, Option.some.injEq, ← Bool.not_eq_true]
  refine ⟨⟨fun h => ?_, fun h => hi.2 h.2⟩, not_congr hi, fun d => ?_⟩
  · obtain ⟨n, hn⟩ := hi.1 h
    exact ⟨Value.isNumber_of_rational? hn, n, hn⟩
  · obtain ⟨b, hb, -⟩ := d.isWhole?_spec
    rw [hb, Option.isSome_some]

end Conform
