import LuaCore.Number.Decimal
import Mathlib.Algebra.Order.Field.Basic
import Mathlib.Algebra.Order.Field.Power
import Mathlib.Data.Rat.Cast.Order
import Mathlib.Tactic.FieldSimp
import Mathlib.Tactic.Linarith
import Mathlib.Tactic.NormNum
import Mathlib.Tactic.Ring

/-!
The significant digits of a ratio.

A positive ratio lies between two powers of ten that follow each other.  Rounded to a multiple of the
place that is thirteen below, it has fourteen digits, or it is the larger power; and no decimal of
fourteen digits is nearer to it.  Rounding it once more, to the decimals that are then left, gives the
same digits again.
-/

namespace LuaCore

/-! ### Rounding -/

section Rounding

variable {num den c : ℕ}

lemma two_mul_roundEven (num : ℕ) (hden : 0 < den) :
    2 * num ≤ 2 * (roundEven num den * den) + den ∧
      2 * (roundEven num den * den) ≤ 2 * num + den := by
  have hnum : num / den * den + num % den = num := Nat.div_add_mod' num den
  have hmod : num % den < den := Nat.mod_lt num hden
  unfold roundEven
  dsimp only
  split
  · omega
  · split
    · rw [Nat.add_mul, Nat.one_mul]
      omega
    · rcases Nat.mod_two_eq_zero_or_one (num / den) with h | h
      · rw [h, Nat.add_zero]
        omega
      · rw [h, Nat.add_mul, Nat.one_mul]
        omega

/-- What is rounded moves by one half at most. -/
lemma abs_roundEven_sub_le (num : ℕ) (hden : 0 < den) :
    |(roundEven num den : ℚ) - num / den| ≤ 1 / 2 := by
  obtain ⟨hlow, hhigh⟩ := two_mul_roundEven num hden
  have hden' : (0 : ℚ) < den := by exact_mod_cast hden
  have hlow' : (2 : ℚ) * num ≤ 2 * (roundEven num den * den) + den := by exact_mod_cast hlow
  have hhigh' : (2 : ℚ) * (roundEven num den * den) ≤ 2 * num + den := by exact_mod_cast hhigh
  have heq : (roundEven num den : ℚ) - num / den = (roundEven num den * den - num) / den := by
    field_simp
  rw [heq, abs_div, abs_of_pos hden', div_le_iff₀ hden', abs_le]
  constructor <;> linarith

/-- No integer is nearer. -/
lemma abs_roundEven_sub_le_abs (num : ℕ) (hden : 0 < den) (z : ℤ) :
    |(roundEven num den : ℚ) - num / den| ≤ |(z : ℚ) - num / den| := by
  have hhalf := abs_roundEven_sub_le num hden
  by_cases hz : (roundEven num den : ℤ) = z
  · rw [← hz]
    simp
  · have hone : (1 : ℤ) ≤ |(roundEven num den : ℤ) - z| := Int.one_le_abs (sub_ne_zero.2 hz)
    have hone' : (1 : ℚ) ≤ |(roundEven num den : ℚ) - z| := by exact_mod_cast hone
    have htriangle := abs_sub_le (roundEven num den : ℚ) (num / den) z
    rw [abs_sub_comm ((num : ℚ) / den) z] at htriangle
    linarith

/-- An integer that is nearer than one half is the one. -/
lemma roundEven_eq_of_abs_lt (hden : 0 < den) (h : |(c : ℚ) - num / den| < 1 / 2) :
    roundEven num den = c := by
  have hhalf := abs_roundEven_sub_le num hden
  have htriangle := abs_sub_le (roundEven num den : ℚ) (num / den) c
  rw [abs_sub_comm ((num : ℚ) / den) c] at htriangle
  have hlt : |(roundEven num den : ℚ) - c| < 1 := by linarith
  have hlt' : |(roundEven num den : ℤ) - c| < 1 := by exact_mod_cast hlt
  have := Int.abs_lt_one_iff.1 hlt'
  omega

end Rounding

namespace Decimal

variable {n num den d : ℕ} {k : ℤ} {q v : ℚ}

/-! ### Powers of ten -/

lemma ten_zpow_pos (k : ℤ) : (0 : ℚ) < 10 ^ k := zpow_pos (by norm_num) k

lemma ten_zpow_le_iff {j : ℤ} : (10 : ℚ) ^ j ≤ 10 ^ k ↔ j ≤ k := zpow_le_zpow_iff_right₀ (by norm_num)

lemma ten_zpow_add (j k : ℤ) : (10 : ℚ) ^ (j + k) = 10 ^ j * 10 ^ k := zpow_add₀ (by norm_num) j k

lemma log10_spec (hn : 0 < n) : 10 ^ log10 n ≤ n ∧ n < 10 ^ (log10 n + 1) := by
  fun_induction log10 n with
  | case1 n h => exact ⟨hn, by simpa using h⟩
  | case2 n h ih =>
    obtain ⟨hlow, hhigh⟩ := ih (by omega)
    rw [pow_succ, pow_succ]
    rw [pow_succ] at hhigh
    omega

/-- **A ratio lies between two powers of ten that follow each other.** -/
lemma ratioLog10_spec (hnum : 0 < num) (hden : 0 < den) :
    (10 : ℚ) ^ ratioLog10 num den ≤ num / den ∧
      (num : ℚ) / den < 10 ^ (ratioLog10 num den + 1) := by
  have hnum' : (0 : ℚ) < num := by exact_mod_cast hnum
  have hden' : (0 : ℚ) < den := by exact_mod_cast hden
  rw [le_div_iff₀ hden', div_lt_iff₀ hden', ratioLog10]
  split
  · next hle =>
    obtain ⟨hlow, hhigh⟩ := log10_spec (Nat.div_pos hle hden)
    generalize log10 (num / den) = j at hlow hhigh
    have hlow' : 10 ^ j * den ≤ num :=
      (Nat.mul_le_mul_right den hlow).trans (Nat.div_mul_le_self num den)
    have hhigh' : num < 10 ^ (j + 1) * den := (Nat.div_lt_iff_lt_mul hden).1 hhigh
    rw [zpow_natCast, ← Nat.cast_succ, zpow_natCast]
    exact ⟨by exact_mod_cast hlow', by exact_mod_cast hhigh'⟩
  · next hlt =>
    have hpos : 0 < (den - 1) / num := Nat.div_pos (by omega) hnum
    obtain ⟨hlow, hhigh⟩ := log10_spec hpos
    generalize log10 ((den - 1) / num) = j at hlow hhigh
    have hlow' : 10 ^ j * num ≤ den - 1 :=
      (Nat.mul_le_mul_right num hlow).trans (Nat.div_mul_le_self _ num)
    have hhigh' : den - 1 < 10 ^ (j + 1) * num := (Nat.div_lt_iff_lt_mul hnum).1 hhigh
    have hpow : ∀ i : ℕ, (0 : ℚ) < 10 ^ i := fun i => by positivity
    rw [show -((j : ℤ) + 1) = -((j + 1 : ℕ) : ℤ) by push_cast; ring,
      show -((j + 1 : ℕ) : ℤ) + 1 = -((j : ℕ) : ℤ) by push_cast; ring, zpow_neg, zpow_neg, zpow_natCast,
      zpow_natCast, inv_mul_le_iff₀ (hpow _), lt_inv_mul_iff₀ (hpow _)]
    have h1 : den ≤ 10 ^ (j + 1) * num := by omega
    have h2 : 10 ^ j * num < den := by omega
    exact ⟨by exact_mod_cast h1, by exact_mod_cast h2⟩

/-- A ratio is scaled by a power of ten on the side where that is an integer. -/
lemma cast_scaled (num den : ℕ) (j : ℤ) :
    ((num * Nat.pow 10 j.toNat : ℕ) : ℚ) / (den * Nat.pow 10 (-j).toNat : ℕ) =
      num / den * 10 ^ j := by
  simp only [Nat.pow_eq]
  rcases le_total 0 j with hj | hj
  · obtain ⟨m, rfl⟩ := Int.eq_ofNat_of_zero_le hj
    rw [show (-(m : ℤ)).toNat = 0 by omega, Int.toNat_natCast, zpow_natCast]
    push_cast
    ring
  · obtain ⟨m, hm⟩ := Int.eq_ofNat_of_zero_le (Int.neg_nonneg_of_nonpos hj)
    obtain rfl : j = -(m : ℤ) := by omega
    rw [show (-(m : ℤ)).toNat = 0 by omega, neg_neg, Int.toNat_natCast, zpow_neg, zpow_natCast]
    push_cast
    field_simp

/-! ### Fourteen digits -/

/-- **A decimal of at most fourteen significant digits.** -/
def IsShort (q : ℚ) : Prop := ∃ c k : ℤ, |c| < 10 ^ 14 ∧ q = c * 10 ^ k

lemma IsShort.neg (h : IsShort q) : IsShort (-q) := by
  obtain ⟨c, k, hc, rfl⟩ := h
  exact ⟨-c, k, by rwa [abs_neg], by push_cast; ring⟩

/-- **A short decimal nearest to a value**: no other is strictly nearer. -/
def IsNearest (q v : ℚ) : Prop := IsShort q ∧ ∀ p, IsShort p → |q - v| ≤ |p - v|

lemma IsNearest.neg (h : IsNearest q v) : IsNearest (-q) (-v) := by
  have hflip : ∀ p : ℚ, |p - -v| = |-p - v| := by
    intro p
    rw [← abs_neg, show -(p - -v) = -p - v by ring]
  refine ⟨h.1.neg, fun p hp => ?_⟩
  rw [hflip, hflip, neg_neg]
  exact h.2 (-p) hp.neg

lemma isNearest_zero : IsNearest 0 0 :=
  ⟨⟨0, 0, by norm_num, by norm_num⟩, fun p _ => by simp⟩

/-- A decimal that is the nearest of its place, thirteen below the first digit of a value, is the nearest
of all short ones: a short decimal of a lower place is too small to be nearer than the power of ten. -/
lemma abs_sub_le_of_isShort (hlow : (10 : ℚ) ^ k ≤ v)
    (hplace : ∀ z : ℤ, |q - v| ≤ |z * 10 ^ (k - 13) - v|) {p : ℚ} (hp : IsShort p) :
    |q - v| ≤ |p - v| := by
  obtain ⟨m, j, hm, rfl⟩ := hp
  rcases le_or_gt (k - 13) j with hj | hj
  · obtain ⟨i, hi⟩ := Int.eq_ofNat_of_zero_le (Int.sub_nonneg_of_le hj)
    obtain rfl : j = i + (k - 13) := by omega
    have hz := hplace (m * 10 ^ i)
    rw [ten_zpow_add, zpow_natCast, ← mul_assoc]
    exact_mod_cast hz
  · have hten : ((10 ^ 13 : ℤ) : ℚ) * 10 ^ (k - 13) = 10 ^ k := by
      rw [show k = 13 + (k - 13) by ring, ten_zpow_add]
      norm_num
    have hpower := hplace (10 ^ 13)
    rw [hten, abs_of_nonpos (sub_nonpos.2 hlow)] at hpower
    have hm' : (m : ℚ) < 10 ^ (14 : ℤ) := by exact_mod_cast (abs_lt.1 hm).2
    have hsmall : (m : ℚ) * 10 ^ j < 10 ^ k := by
      calc (m : ℚ) * 10 ^ j < 10 ^ (14 : ℤ) * 10 ^ j := by gcongr
        _ = 10 ^ (14 + j) := (ten_zpow_add 14 j).symm
        _ ≤ 10 ^ k := ten_zpow_le_iff.2 (by omega)
    have hbelow := neg_le_abs (m * 10 ^ j - v)
    linarith

/-- The digits before a carry. -/
def leadingDigits (num den : ℕ) : ℕ :=
  roundEven (num * Nat.pow 10 ((precision : ℤ) - 1 - ratioLog10 num den).toNat)
    (den * Nat.pow 10 (-((precision : ℤ) - 1 - ratioLog10 num den)).toNat)

lemma significant_eq (num den : ℕ) : significant num den =
    if leadingDigits num den = 10 ^ 14 then (10 ^ 13, ratioLog10 num den + 1)
    else (leadingDigits num den, ratioLog10 num den) := rfl

/-- They are the value in units of the last place, rounded. -/
lemma abs_leadingDigits_sub_le (num : ℕ) (hden : 0 < den) :
    |(leadingDigits num den : ℚ) - num / den * 10 ^ (13 - ratioLog10 num den)| ≤ 1 / 2 ∧
    ∀ z : ℤ, |(leadingDigits num den : ℚ) - num / den * 10 ^ (13 - ratioLog10 num den)| ≤
      |(z : ℚ) - num / den * 10 ^ (13 - ratioLog10 num den)| := by
  have hscaled : 0 < den * Nat.pow 10 (-((precision : ℤ) - 1 - ratioLog10 num den)).toNat :=
    Nat.mul_pos hden (Nat.pow_pos (by decide))
  have hplace : (precision : ℤ) - 1 - ratioLog10 num den = 13 - ratioLog10 num den := by
    rw [show (precision : ℤ) = 14 from rfl]
    ring
  have hhalf := abs_roundEven_sub_le
    (num * Nat.pow 10 ((precision : ℤ) - 1 - ratioLog10 num den).toNat) hscaled
  have hnearest := abs_roundEven_sub_le_abs
    (num * Nat.pow 10 ((precision : ℤ) - 1 - ratioLog10 num den).toNat) hscaled
  rw [cast_scaled] at hhalf hnearest
  rw [← hplace]
  exact ⟨hhalf, hnearest⟩

/-- The value, in units of the last place. -/
lemma scaled_bounds (hnum : 0 < num) (hden : 0 < den) :
    (10 : ℚ) ^ 13 ≤ num / den * 10 ^ (13 - ratioLog10 num den) ∧
      num / den * 10 ^ (13 - ratioLog10 num den) < (10 : ℚ) ^ 14 := by
  obtain ⟨hlow, hhigh⟩ := ratioLog10_spec hnum hden
  generalize ratioLog10 num den = k at hlow hhigh
  constructor
  · calc (10 : ℚ) ^ 13 = 10 ^ k * 10 ^ (13 - k) := by rw [← ten_zpow_add, add_sub_cancel]; norm_num
      _ ≤ num / den * 10 ^ (13 - k) := by gcongr
  · calc (num : ℚ) / den * 10 ^ (13 - k) < 10 ^ (k + 1) * 10 ^ (13 - k) := by gcongr
      _ = 10 ^ 14 := by rw [← ten_zpow_add, show k + 1 + (13 - k) = 14 by ring]; norm_num

lemma leadingDigits_bounds (hnum : 0 < num) (hden : 0 < den) :
    10 ^ 13 ≤ leadingDigits num den ∧ leadingDigits num den ≤ 10 ^ 14 := by
  obtain ⟨hlow, hhigh⟩ := scaled_bounds hnum hden
  have hhalf := abs_le.1 (abs_leadingDigits_sub_le num hden).1
  constructor
  · have h : (10 ^ 13 : ℚ) < leadingDigits num den + 1 := by linarith
    have h' : 10 ^ 13 < leadingDigits num den + 1 := by exact_mod_cast h
    omega
  · have h : (leadingDigits num den : ℚ) < 10 ^ 14 + 1 := by linarith
    have h' : leadingDigits num den < 10 ^ 14 + 1 := by exact_mod_cast h
    omega

/-- No multiple of the last place is nearer. -/
lemma abs_leadingDigits_mul_sub_le (num : ℕ) (hden : 0 < den) (z : ℤ) :
    |leadingDigits num den * (10 : ℚ) ^ (ratioLog10 num den - 13) - num / den| ≤
      |(z : ℚ) * 10 ^ (ratioLog10 num den - 13) - num / den| := by
  have hnearest := (abs_leadingDigits_sub_le num hden).2 z
  generalize ratioLog10 num den = k at hnearest ⊢
  have hpos := ten_zpow_pos (k - 13)
  have hback : ∀ x : ℚ, x * 10 ^ (k - 13) - num / den =
      (x - num / den * 10 ^ (13 - k)) * 10 ^ (k - 13) := by
    intro x
    rw [sub_mul, mul_assoc, ← ten_zpow_add, show 13 - k + (k - 13) = 0 by ring, zpow_zero, mul_one]
  rw [hback, hback, abs_mul, abs_mul]
  gcongr

/-- **The significant digits of a ratio**: there are fourteen of them, and no short decimal is nearer. -/
lemma significant_spec (hnum : 0 < num) (hden : 0 < den) :
    10 ^ 13 ≤ (significant num den).1 ∧ (significant num den).1 < 10 ^ 14 ∧
      IsNearest ((significant num den).1 * 10 ^ ((significant num den).2 - 13)) (num / den) := by
  obtain ⟨hlow, hhigh⟩ := leadingDigits_bounds hnum hden
  have hnearest : ∀ p, IsShort p →
      |leadingDigits num den * (10 : ℚ) ^ (ratioLog10 num den - 13) - num / den| ≤ |p - num / den| :=
    fun p => abs_sub_le_of_isShort (ratioLog10_spec hnum hden).1
      (abs_leadingDigits_mul_sub_le num hden)
  have hshort : ∀ (c : ℕ) (k : ℤ), c < 10 ^ 14 → IsShort (c * 10 ^ k) := by
    intro c k hc
    refine ⟨c, k, ?_, by push_cast; rfl⟩
    rw [abs_of_nonneg (by omega)]
    omega
  rw [significant_eq]
  split
  · next hcarry =>
    -- the carry makes it the power of ten, with the same value
    have hvalue : ((10 ^ 13 : ℕ) : ℚ) * 10 ^ (ratioLog10 num den + 1 - 13) =
        leadingDigits num den * 10 ^ (ratioLog10 num den - 13) := by
      rw [hcarry, show ratioLog10 num den + 1 - 13 = 1 + (ratioLog10 num den - 13) by ring,
        ten_zpow_add]
      push_cast
      ring
    refine ⟨le_rfl, by norm_num, hshort _ _ (by norm_num), fun p hp => ?_⟩
    dsimp only
    rw [hvalue]
    exact hnearest p hp
  · next hcarry =>
    have hlt : leadingDigits num den < 10 ^ 14 := by omega
    exact ⟨hlow, hlt, hshort _ _ hlt, hnearest⟩

/-- **Rounding to the decimals that are left gives the same digits.** -/
lemma roundEven_decimals (hden : 0 < den) (hd : (d : ℤ) = 13 - (significant num den).2) :
    roundEven (num * Nat.pow 10 d) den = (significant num den).1 := by
  have hhalf := (abs_leadingDigits_sub_le num hden).1
  rw [significant_eq] at hd ⊢
  split at hd
  · next hcarry =>
    -- one decimal less: what was within half of a unit is within a twentieth
    rw [if_pos hcarry]
    apply roundEven_eq_of_abs_lt hden
    dsimp only at hd ⊢
    have hscaled : (num : ℚ) / den * 10 ^ (13 - ratioLog10 num den) =
        (num * 10 ^ d : ℕ) / den * 10 := by
      rw [show 13 - ratioLog10 num den = d + 1 by omega, ten_zpow_add, zpow_natCast, zpow_one]
      push_cast
      ring
    rw [hcarry, hscaled, abs_le] at hhalf
    rw [Nat.pow_eq, abs_lt]
    push_cast at hhalf ⊢
    constructor <;> linarith
  · next hcarry =>
    rw [if_neg hcarry, leadingDigits, show (precision : ℤ) = 14 from rfl]
    dsimp only at hd ⊢
    rw [show (14 : ℤ) - 1 - ratioLog10 num den = d by omega, Int.toNat_natCast,
      show (-(d : ℤ)).toNat = 0 by omega]
    simp

end Decimal

end LuaCore
