import LuaCore.Number.Basic
import Mathlib.Algebra.Order.Field.Rat
import Mathlib.Order.WithBot
import Mathlib.Tactic.FieldSimp
import Mathlib.Tactic.Linarith
import Mathlib.Tactic.NormNum
import Mathlib.Tactic.Ring

/-!
The exact values of numbers.

The three fields of a double, its sign, exponent and fraction, give it a value: a rational, an infinity,
or none if it is a NaN.  The order of doubles goes by ranks, which are the bits read as integers, and
the conversions to words go by whole numbers of units; both are tied to the values here.  Main
statements: `Double.value_lt_iff` for ranks, and `Double.toWord?_eq_some_iff` with its companions for
the ceiling and the floor.
-/

namespace LuaCore

/-- The rationals with an infinity at either end. -/
abbrev Extended := WithBot (WithTop ℚ)

namespace Extended

/-- A rational as an extended one. -/
def ofRat (q : ℚ) : Extended := ((q : WithTop ℚ) : WithBot (WithTop ℚ))

variable {p q : ℚ}

@[simp] lemma ofRat_lt_ofRat : ofRat p < ofRat q ↔ p < q := by simp [ofRat]

@[simp] lemma ofRat_le_ofRat : ofRat p ≤ ofRat q ↔ p ≤ q := by simp [ofRat]

@[simp] lemma ofRat_inj : ofRat p = ofRat q ↔ p = q := by simp [ofRat]

@[simp] lemma ofRat_lt_top : ofRat q < ⊤ := WithBot.coe_lt_coe.2 (WithTop.coe_lt_top q)

@[simp] lemma bot_lt_ofRat : ⊥ < ofRat q := WithBot.bot_lt_coe _

end Extended

namespace Double

variable {x y : Double} {a b : Extended} {i : Int64} {n : Int}

/-! ### Fields -/

/-- The highest bit. -/
def signField (x : Double) : Nat := x.bits.toNat / 2 ^ 63

/-- The eleven bits below the sign. -/
def exponentField (x : Double) : Nat := x.bits.toNat / 2 ^ 52 % 2 ^ 11

/-- The fifty-two lowest bits. -/
def fractionField (x : Double) : Nat := x.bits.toNat % 2 ^ 52

/-- **The exact value of a double**, as the fields of a binary floating-point number denote it.  The
largest exponent is for the infinities and the NaNs, and the least for the numbers without a leading
one. -/
def value? (x : Double) : Option Extended :=
  if x.exponentField = 2047 then
    if x.fractionField = 0 then some (if x.signField = 0 then ⊤ else ⊥) else none
  else if x.exponentField = 0 then
    some (.ofRat ((-1) ^ x.signField * 2 ^ (-1022 : ℤ) * (x.fractionField / 2 ^ 52)))
  else
    some (.ofRat ((-1) ^ x.signField * 2 ^ ((x.exponentField : ℤ) - 1023) *
      (1 + x.fractionField / 2 ^ 52)))

lemma isNegative_iff : x.isNegative = true ↔ 2 ^ 63 ≤ x.bits.toNat := decide_eq_true_iff

lemma signField_eq (x : Double) : x.signField = if x.isNegative then 1 else 0 := by
  have hlt := x.bits.toNat_lt
  simp only [signField, isNegative_iff]
  split <;> omega

lemma fractionField_lt (x : Double) : x.fractionField < 2 ^ 52 := Nat.mod_lt _ (by decide)

lemma magnitude_eq (x : Double) : x.magnitude = x.exponentField * 2 ^ 52 + x.fractionField := by
  simp only [magnitude, signBit, exponentField, fractionField]
  omega

lemma isFinite_iff : x.isFinite = true ↔ x.exponentField < 2047 := by
  have hlt := x.fractionField_lt
  rw [isFinite, decide_eq_true_eq, magnitude_eq, infinityMagnitude]
  omega

lemma isNaN_iff : x.isNaN = true ↔ x.exponentField = 2047 ∧ x.fractionField ≠ 0 := by
  have hlt := x.fractionField_lt
  have hle : x.exponentField < 2 ^ 11 := Nat.mod_lt _ (by decide)
  rw [isNaN, decide_eq_true_eq, magnitude_eq, infinityMagnitude]
  omega

/-! ### Units -/

lemma unitsPerOne_pos : 0 < unitsPerOne := by
  unfold unitsPerOne
  generalize 1074 = n
  exact Nat.two_pow_pos n

lemma cast_unitsPerOne : (unitsPerOne : ℚ) = 2 ^ 1074 := by
  unfold unitsPerOne
  generalize 1074 = n
  rw [Nat.pow_eq, Nat.cast_pow, Nat.cast_ofNat]

lemma absUnits_eq (x : Double) :
    x.absUnits = if x.exponentField = 0 then x.fractionField
      else (2 ^ 52 + x.fractionField) * 2 ^ (x.exponentField - 1) := by
  have hlt := x.fractionField_lt
  have hdiv : x.magnitude / leadingBit = x.exponentField := by
    rw [magnitude_eq, leadingBit]
    omega
  have hmod : x.magnitude % leadingBit = x.fractionField := by
    rw [magnitude_eq, leadingBit]
    omega
  rw [absUnits, hdiv, hmod]
  cases x.exponentField with
  | zero => rfl
  | succ e => rfl

/-- Larger magnitudes are more units. -/
lemma absUnits_lt_absUnits (h : x.magnitude < y.magnitude) : x.absUnits < y.absUnits := by
  have hx := x.fractionField_lt
  have hy := y.fractionField_lt
  rw [magnitude_eq, magnitude_eq] at h
  rw [absUnits_eq, absUnits_eq]
  by_cases he : x.exponentField = y.exponentField
  · -- the fractions decide
    have hf : x.fractionField < y.fractionField := by omega
    rw [he]
    split
    · exact hf
    · exact Nat.mul_lt_mul_of_pos_right (by omega) (Nat.two_pow_pos _)
  · -- a mantissa is less than two leading ones, and the larger exponent makes up for one
    have hlt : x.exponentField < y.exponentField := by omega
    rw [if_neg (show y.exponentField ≠ 0 by omega)]
    have hle : 2 ^ 52 * 2 ^ (y.exponentField - 1) ≤
        (2 ^ 52 + y.fractionField) * 2 ^ (y.exponentField - 1) :=
      Nat.mul_le_mul_right _ (by omega)
    refine Nat.lt_of_lt_of_le ?_ hle
    split
    · calc x.fractionField < 2 ^ 52 := hx
        _ ≤ 2 ^ 52 * 2 ^ (y.exponentField - 1) := Nat.le_mul_of_pos_right _ (Nat.two_pow_pos _)
    · next h0 =>
      calc (2 ^ 52 + x.fractionField) * 2 ^ (x.exponentField - 1)
          < (2 ^ 52 * 2) * 2 ^ (x.exponentField - 1) :=
            Nat.mul_lt_mul_of_pos_right (by omega) (Nat.two_pow_pos _)
        _ = 2 ^ 52 * 2 ^ (x.exponentField - 1 + 1) := by rw [Nat.pow_succ]; ring
        _ ≤ 2 ^ 52 * 2 ^ (y.exponentField - 1) :=
            Nat.mul_le_mul_left _ (Nat.pow_le_pow_right (by decide) (by omega))

lemma absUnits_lt_iff : x.absUnits < y.absUnits ↔ x.magnitude < y.magnitude := by
  refine ⟨fun h => ?_, absUnits_lt_absUnits⟩
  by_contra hle
  rcases Nat.lt_or_eq_of_le (Nat.le_of_not_lt hle) with hlt | heq
  · exact Nat.lt_asymm h (absUnits_lt_absUnits hlt)
  · rw [absUnits, absUnits, heq] at h
    exact Nat.lt_irrefl _ h

lemma absUnits_eq_zero_iff : x.absUnits = 0 ↔ x.magnitude = 0 := by
  have hzero : zero.absUnits = 0 := rfl
  have hmagnitude : zero.magnitude = 0 := rfl
  have hiff := absUnits_lt_iff (x := zero) (y := x)
  omega

/-- Finite or not, doubles have their units in the order of their ranks. -/
lemma units_lt_units_iff : x.units < y.units ↔ x.rank < y.rank := by
  have hxy := absUnits_lt_iff (x := x) (y := y)
  have hyx := absUnits_lt_iff (x := y) (y := x)
  have hx := absUnits_eq_zero_iff (x := x)
  have hy := absUnits_eq_zero_iff (x := y)
  unfold units rank
  split <;> split <;> omega

/-- The value of a finite double is its number of units. -/
lemma value?_of_isFinite (h : x.isFinite = true) :
    x.value? = some (.ofRat (x.units / unitsPerOne)) := by
  have hne : x.exponentField ≠ 2047 := (isFinite_iff.1 h).ne
  have hsign : (x.units : ℚ) = (-1) ^ x.signField * x.absUnits := by
    rw [units, signField_eq]
    split <;> simp
  have hscale : ∀ e : ℕ, (2 : ℚ) ^ ((e : ℤ) - 1022) = 2 ^ e * 2 ^ 52 / unitsPerOne := by
    intro e
    rw [cast_unitsPerOne, show (e : ℤ) - 1022 = (e + 52 : ℕ) - (1074 : ℕ) by omega,
      zpow_sub₀ two_ne_zero, zpow_natCast, zpow_natCast, pow_add]
  rw [value?, if_neg hne, hsign, absUnits_eq]
  split
  · have hleast := hscale 0
    rw [Nat.cast_zero, zero_sub, pow_zero, one_mul] at hleast
    rw [hleast]
    congr 2
    ring
  · next h0 =>
    obtain ⟨e, he⟩ : ∃ e, x.exponentField = e + 1 := Nat.exists_eq_succ_of_ne_zero h0
    rw [he, show ((e + 1 : ℕ) : ℤ) - 1023 = (e : ℤ) - 1022 by omega, hscale]
    congr 2
    push_cast
    ring

/-! ### Ranks -/

/-- A double with a value is finite, or one of the two infinities. -/
lemma value?_cases (h : x.value? = some a) :
    (x.isFinite = true ∧ -(infinityMagnitude : Int) < x.rank ∧ x.rank < infinityMagnitude ∧
      a = .ofRat (x.units / unitsPerOne)) ∨
    (x.isFinite = false ∧ x.rank = infinityMagnitude ∧ a = ⊤) ∨
    (x.isFinite = false ∧ x.rank = -infinityMagnitude ∧ a = ⊥) := by
  by_cases hf : x.isFinite = true
  · left
    rw [value?_of_isFinite hf, Option.some_inj] at h
    have hlt : x.magnitude < infinityMagnitude := of_decide_eq_true hf
    refine ⟨hf, ?_, ?_, h.symm⟩
    · unfold rank
      split <;> omega
    · unfold rank
      split <;> omega
  · right
    have he : x.exponentField = 2047 := by
      have hle : x.exponentField < 2 ^ 11 := Nat.mod_lt _ (by decide)
      rw [isFinite_iff] at hf
      omega
    rw [value?, if_pos he] at h
    by_cases hfrac : x.fractionField = 0
    · have hm : x.magnitude = infinityMagnitude := by
        rw [magnitude_eq, he, hfrac]
        rfl
      rw [if_pos hfrac, Option.some_inj, signField_eq] at h
      rw [rank, hm]
      cases hs : x.isNegative with
      | false => exact Or.inl ⟨by simpa using hf, rfl, by simpa [hs] using h.symm⟩
      | true => exact Or.inr ⟨by simpa using hf, rfl, by simpa [hs] using h.symm⟩
    · rw [if_neg hfrac] at h
      cases h

lemma value?_eq_none_iff : x.value? = none ↔ x.isNaN = true := by
  rw [isNaN_iff, value?]
  split
  · next he => split <;> simp_all
  · next he => split <;> simp_all

lemma isNaN_eq_false_iff : x.isNaN = false ↔ ∃ a, x.value? = some a := by
  rw [← Option.ne_none_iff_exists', ne_eq, value?_eq_none_iff, Bool.not_eq_true]

/-- **Values are ordered as ranks.** -/
lemma value_lt_iff (hx : x.value? = some a) (hy : y.value? = some b) :
    a < b ↔ x.rank < y.rank := by
  have hpos : (0 : ℚ) < unitsPerOne := Nat.cast_pos.2 unitsPerOne_pos
  rcases value?_cases hx with ⟨-, hx₁, hx₂, rfl⟩ | ⟨-, hx, rfl⟩ | ⟨-, hx, rfl⟩ <;>
    rcases value?_cases hy with ⟨-, hy₁, hy₂, rfl⟩ | ⟨-, hy, rfl⟩ | ⟨-, hy, rfl⟩
  · rw [Extended.ofRat_lt_ofRat, div_lt_div_iff_of_pos_right hpos, Int.cast_lt, units_lt_units_iff]
  · simp only [Extended.ofRat_lt_top, true_iff]; omega
  · simp only [not_lt_bot, false_iff]; omega
  · simp only [not_top_lt, false_iff]; omega
  · simp only [lt_self_iff_false, false_iff]; omega
  · simp only [not_lt_bot, false_iff, infinityMagnitude] at *; omega
  · simp only [Extended.bot_lt_ofRat, true_iff]; omega
  · simp only [bot_lt_top, true_iff, infinityMagnitude] at *; omega
  · simp only [lt_self_iff_false, false_iff]; omega

lemma value_le_iff (hx : x.value? = some a) (hy : y.value? = some b) :
    a ≤ b ↔ x.rank ≤ y.rank := by
  rw [← not_lt, value_lt_iff hy hx, not_lt]

lemma value_eq_iff (hx : x.value? = some a) (hy : y.value? = some b) :
    a = b ↔ x.rank = y.rank := by
  rw [le_antisymm_iff, value_le_iff hx hy, value_le_iff hy hx, ← le_antisymm_iff]

/-- Only the zeros share a rank. -/
lemma eq_of_rank_eq (h : x.rank = y.rank) (h0 : x.rank ≠ 0) : x = y := by
  have hx := x.bits.toNat_lt
  have hy := y.bits.toNat_lt
  have hbits : x.bits.toNat = y.bits.toNat := by
    simp only [rank, isNegative_iff, magnitude, signBit] at h h0
    split at h0 <;> split at h <;> omega
  cases x
  cases y
  exact congrArg mk (UInt64.toNat_inj.1 hbits)

end Double

/-! ### Words -/

namespace Word

variable {i : Int64} {n : Int}

lemma ofInt?_eq_some_iff : ofInt? n = some i ↔ n = i.toInt := by
  have hmin := i.minValue_le_toInt
  have hmax := i.toInt_le
  unfold ofInt?
  split
  · next h =>
    rw [Option.some_inj]
    constructor
    · rintro rfl
      exact (Int64.toInt_ofInt_of_le h.1 (by have := h.2; rw [Int64.toInt_maxValue] at this; omega)).symm
    · rintro rfl
      exact Int64.ofInt_toInt i
  · simp only [reduceCtorEq, false_iff]
    omega

lemma ofInt?_eq_none_iff :
    ofInt? n = none ↔ n < Int64.minValue.toInt ∨ Int64.maxValue.toInt < n := by
  unfold ofInt?
  split
  · simp only [reduceCtorEq, false_iff]
    omega
  · simp only [true_iff]
    omega

end Word

namespace Double

variable {x y : Double} {a b : Extended} {i j : Int64} {n : Int}

lemma floorInt_lt_iff : x.floorInt < n ↔ x.units < n * unitsPerOne := by
  have hpos : (0 : Int) < unitsPerOne := Int.natCast_pos.2 unitsPerOne_pos
  rw [floorInt, Int.fdiv_eq_ediv_of_nonneg _ hpos.le, Int.ediv_lt_iff_lt_mul hpos]

lemma lt_ceilInt_iff : n < x.ceilInt ↔ n * unitsPerOne < x.units := by
  have hpos : (0 : Int) < unitsPerOne := Int.natCast_pos.2 unitsPerOne_pos
  rw [ceilInt, Int.fdiv_eq_ediv_of_nonneg _ hpos.le, lt_neg, Int.ediv_lt_iff_lt_mul hpos,
    neg_mul, neg_lt_neg_iff]

/-- An integer against a finite double. -/
lemma ofRat_lt_value_iff (h : x.isFinite = true) (hx : x.value? = some a) :
    .ofRat n < a ↔ n * unitsPerOne < x.units := by
  have hpos : (0 : ℚ) < unitsPerOne := Nat.cast_pos.2 unitsPerOne_pos
  rw [value?_of_isFinite h, Option.some_inj] at hx
  rw [← hx, Extended.ofRat_lt_ofRat, lt_div_iff₀ hpos]
  exact_mod_cast Iff.rfl

lemma value_lt_ofRat_iff (h : x.isFinite = true) (hx : x.value? = some a) :
    a < .ofRat n ↔ x.units < n * unitsPerOne := by
  have hpos : (0 : ℚ) < unitsPerOne := Nat.cast_pos.2 unitsPerOne_pos
  rw [value?_of_isFinite h, Option.some_inj] at hx
  rw [← hx, Extended.ofRat_lt_ofRat, div_lt_iff₀ hpos]
  exact_mod_cast Iff.rfl

/-- The doubles whose value is an integer. -/
lemma value?_eq_ofRat_iff :
    x.value? = some (.ofRat n) ↔ x.isFinite = true ∧ x.units = n * unitsPerOne := by
  have hne : (unitsPerOne : ℚ) ≠ 0 := Nat.cast_ne_zero.2 unitsPerOne_pos.ne'
  constructor
  · intro h
    rcases value?_cases h with ⟨hf, -, -, ha⟩ | ⟨-, -, ha⟩ | ⟨-, -, ha⟩
    · rw [Extended.ofRat_inj, eq_div_iff hne] at ha
      exact ⟨hf, by exact_mod_cast ha.symm⟩
    · exact absurd ha Extended.ofRat_lt_top.ne
    · exact absurd ha Extended.bot_lt_ofRat.ne'
  · rintro ⟨hf, hu⟩
    rw [value?_of_isFinite hf, hu, Int.cast_mul, Int.cast_natCast, mul_div_cancel_right₀ _ hne]

lemma isIntegral_iff : x.isIntegral = true ↔ x.isFinite = true ∧ (unitsPerOne : Int) ∣ x.units := by
  have habs : x.units.natAbs = x.absUnits := by
    unfold units
    split <;> simp
  rw [isIntegral, Bool.and_eq_true, beq_iff_eq, ← Nat.dvd_iff_mod_eq_zero, ← habs,
    ← Int.natCast_dvd]

/-- **The word of a double is its value**: it is there exactly if the value is a word. -/
theorem toWord?_eq_some_iff : x.toWord? = some i ↔ x.value? = some (.ofRat i.toInt) := by
  have hpos : (0 : Int) < unitsPerOne := Int.natCast_pos.2 unitsPerOne_pos
  rw [value?_eq_ofRat_iff, toWord?]
  split
  · next h =>
    obtain ⟨hf, c, hc⟩ := isIntegral_iff.1 h
    rw [Word.ofInt?_eq_some_iff, truncInt, hc, Int.mul_tdiv_cancel_left _ hpos.ne', mul_comm,
      mul_left_inj' hpos.ne']
    exact ⟨fun hi => ⟨hf, hi⟩, And.right⟩
  · next h =>
    simp only [reduceCtorEq, false_iff]
    rintro ⟨hf, hu⟩
    exact h (isIntegral_iff.2 ⟨hf, _, hu.trans (mul_comm _ _)⟩)

/-- A double whose ceiling is a word compares with words as the ceiling does. -/
lemma exists_value_of_ceilWord? (h : x.ceilWord? = some j) :
    ∃ a, x.value? = some a ∧ ∀ i : Int64, .ofRat i.toInt < a ↔ i < j := by
  unfold ceilWord? at h
  split at h
  · next hf =>
    refine ⟨_, value?_of_isFinite hf, fun i => ?_⟩
    rw [ofRat_lt_value_iff hf (value?_of_isFinite hf), ← lt_ceilInt_iff, Word.ofInt?_eq_some_iff.1 h,
      Int64.lt_iff_toInt_lt]
  · cases h

/-- A double whose floor is a word compares with words as the floor does. -/
lemma exists_value_of_floorWord? (h : x.floorWord? = some j) :
    ∃ a, x.value? = some a ∧ ∀ i : Int64, a < .ofRat i.toInt ↔ j < i := by
  unfold floorWord? at h
  split at h
  · next hf =>
    refine ⟨_, value?_of_isFinite hf, fun i => ?_⟩
    rw [value_lt_ofRat_iff hf (value?_of_isFinite hf), ← floorInt_lt_iff,
      Word.ofInt?_eq_some_iff.1 h, Int64.lt_iff_toInt_lt]
  · cases h

/-- A value beyond the words: above all of them or below all of them. -/
def Beyond (a : Extended) : Prop :=
  (∀ i : Int64, .ofRat i.toInt < a) ∨ ∀ i : Int64, a < .ofRat i.toInt

lemma beyond_of_units (hf : x.isFinite = true) (hx : x.value? = some a)
    (h : Int64.maxValue.toInt * unitsPerOne < x.units ∨
      x.units < Int64.minValue.toInt * unitsPerOne) : Beyond a := by
  refine h.imp (fun hmax i => ?_) fun hmin i => ?_
  · rw [ofRat_lt_value_iff hf hx]
    exact lt_of_le_of_lt (Int.mul_le_mul_of_nonneg_right i.toInt_le (Int.natCast_nonneg _)) hmax
  · rw [value_lt_ofRat_iff hf hx]
    exact lt_of_lt_of_le hmin
      (Int.mul_le_mul_of_nonneg_right i.minValue_le_toInt (Int.natCast_nonneg _))

lemma beyond_of_not_isFinite (hf : x.isFinite = false) (hx : x.value? = some a) : Beyond a := by
  rcases value?_cases hx with ⟨hf', -⟩ | ⟨-, -, rfl⟩ | ⟨-, -, rfl⟩
  · rw [hf] at hf'
    cases hf'
  · exact Or.inl fun i => Extended.ofRat_lt_top
  · exact Or.inr fun i => Extended.bot_lt_ofRat

lemma beyond_of_ceilWord? (h : x.ceilWord? = none) (hx : x.value? = some a) : Beyond a := by
  have hpos : (0 : Int) < unitsPerOne := Int.natCast_pos.2 unitsPerOne_pos
  unfold ceilWord? at h
  split at h
  · next hf =>
    refine beyond_of_units hf hx ?_
    rcases Word.ofInt?_eq_none_iff.1 h with hlt | hlt
    · have hnot : ¬ Int64.minValue.toInt - 1 < x.ceilInt := by omega
      rw [lt_ceilInt_iff, Int.sub_mul] at hnot
      omega
    · exact Or.inl (lt_ceilInt_iff.1 hlt)
  · next hf => exact beyond_of_not_isFinite (by simpa using hf) hx

lemma beyond_of_floorWord? (h : x.floorWord? = none) (hx : x.value? = some a) : Beyond a := by
  have hpos : (0 : Int) < unitsPerOne := Int.natCast_pos.2 unitsPerOne_pos
  unfold floorWord? at h
  split at h
  · next hf =>
    refine beyond_of_units hf hx ?_
    rcases Word.ofInt?_eq_none_iff.1 h with hlt | hlt
    · exact Or.inr (floorInt_lt_iff.1 hlt)
    · have hnot : ¬ x.floorInt < Int64.maxValue.toInt + 1 := by omega
      rw [floorInt_lt_iff, Int.add_mul] at hnot
      omega
  · next hf => exact beyond_of_not_isFinite (by simpa using hf) hx

end Double

end LuaCore
