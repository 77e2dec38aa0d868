import LuaCore.Proofs.Number.Layout

/-!
The text of a double.

The text is the text of a layout that is chosen by the exponent of the rounded value: scientific, with
the digits of the first rounding, or positional, with those of the second.  Both roundings give the same
digits, so the value of the layout is the rounded value in either case.
-/

namespace LuaCore

namespace Decimal

open Bytes (isDigit digitsValue natText)

variable {c d n num den : ℕ} {x : Double}

/-! ### Numbers of digits -/

lemma length_natText_le (hn : n < 10 ^ d) (hd : d ≠ 0) : (natText n).length ≤ d := by
  rw [Bytes.length_natText]
  rcases Nat.eq_zero_or_pos n with rfl | hpos
  · rw [log10, if_pos (by decide)]
    omega
  · exact (Nat.pow_lt_pow_iff_right (by decide)).1 ((log10_spec hpos).1.trans_lt hn)

lemma length_natText_of_bounds (hlow : 10 ^ 13 ≤ c) (hhigh : c < 10 ^ 14) :
    (natText c).length = 14 := by
  have hle := length_natText_le hhigh (by decide)
  have hlt : 13 < log10 c + 1 :=
    (Nat.pow_lt_pow_iff_right (by decide)).1 (hlow.trans_lt (log10_spec (by omega)).2)
  rw [Bytes.length_natText] at hle ⊢
  omega

lemma length_padded (hn : n < 10 ^ d) (hd : d ≠ 0) : (padded d n).length = d := by
  have hle := length_natText_le hn hd
  rw [padded, List.length_append, List.length_replicate]
  omega

lemma digitsValue_padded (d n : ℕ) : digitsValue 10 (padded d n) = n := by
  rw [padded, Bytes.digitsValue_append_list, Bytes.digitsValue_replicate_zero,
    Bytes.digitsValue_natText, Nat.zero_mul, Nat.zero_add]

lemma isDigit_of_mem_padded (d n : ℕ) : ∀ c ∈ padded d n, isDigit c = true := by
  intro c hc
  rcases List.mem_append.1 hc with hc | hc
  · rw [List.eq_of_mem_replicate hc]
    rfl
  · exact Bytes.isDigit_of_mem_natText n c hc

/-! ### The two layouts -/

namespace Layout

/-- The digits of a number with the point behind the first of them, and an exponent. -/
def scientific (c : ℕ) (k : ℤ) : Layout where
  whole := (natText c).take 1
  fraction := (natText c).drop 1
  exponent := some k
  whole_ne_nil := by simp [Bytes.natText_ne_nil]
  isDigit_whole := fun b hb => Bytes.isDigit_of_mem_natText c b (List.mem_of_mem_take hb)
  isDigit_fraction := fun b hb => Bytes.isDigit_of_mem_natText c b (List.mem_of_mem_drop hb)

/-- The digits of a number with the point before the last `d` of them. -/
def positional (c d : ℕ) : Layout where
  whole := natText (c / 10 ^ d)
  fraction := if d = 0 then [] else padded d (c % 10 ^ d)
  exponent := none
  whole_ne_nil := Bytes.natText_ne_nil _
  isDigit_whole := Bytes.isDigit_of_mem_natText _
  isDigit_fraction := by
    split
    · simp
    · exact isDigit_of_mem_padded d _

lemma value_scientific (hlow : 10 ^ 13 ≤ c) (hhigh : c < 10 ^ 14) (k : ℤ) :
    (scientific c k).value = c * 10 ^ (k - 13) := by
  have hlength := length_natText_of_bounds hlow hhigh
  show (digitsValue 10 ((natText c).take 1 ++ (natText c).drop 1) : ℚ) *
    10 ^ (k - ((natText c).drop 1).length) = _
  rw [List.take_append_drop, Bytes.digitsValue_natText, List.length_drop, hlength]
  rfl

lemma mantissa_scientific (hlow : 10 ^ 13 ≤ c) (hhigh : c < 10 ^ 14) (k : ℤ) :
    (scientific c k).mantissa = pointed c := by
  have hlength := length_natText_of_bounds hlow hhigh
  have hdrop : (natText c).drop 1 ≠ [] := by
    rw [← List.length_pos_iff, List.length_drop]
    omega
  exact congrArg ((natText c).take 1 ++ ·) (if_neg hdrop)

lemma length_fraction_positional (c d : ℕ) : (positional c d).fraction.length = d := by
  show (if d = 0 then [] else padded d (c % 10 ^ d)).length = d
  split
  · next hd => exact hd.symm
  · next hd => exact length_padded (Nat.mod_lt c (by positivity)) hd

lemma value_positional (c d : ℕ) : (positional c d).value = c * 10 ^ (-d : ℤ) := by
  have hfraction : digitsValue 10 (positional c d).fraction = c % 10 ^ d := by
    show digitsValue 10 (if d = 0 then [] else padded d (c % 10 ^ d)) = _
    split
    · next hd => rw [hd, pow_zero, Nat.mod_one]; rfl
    · exact digitsValue_padded d _
  have hdigits : digitsValue 10 ((positional c d).whole ++ (positional c d).fraction) = c := by
    rw [Bytes.digitsValue_append_list, hfraction, length_fraction_positional]
    show digitsValue 10 (natText (c / 10 ^ d)) * 10 ^ d + c % 10 ^ d = c
    rw [Bytes.digitsValue_natText, Nat.div_add_mod']
  rw [value, hdigits, length_fraction_positional]
  show (c : ℚ) * 10 ^ ((0 : ℤ) - d) = _
  rw [zero_sub]

lemma mantissa_positional (c d : ℕ) : (positional c d).mantissa =
    natText (c / 10 ^ d) ++ if d = 0 then [] else 46 :: padded d (c % 10 ^ d) := by
  have hnil : (positional c d).fraction = [] ↔ d = 0 := by
    rw [← List.length_eq_zero_iff, length_fraction_positional]
  rw [mantissa]
  by_cases hd : d = 0
  · rw [if_pos (hnil.2 hd), if_pos hd]
    rfl
  · rw [if_neg (mt hnil.1 hd), if_neg hd]
    show _ ++ 46 :: (if d = 0 then [] else padded d (c % 10 ^ d)) = _
    rw [if_neg hd]
    rfl

end Layout

/-! ### The layout of a ratio -/

/-- The layout of a positive ratio, with all its digits. -/
def ratioLayout (num den : ℕ) : Layout :=
  if (significant num den).2 < -4 ∨ 14 ≤ (significant num den).2 then
    .scientific (significant num den).1 (significant num den).2
  else
    .positional (significant num den).1 (13 - (significant num den).2).toNat

lemma text_ratioLayout (hnum : 0 < num) (hden : 0 < den) :
    (ratioLayout num den).strip.text = ratioText num den := by
  obtain ⟨hlow, hhigh, -⟩ := significant_spec hnum hden
  have htext : ratioText num den =
      if (significant num den).2 < -4 ∨ 14 ≤ (significant num den).2 then
        stripFraction (pointed (significant num den).1) ++ exponentText (significant num den).2
      else stripFraction (fixedText num den (13 - (significant num den).2).toNat) := rfl
  rw [htext, Layout.text, Layout.mantissa_strip, ratioLayout]
  split
  · rw [Layout.mantissa_scientific hlow hhigh]
    rfl
  · next h =>
    -- the second rounding has the digits of the first
    have hd : (((13 - (significant num den).2).toNat : ℕ) : ℤ) = 13 - (significant num den).2 := by
      omega
    have hfixed : (Layout.positional (significant num den).1
        (13 - (significant num den).2).toNat).mantissa =
        fixedText num den (13 - (significant num den).2).toNat := by
      rw [Layout.mantissa_positional, ← roundEven_decimals hden hd]
      rfl
    rw [hfixed]
    exact List.append_nil _

lemma value_ratioLayout (hnum : 0 < num) (hden : 0 < den) : (ratioLayout num den).value =
    (significant num den).1 * 10 ^ ((significant num den).2 - 13) := by
  obtain ⟨hlow, hhigh, -⟩ := significant_spec hnum hden
  unfold ratioLayout
  split
  · exact Layout.value_scientific hlow hhigh _
  · rw [Layout.value_positional, show -(((13 - (significant num den).2).toNat : ℕ) : ℤ) =
      (significant num den).2 - 13 by omega]

/-- The exponent of the first digit is that of the power of ten below. -/
lemma value_ratioLayout_bounds (hnum : 0 < num) (hden : 0 < den) :
    (10 : ℚ) ^ (significant num den).2 ≤ (ratioLayout num den).value ∧
      (ratioLayout num den).value < 10 ^ ((significant num den).2 + 1) := by
  obtain ⟨hlow, hhigh, -⟩ := significant_spec hnum hden
  rw [value_ratioLayout hnum hden]
  generalize (significant num den).1 = c at hlow hhigh
  generalize (significant num den).2 = k
  have hlow' : (10 : ℚ) ^ (13 : ℤ) ≤ c := by exact_mod_cast hlow
  have hhigh' : (c : ℚ) < 10 ^ (14 : ℤ) := by exact_mod_cast hhigh
  constructor
  · calc (10 : ℚ) ^ k = 10 ^ (13 : ℤ) * 10 ^ (k - 13) := by rw [← ten_zpow_add]; congr 1; ring
      _ ≤ c * 10 ^ (k - 13) := by gcongr
  · calc (c : ℚ) * 10 ^ (k - 13) < 10 ^ (14 : ℤ) * 10 ^ (k - 13) := by gcongr
      _ = 10 ^ (k + 1) := by rw [← ten_zpow_add]; congr 1; ring

/-- **The layout is chosen by the rounded value**: scientific below `10 ^ (-4)` and from `10 ^ 14` on. -/
lemma isSome_exponent_ratioLayout (hnum : 0 < num) (hden : 0 < den) :
    (ratioLayout num den).exponent.isSome = true ↔
      (ratioLayout num den).value < 10 ^ (-4 : ℤ) ∨ 10 ^ (14 : ℤ) ≤ (ratioLayout num den).value := by
  obtain ⟨hlow, hhigh⟩ := value_ratioLayout_bounds hnum hden
  have hchoice : (ratioLayout num den).exponent.isSome = true ↔
      (significant num den).2 < -4 ∨ 14 ≤ (significant num den).2 := by
    unfold ratioLayout
    split
    · next h => exact iff_of_true rfl h
    · next h => exact iff_of_false (by simp [Layout.positional]) h
  rw [hchoice]
  apply or_congr
  · constructor
    · intro h
      exact hhigh.trans_le (ten_zpow_le_iff.2 (by omega))
    · intro h
      exact not_le.1 fun hk => (h.trans_le (ten_zpow_le_iff.2 hk)).not_ge hlow
  · constructor
    · intro h
      exact (ten_zpow_le_iff.2 h).trans hlow
    · intro h
      by_contra hk
      exact (hhigh.trans_le (ten_zpow_le_iff.2 (by omega))).not_ge h

/-- Before an exponent stands a single digit. -/
lemma length_whole_ratioLayout (num den : ℕ) (h : (ratioLayout num den).exponent.isSome = true) :
    (ratioLayout num den).whole.length = 1 := by
  unfold ratioLayout at h ⊢
  split
  · have hpos : 0 < (natText (significant num den).1).length :=
      List.length_pos_iff.2 (Bytes.natText_ne_nil _)
    show ((natText (significant num den).1).take 1).length = 1
    rw [List.length_take]
    omega
  · next hk =>
    rw [if_neg hk] at h
    cases h

/-! ### The layout of a double -/

/-- The layout of the absolute value of a finite double, with all its digits. -/
def absLayout (x : Double) : Layout :=
  if x.isZero then .positional 0 0 else ratioLayout x.absUnits Double.unitsPerOne

lemma absUnits_pos (hx : ¬x.isZero = true) : 0 < x.absUnits := by
  rw [Nat.pos_iff_ne_zero, Ne, Double.absUnits_eq_zero_iff]
  exact fun h => hx (beq_iff_eq.2 h)

lemma value_positional_zero : (Layout.positional 0 0).value = 0 := by
  rw [Layout.value_positional, Nat.cast_zero, zero_mul]

lemma text_absLayout (hx : x.isFinite = true) : (absLayout x).strip.text = absText x := by
  have hfinite : x.magnitude < Double.infinityMagnitude := of_decide_eq_true hx
  have hnan : ¬x.isNaN = true := by
    rw [Double.isNaN, decide_eq_true_eq]
    omega
  have hinfinite : ¬x.isInfinite = true := by
    rw [Double.isInfinite, beq_iff_eq]
    omega
  rw [absText, if_neg hnan, if_neg hinfinite, absLayout]
  split
  · have hmantissa : (Layout.positional 0 0).mantissa = [48] := by
      rw [Layout.mantissa_positional, natText]
      rfl
    rw [Layout.text, Layout.mantissa_strip, hmantissa]
    rfl
  · next h => exact text_ratioLayout (absUnits_pos h) Double.unitsPerOne_pos

lemma isNearest_absLayout (x : Double) :
    IsNearest (absLayout x).value (x.absUnits / Double.unitsPerOne) := by
  unfold absLayout
  split
  · next h =>
    rw [value_positional_zero, Double.absUnits_eq_zero_iff.2 (beq_iff_eq.1 h), Nat.cast_zero, zero_div]
    exact isNearest_zero
  · next h =>
    rw [value_ratioLayout (absUnits_pos h) Double.unitsPerOne_pos]
    exact (significant_spec (absUnits_pos h) Double.unitsPerOne_pos).2.2

lemma isSome_exponent_absLayout (x : Double) : (absLayout x).exponent.isSome = true ↔
    0 < (absLayout x).value ∧
      ((absLayout x).value < 10 ^ (-4 : ℤ) ∨ 10 ^ (14 : ℤ) ≤ (absLayout x).value) := by
  unfold absLayout
  split
  · rw [value_positional_zero]
    exact iff_of_false (by simp [Layout.positional]) fun h => h.1.false
  · next h =>
    have hlow := (value_ratioLayout_bounds (absUnits_pos h) Double.unitsPerOne_pos).1
    rw [isSome_exponent_ratioLayout (absUnits_pos h) Double.unitsPerOne_pos]
    exact (and_iff_right ((ten_zpow_pos _).trans_le hlow)).symm

lemma tidy_absLayout (x : Double) : (absLayout x).strip.mark.Tidy := by
  apply Layout.tidy_mark_strip
  unfold absLayout
  split
  · intro h
    cases h
  · exact length_whole_ratioLayout _ _

lemma doubleText_eq (hx : x.isFinite = true) :
    doubleText x = minus x.isNegative ++ (absLayout x).strip.mark.text := by
  rw [Layout.text_mark, text_absLayout hx, doubleText, minus]
  split <;> rfl

end Decimal

namespace Number

open Decimal

/-- **The text of a finite double keeps kind, sign and value.**  It is read back as a double of the same
sign.  Read exactly, it is a decimal of at most fourteen significant digits, and no other is strictly
nearer to the double.  It is laid out without superfluous zeros: scientific if the decimal is below
`10 ^ (-4)` or from `10 ^ 14` on, and positional otherwise. -/
theorem text_float_nearest (x : Double) (hx : x.isFinite = true) :
    (∃ y, ofNumeral? (float x).text = some (.float y) ∧ y.isNegative = x.isNegative) ∧
    ∃ (v q : ℚ) (l : Layout), x.value? = some (.ofRat v) ∧
      Numeral.decimalValue? (float x).text = some q ∧ IsNearest q v ∧
      (float x).text = minus x.isNegative ++ l.text ∧ l.Tidy ∧
      (l.exponent.isSome = true ↔ 0 < |q| ∧ (|q| < 10 ^ (-4 : ℤ) ∨ 10 ^ (14 : ℤ) ≤ |q|)) := by
  have htext : (float x).text = minus x.isNegative ++ (absLayout x).strip.mark.text := doubleText_eq hx
  have htidy := tidy_absLayout x
  have hvalue : (absLayout x).strip.mark.value = (absLayout x).value := by
    rw [Layout.value_mark, Layout.value_strip]
  have hnearest := isNearest_absLayout x
  have hchoice := isSome_exponent_absLayout x
  rw [htext]
  refine ⟨Numeral.exists_ofNumeral?_text htidy _, _, _, _, Double.value?_of_isFinite hx,
    Numeral.decimalValue?_text _ _, ?_, rfl, htidy, ?_⟩
  · rw [hvalue, Double.units]
    split
    · rw [Int.cast_neg, neg_div]
      exact hnearest.neg
    · exact hnearest
  · have habs : |if x.isNegative then -(absLayout x).value else (absLayout x).value| =
        (absLayout x).value := by
      rw [apply_ite abs, abs_neg, ite_self, abs_of_nonneg (Layout.value_nonneg _)]
    rw [hvalue, habs]
    exact hchoice

/-- The double before `10 ^ 14`, with a minus: its digits carry into one more, and its text is
`-1e+14`. -/
theorem text_float_nearest_carry :
    (⟨0xc2d6bcc41e8fffff⟩ : Double).isFinite = true ∧
    (float ⟨0xc2d6bcc41e8fffff⟩).text = [45, 49, 101, 43, 49, 52] ∧
    (∃ y, ofNumeral? (float ⟨0xc2d6bcc41e8fffff⟩).text = some (.float y) ∧ y.isNegative = true) ∧
    ∃ (v q : ℚ) (l : Layout), (⟨0xc2d6bcc41e8fffff⟩ : Double).value? = some (.ofRat v) ∧
      Numeral.decimalValue? (float ⟨0xc2d6bcc41e8fffff⟩).text = some q ∧ IsNearest q v ∧
      (float ⟨0xc2d6bcc41e8fffff⟩).text = 45 :: l.text ∧ l.Tidy ∧
      (l.exponent.isSome = true ↔ 0 < |q| ∧ (|q| < 10 ^ (-4 : ℤ) ∨ 10 ^ (14 : ℤ) ≤ |q|)) :=
  ⟨by decide, by decide +kernel, text_float_nearest ⟨0xc2d6bcc41e8fffff⟩ (by decide)⟩

end Number

end LuaCore
