import LuaCore.Proofs.Number.Grammar
import LuaCore.Proofs.Number.Significant

/-!
The layouts of decimal texts.

A layout has digits before the point, digits behind it, and an exponent that may be missing.  It has a
text and an exact value, and reading the text gives the value back.  Dropping the zeros at the end of the
fraction and marking a text without fraction by `.0` are operations on layouts that keep the value.
-/

namespace LuaCore

namespace Decimal

open Bytes (isDigit digitsValue natText)

/-! ### Trimming at the end -/

section Trimming

variable {c d : UInt8} {t : Bytes}

lemma exists_trimEnd (c : UInt8) (t : Bytes) : ∃ j, t = trimEnd c t ++ List.replicate j c := by
  refine ⟨(t.reverse.takeWhile (· == c)).length, ?_⟩
  have hrun : t.reverse.takeWhile (· == c) =
      List.replicate (t.reverse.takeWhile (· == c)).length c := by
    rw [List.eq_replicate_iff]
    refine ⟨rfl, fun b hb => ?_⟩
    simpa using List.mem_takeWhile_imp hb
  have hsplit := congrArg List.reverse (List.takeWhile_append_dropWhile (p := (· == c)) (l := t.reverse))
  rw [hrun, List.reverse_append, List.reverse_replicate, List.reverse_reverse] at hsplit
  exact hsplit.symm

lemma getLast?_trimEnd (c : UInt8) (t : Bytes) : (trimEnd c t).getLast? ≠ some c := by
  rw [trimEnd, List.getLast?_reverse]
  intro h
  have hnot := List.head?_dropWhile_not (· == c) t.reverse
  rw [h] at hnot
  simp at hnot

lemma trimEnd_of_getLast? (h : t.getLast? ≠ some c) : trimEnd c t = t := by
  obtain ⟨j, hj⟩ := exists_trimEnd c t
  cases j with
  | zero => simpa using hj.symm
  | succ j =>
    rw [hj, List.replicate_succ', ← List.append_assoc, List.getLast?_concat] at h
    exact absurd rfl h

lemma trimEnd_append_self (c : UInt8) (w : Bytes) : trimEnd c (w ++ [c]) = trimEnd c w := by
  simp [trimEnd]

/-- Another byte stops the trimming. -/
lemma trimEnd_append_cons (h : d ≠ c) (w f : Bytes) :
    trimEnd c (w ++ d :: f) = w ++ d :: trimEnd c f := by
  unfold trimEnd
  rw [List.reverse_append, List.reverse_cons, List.append_assoc, List.dropWhile_append]
  split
  · next hnil =>
    rw [List.isEmpty_iff] at hnil
    simp [hnil, h]
  · simp

end Trimming

/-! ### Layouts -/

/-- **A layout**: digits before the point, digits behind it, and an exponent of ten. -/
structure Layout where
  whole : Bytes
  fraction : Bytes
  exponent : Option ℤ
  whole_ne_nil : whole ≠ []
  isDigit_whole : ∀ c ∈ whole, isDigit c = true
  isDigit_fraction : ∀ c ∈ fraction, isDigit c = true

namespace Layout

/-- A point is written only before a fraction. -/
def mantissa (l : Layout) : Bytes := l.whole ++ if l.fraction = [] then [] else 46 :: l.fraction

/-- The text of a layout. -/
def text (l : Layout) : Bytes := l.mantissa ++ l.exponent.elim [] exponentText

/-- **The exact value of a layout.** -/
def value (l : Layout) : ℚ :=
  digitsValue 10 (l.whole ++ l.fraction) * 10 ^ (l.exponent.getD 0 - l.fraction.length)

lemma value_nonneg (l : Layout) : 0 ≤ l.value := mul_nonneg (Nat.cast_nonneg _) (ten_zpow_pos _).le

/-- Zeros at the end of the fraction count only as its length. -/
lemma value_append_zeros {l m : Layout} {j : ℕ} (hwhole : m.whole = l.whole)
    (hfraction : m.fraction = l.fraction ++ List.replicate j 48) (hexponent : m.exponent = l.exponent) :
    m.value = l.value := by
  have hdigits : digitsValue 10 (m.whole ++ m.fraction) =
      digitsValue 10 (l.whole ++ l.fraction) * 10 ^ j := by
    rw [hwhole, hfraction, ← List.append_assoc, Bytes.digitsValue_append_list,
      Bytes.digitsValue_replicate_zero, List.length_replicate, Nat.add_zero]
  have hplaces : (l.exponent.getD 0 - l.fraction.length : ℤ) =
      j + (m.exponent.getD 0 - m.fraction.length) := by
    rw [hexponent, hfraction, List.length_append, List.length_replicate]
    push_cast
    ring
  rw [value, value, hdigits, hplaces, ten_zpow_add, zpow_natCast]
  push_cast
  ring

/-- The layout without the zeros at the end of its fraction. -/
def strip (l : Layout) : Layout where
  whole := l.whole
  fraction := trimEnd 48 l.fraction
  exponent := l.exponent
  whole_ne_nil := l.whole_ne_nil
  isDigit_whole := l.isDigit_whole
  isDigit_fraction := by
    intro c hc
    obtain ⟨j, hj⟩ := exists_trimEnd 48 l.fraction
    exact l.isDigit_fraction c (hj ▸ List.mem_append_left _ hc)

lemma value_strip (l : Layout) : l.strip.value = l.value := by
  obtain ⟨j, hj⟩ := exists_trimEnd 48 l.fraction
  exact (value_append_zeros (l := l.strip) (m := l) rfl hj rfl).symm

lemma ne_point {c : UInt8} (hc : isDigit c = true) : c ≠ 46 := by
  rintro rfl
  exact absurd hc (by decide)

lemma mantissa_strip (l : Layout) : l.strip.mantissa = stripFraction l.mantissa := by
  show l.whole ++ (if trimEnd 48 l.fraction = [] then [] else 46 :: trimEnd 48 l.fraction) = _
  by_cases hnil : l.fraction = []
  · have hcontains : l.whole.contains 46 = false := by
      rw [← Bool.not_eq_true, List.contains_iff_mem]
      exact fun h => ne_point (l.isDigit_whole 46 h) rfl
    rw [mantissa, if_pos hnil, if_pos (by rw [hnil]; rfl), List.append_nil, stripFraction, hcontains]
    rfl
  · have hcontains : (l.whole ++ 46 :: l.fraction).contains 46 = true := by simp
    rw [mantissa, if_neg hnil, stripFraction, if_pos hcontains, trimEnd_append_cons (by decide)]
    split
    · next h =>
      rw [h, trimEnd_append_self, List.append_nil, trimEnd_of_getLast?]
      exact fun hlast => ne_point (l.isDigit_whole 46 (List.mem_of_getLast? hlast)) rfl
    · next h =>
      refine (trimEnd_of_getLast? ?_).symm
      rw [List.getLast?_append_cons, List.getLast?_cons, List.getLast?_eq_some_getLast h]
      intro hlast
      refine ne_point (l.strip.isDigit_fraction 46 ?_) rfl
      exact Option.some_inj.1 hlast ▸ List.getLast_mem h

/-- The layout with a zero behind the point if there would be digits alone. -/
def mark (l : Layout) : Layout where
  whole := l.whole
  fraction := if l.fraction = [] ∧ l.exponent = none then [48] else l.fraction
  exponent := l.exponent
  whole_ne_nil := l.whole_ne_nil
  isDigit_whole := l.isDigit_whole
  isDigit_fraction := by
    split
    · simp [isDigit]
    · exact l.isDigit_fraction

lemma value_mark (l : Layout) : l.mark.value = l.value := by
  by_cases h : l.fraction = [] ∧ l.exponent = none
  · exact value_append_zeros (j := 1) rfl (by simp [mark, h]) rfl
  · exact value_append_zeros (j := 0) rfl (by simp [mark, h]) rfl

lemma all_isDigit_text (l : Layout) :
    l.text.all isDigit = true ↔ l.fraction = [] ∧ l.exponent = none := by
  have hpoint : isDigit 46 = false := rfl
  have he : isDigit 101 = false := rfl
  have hwhole : l.whole.all isDigit = true := List.all_eq_true.2 l.isDigit_whole
  rw [text, mantissa, List.all_append, List.all_append, hwhole, Bool.true_and]
  by_cases hnil : l.fraction = []
  · rcases l.exponent with _ | k
    · simp [hnil]
    · simp [hnil, exponentText, he]
  · simp [hnil, hpoint]

lemma text_mark (l : Layout) : l.mark.text = markDouble l.text := by
  rw [markDouble]
  by_cases h : l.fraction = [] ∧ l.exponent = none
  · rw [if_pos (l.all_isDigit_text.2 h)]
    simp [text, mantissa, mark, h]
  · rw [if_neg (mt l.all_isDigit_text.1 h)]
    simp only [text, mantissa, mark, if_neg h]

/-- **A tidy layout**: the fraction ends in a zero only where that alone marks a double, which is there
exactly if there would be digits alone, and before an exponent stands a single digit. -/
structure Tidy (l : Layout) : Prop where
  zero_marks : l.fraction.getLast? = some 48 → l.fraction = [48] ∧ l.exponent = none
  fraction_ne_nil : l.exponent = none → l.fraction ≠ []
  single_digit : l.exponent.isSome = true → l.whole.length = 1

lemma tidy_mark_strip {l : Layout} (h : l.exponent.isSome = true → l.whole.length = 1) :
    l.strip.mark.Tidy where
  zero_marks := by
    intro hlast
    have htrim := getLast?_trimEnd 48 l.fraction
    by_cases hnil : trimEnd 48 l.fraction = [] ∧ l.exponent = none
    · exact ⟨if_pos hnil, hnil.2⟩
    · exact absurd ((congrArg List.getLast? (if_neg hnil)).symm.trans hlast) htrim
  fraction_ne_nil := by
    intro hexponent
    show (if l.strip.fraction = [] ∧ l.exponent = none then [48] else l.strip.fraction) ≠ []
    split
    · simp
    · next hnil => exact fun h => hnil ⟨h, hexponent⟩
  single_digit := h

/-! ### Reading a layout back -/

/-- The digits of an exponent. -/
def exponentDigits (k : ℤ) : Bytes := (if k.natAbs < 10 then [48] else []) ++ natText k.natAbs

lemma digitsValue_exponentDigits (k : ℤ) : digitsValue 10 (exponentDigits k) = k.natAbs := by
  have hzero : digitsValue 10 [48] = 0 := rfl
  rw [exponentDigits, Bytes.digitsValue_append_list, Bytes.digitsValue_natText]
  split
  · rw [hzero, Nat.zero_mul, Nat.zero_add]
  · exact (congrArg (· + _) (Nat.zero_mul _)).trans (Nat.zero_add _)

open Numeral in
lemma exponent?_exponentText (value : Bytes → ℕ) (k : ℤ) :
    exponent? 101 value (exponentText k) =
      some (if k < 0 then -(value (exponentDigits k) : ℤ) else value (exponentDigits k)) := by
  have hne : exponentDigits k ≠ [] := by simp [exponentDigits, Bytes.natText_ne_nil]
  have hdigits : (exponentDigits k).all isDigit = true := by
    rw [List.all_eq_true]
    intro c hc
    rcases List.mem_append.1 hc with hc | hc
    · split at hc
      · rw [List.mem_singleton.1 hc]
        rfl
      · cases hc
    · exact Bytes.isDigit_of_mem_natText _ c hc
  have htext : exponentText k = 101 :: (if k < 0 then 45 else 43) :: exponentDigits k := by
    simp [exponentText, exponentDigits]
  rw [htext, exponent?]
  by_cases hk : k < 0
  · simp [hk, splitSign, hne, hdigits]
  · simp [hk, splitSign, hne, hdigits]

open Numeral in
lemma exponent?_text (l : Layout) (value : Bytes → ℕ) :
    exponent? 101 value (l.exponent.elim [] exponentText) = some (l.exponent.elim 0 fun k =>
      if k < 0 then -(value (exponentDigits k) : ℤ) else value (exponentDigits k)) := by
  cases l.exponent with
  | none => rfl
  | some k => exact exponent?_exponentText value k

open Numeral in
lemma splitMantissa_text (l : Layout) :
    splitMantissa isDigit l.text = ⟨l.whole, l.fraction, l.exponent.elim [] exponentText⟩ := by
  have hstop : ∀ c ∈ (l.exponent.elim [] exponentText).head?, isDigit c = false ∧ c ≠ 46 := by
    cases l.exponent with
    | none => simp
    | some k => simp [exponentText, isDigit]
  rw [text, mantissa]
  split
  · next hnil => rw [List.append_nil, splitMantissa_whole l.isDigit_whole hstop, hnil]
  · rw [List.append_assoc, List.cons_append, splitMantissa_point rfl l.isDigit_whole l.isDigit_fraction
      fun c hc => (hstop c hc).1]

end Layout

/-- The sign of a text. -/
def minus (negative : Bool) : Bytes := if negative then [45] else []

end Decimal

namespace Double

lemma isNegative_ofMagnitude {m : ℕ} (hm : m < signBit) (negative : Bool) :
    (ofMagnitude negative m).isNegative = negative := by
  have hbits : (ofMagnitude negative m).bits.toNat = m + if negative then signBit else 0 := by
    refine UInt64.toNat_ofNat_of_lt' ?_
    rw [signBit, UInt64.size] at *
    split <;> omega
  rw [isNegative, hbits]
  cases negative with
  | false => simpa using hm
  | true => simp

lemma isNegative_neg (x : Double) : x.neg.isNegative = !x.isNegative :=
  isNegative_ofMagnitude (Nat.mod_lt _ (by decide)) _

lemma isNegative_ofRatio (negative : Bool) (num den : ℕ) :
    (ofRatio negative num den).isNegative = negative := by
  have hlt : infinityMagnitude < signBit := by decide
  unfold ofRatio
  split
  · exact isNegative_ofMagnitude (by decide) negative
  · exact isNegative_ofMagnitude ((min_le_left _ _).trans_lt hlt) negative

lemma isNegative_ofDecimal (c width : ℕ) (k : ℤ) : (ofDecimal c width k).isNegative = false := by
  unfold ofDecimal
  split
  · rfl
  · split
    · rfl
    · split
      · rfl
      · exact isNegative_ofRatio false _ _

end Double

namespace Numeral

open Bytes (isDigit digitsValue)
open Decimal Grammar

/-- **The exact value of a decimal text**: its digits, scaled by its exponent and the length of its
fraction. -/
def decimalValue? (b : Bytes) : Option ℚ :=
  let m := splitMantissa isDigit (splitSign b).2
  if m.whole ++ m.fraction = [] then none
  else (exponent? 101 (digitsValue 10) m.rest).map fun e : ℤ =>
    (if (splitSign b).1 then -1 else 1) *
      (digitsValue 10 (m.whole ++ m.fraction) * 10 ^ (e - m.fraction.length))

lemma exists_decimalDouble?_text (l : Layout) :
    ∃ x, decimalDouble? l.text = some x ∧ x.isNegative = false := by
  have hempty : ¬(l.whole ++ l.fraction).isEmpty = true := by simp [l.whole_ne_nil]
  unfold decimalDouble?
  rw [l.splitMantissa_text]
  dsimp only
  rw [if_neg hempty, l.exponent?_text, Option.map_some]
  exact ⟨_, rfl, Double.isNegative_ofDecimal _ _ _⟩

lemma text_mem_decimal (l : Layout) : l.text ∈ decimal := by
  obtain ⟨x, hx, -⟩ := exists_decimalDouble?_text l
  rw [← isSome_decimalDouble?, hx]
  rfl

lemma minus_mem_sign (negative : Bool) : minus negative ∈ sign := by
  cases negative with
  | false => exact Or.inl rfl
  | true => exact Or.inr ⟨45, by simp, rfl⟩

lemma minus_beq (negative : Bool) : (minus negative == [45]) = negative := by
  cases negative <;> rfl

/-- **A layout is read back exactly.** -/
lemma decimalValue?_text (negative : Bool) (l : Layout) :
    decimalValue? (minus negative ++ l.text) = some (if negative then -l.value else l.value) := by
  have hsplit := splitSign_append (minus_mem_sign negative)
    (begins_unsigned.head (Or.inr (text_mem_decimal l)))
  have hexponent : (l.exponent.elim 0 fun k =>
      if k < 0 then -(digitsValue 10 (Layout.exponentDigits k) : ℤ)
      else digitsValue 10 (Layout.exponentDigits k)) = l.exponent.getD 0 := by
    cases l.exponent with
    | none => rfl
    | some k =>
      simp only [Option.elim_some, Option.getD_some, Layout.digitsValue_exponentDigits]
      split <;> omega
  have hne : l.whole ++ l.fraction ≠ [] := by simp [l.whole_ne_nil]
  unfold decimalValue?
  rw [hsplit, minus_beq, l.splitMantissa_text]
  dsimp only
  rw [if_neg hne, l.exponent?_text, hexponent, Option.map_some]
  congr 1
  split
  · rw [neg_one_mul]
    rfl
  · rw [one_mul]
    rfl

/-- **A tidy layout is read as a double of the same sign**, since there are never digits alone. -/
lemma exists_ofNumeral?_text {l : Layout} (h : l.Tidy) (negative : Bool) :
    ∃ y, Number.ofNumeral? (minus negative ++ l.text) = some (.float y) ∧ y.isNegative = negative := by
  obtain ⟨x, hx, hsign⟩ := exists_decimalDouble?_text l
  have hmem := text_mem_decimal l
  have hsplit := splitSign_trim (u := []) (w := []) (Language.nil_mem_kstar _)
    (minus_mem_sign negative) (Language.nil_mem_kstar _) unsigned_le_plain begins_unsigned
    (Or.inr hmem)
  rw [List.nil_append, List.append_nil, minus_beq] at hsplit
  refine ⟨signed negative x, ?_, ?_⟩
  · have hdigits : ¬(!l.text.isEmpty && l.text.all isDigit) = true := by
      rw [Bool.and_eq_true, l.all_isDigit_text]
      exact fun hall => h.fraction_ne_nil hall.2.2 hall.2.1
    have hdecimal : ofDecimal? negative l.text = some (.float (signed negative x)) := by
      rw [ofDecimal?, if_neg hdigits, hx, Option.map_some]
    rw [Number.ofNumeral?_eq, hsplit]
    dsimp only
    rw [← hdecimal]
    generalize l.text = b at hmem
    fun_cases ofUnsigned? negative b with
    | case1 r => exact absurd hmem (not_mem_decimal (by simp) r)
    | case2 r => exact absurd hmem (not_mem_decimal (by simp) r)
    | case3 b => rfl
  · cases negative with
    | false => exact hsign
    | true => exact (Double.isNegative_neg x).trans (by rw [hsign]; rfl)

end Numeral

end LuaCore
