import LuaCore.Number.Decimal
import LuaCore.Number.Numeral
import LuaCore.Proofs.Number.Exact
import Mathlib.Data.Int.ModEq
import Mathlib.Data.List.Induction
import Mathlib.Data.Nat.Digits.Defs
import Mathlib.Tactic.IntervalCases

/-!
The integers that digits denote.

Reading works on words: the decimal digits of an integer are summed up with a check at each step, the
hexadecimal ones without, and the sign is put in front at the end.  Main statements: the decimal reading
gives the integer that the digits denote, exactly if it is a word (`Numeral.decimalInt?_eq`), and the
hexadecimal reading gives it modulo `2 ^ 64` (`Numeral.toInt_hexInt`).
-/

namespace LuaCore

/-- The integers that are words. -/
def Word.InRange (n : ℤ) : Prop := -2 ^ 63 ≤ n ∧ n < 2 ^ 63

lemma Word.ofInt?_of_inRange {n : ℤ} (h : InRange n) : ∃ i, ofInt? n = some i ∧ i.toInt = n := by
  refine ⟨Int64.ofInt n, if_pos ⟨h.1, ?_⟩, Int64.toInt_ofInt_of_le h.1 h.2⟩
  rw [Int64.toInt_maxValue]
  have := h.2
  omega

lemma Word.ofInt?_eq_none_iff_not_inRange {n : ℤ} : ofInt? n = none ↔ ¬InRange n := by
  rw [ofInt?_eq_none_iff, InRange, Int64.toInt_minValue, Int64.toInt_maxValue]
  omega

namespace Bytes

variable {c : UInt8} {ds : Bytes} {base n : ℕ}

/-! ### Digits -/

lemma isDigit_iff : isDigit c = true ↔ 48 ≤ c ∧ c ≤ 57 := by simp [isDigit]

lemma digitValue_lt (c : UInt8) : digitValue c < 256 := by
  have hc := c.toNat_lt
  unfold digitValue
  split
  · omega
  · split <;> omega

lemma digitsValue_append (base : ℕ) (ds : Bytes) (c : UInt8) :
    digitsValue base (ds ++ [c]) = digitsValue base ds * base + digitValue c := by
  simp [digitsValue]

lemma digitsValue_append_list (base : ℕ) (as bs : Bytes) :
    digitsValue base (as ++ bs) = digitsValue base as * base ^ bs.length + digitsValue base bs := by
  induction bs using List.reverseRecOn with
  | nil => simp [digitsValue]
  | append_singleton bs c ih =>
    rw [← List.append_assoc, digitsValue_append, ih, digitsValue_append, List.length_append,
      List.length_singleton, pow_succ]
    ring

lemma digitsValue_replicate_zero (j : ℕ) : digitsValue 10 (List.replicate j 48) = 0 := by
  induction j with
  | zero => rfl
  | succ j ih =>
    rw [List.replicate_succ', digitsValue_append, ih]
    rfl

/-- Summing up from the left gives what the digits denote by their places. -/
lemma digitsValue_eq_ofDigits (base : ℕ) (ds : Bytes) :
    digitsValue base ds = Nat.ofDigits base (ds.reverse.map digitValue) := by
  induction ds using List.reverseRecOn with
  | nil => rfl
  | append_singleton ds c ih =>
    rw [digitsValue_append, ih, List.reverse_append, List.reverse_singleton, List.singleton_append,
      List.map_cons, Nat.ofDigits_cons]
    ring

/-! ### The text of a natural number -/

lemma digitValue_digit (hn : n < 10) : digitValue (digit n) = n := by
  interval_cases n <;> rfl

lemma isDigit_digit (hn : n < 10) : isDigit (digit n) = true := by
  interval_cases n <;> rfl

lemma natText_ne_nil (n : ℕ) : natText n ≠ [] := by
  rw [natText]
  split <;> simp

lemma isDigit_of_mem_natText (n : ℕ) : ∀ c ∈ natText n, isDigit c = true := by
  fun_induction natText n with
  | case1 n hn => simpa using isDigit_digit hn
  | case2 n _ ih =>
    intro c hc
    rcases List.mem_append.1 hc with hc | hc
    · exact ih c hc
    · rw [List.mem_singleton.1 hc]
      exact isDigit_digit (Nat.mod_lt n (by decide))

lemma length_natText (n : ℕ) : (natText n).length = Decimal.log10 n + 1 := by
  fun_induction natText n with
  | case1 n hn => rw [Decimal.log10, if_pos hn, List.length_singleton]
  | case2 n hn ih => rw [Decimal.log10, if_neg hn, List.length_append, List.length_singleton, ih]

lemma digitsValue_natText (n : ℕ) : digitsValue 10 (natText n) = n := by
  fun_induction natText n with
  | case1 n hn => simp [digitsValue, digitValue_digit hn]
  | case2 n _ ih =>
    rw [digitsValue_append, ih, digitValue_digit (Nat.mod_lt n (by decide))]
    omega

end Bytes

namespace Numeral

open Bytes (digitValue digitsValue natText)

variable {ds : Bytes} {negative : Bool}

/-- **The integer that digits denote** in a base, with or without a minus before them. -/
def denoted (negative : Bool) (base : ℕ) (ds : Bytes) : ℤ :=
  if negative then -(Nat.ofDigits base (ds.reverse.map digitValue) : ℕ)
  else (Nat.ofDigits base (ds.reverse.map digitValue) : ℕ)

lemma denoted_eq (negative : Bool) (base : ℕ) (ds : Bytes) :
    denoted negative base ds =
      if negative then -(digitsValue base ds : ℤ) else (digitsValue base ds : ℤ) := by
  rw [denoted, Bytes.digitsValue_eq_ofDigits]

/-! ### Decimal digits -/

/-- One step of the decimal reading: both checks together are one check of the result. -/
lemma addChecked?_mulChecked? (n : ℕ) (hn : n < UInt64.size) (c : UInt8) :
    (Word.mulChecked? (.ofNat n) 10 >>= fun m => Word.addChecked? m (.ofNat (digitValue c))) =
      if n * 10 + digitValue c < UInt64.size then some (.ofNat (n * 10 + digitValue c)) else none := by
  have hc := Bytes.digitValue_lt c
  have hdigit : (UInt64.ofNat (digitValue c)).toNat = digitValue c :=
    UInt64.toNat_ofNat_of_lt' (by rw [UInt64.size]; omega)
  have hword : (UInt64.ofNat n).toNat = n := UInt64.toNat_ofNat_of_lt' hn
  unfold Word.mulChecked?
  rw [hword, show (10 : UInt64).toNat = 10 from rfl]
  by_cases hmul : n * 10 < UInt64.size
  · have hprod : (UInt64.ofNat n * 10).toNat = n * 10 := by
      rw [UInt64.toNat_mul, hword]
      exact Nat.mod_eq_of_lt hmul
    rw [if_pos hmul]
    show Word.addChecked? _ _ = _
    unfold Word.addChecked?
    rw [hprod, hdigit]
    refine if_congr Iff.rfl (congrArg some ?_) rfl
    rw [UInt64.ofNat_add, UInt64.ofNat_mul]
    rfl
  · rw [if_neg hmul, if_neg (by omega)]
    rfl

/-- **The checked sum** is there exactly if all of it is a word without sign: the sums on the way are no
larger. -/
lemma decimalWord?_eq (ds : Bytes) :
    decimalWord? ds =
      if digitsValue 10 ds < UInt64.size then some (.ofNat (digitsValue 10 ds)) else none := by
  induction ds using List.reverseRecOn with
  | nil => rfl
  | append_singleton ds c ih =>
    have hstep : decimalWord? (ds ++ [c]) = decimalWord? ds >>= fun n =>
        Word.mulChecked? n 10 >>= fun m => Word.addChecked? m (.ofNat (digitValue c)) := by
      simp [decimalWord?, List.foldlM_append]
    rw [hstep, ih, Bytes.digitsValue_append]
    by_cases h : digitsValue 10 ds < UInt64.size
    · rw [if_pos h]
      exact addChecked?_mulChecked? _ h c
    · rw [if_neg h, if_neg (by omega)]
      rfl

/-- The limit of a sign is passed exactly by the numbers that are out of range under it. -/
lemma limit_lt_iff {n : ℕ} (hn : n < UInt64.size) :
    limit negative < UInt64.ofNat n ↔ ¬Word.InRange (if negative then -(n : ℤ) else n) := by
  rw [UInt64.lt_iff_toNat_lt, UInt64.toNat_ofNat_of_lt' hn, Word.InRange]
  cases negative with
  | false =>
    have hlimit : (limit false).toNat = 2 ^ 63 - 1 := rfl
    rw [hlimit]
    simp only [Bool.false_eq_true, if_false]
    omega
  | true =>
    have hlimit : (limit true).toNat = 2 ^ 63 := rfl
    rw [hlimit]
    simp only [if_true]
    omega

/-- In range, the sign can be put in front of the word: also before `2 ^ 63`, whose word is the least one,
because the negation of that wraps to itself. -/
lemma toInt_signed {n : ℕ} (h : Word.InRange (if negative then -(n : ℤ) else n)) :
    (if negative then -(UInt64.ofNat n).toInt64 else (UInt64.ofNat n).toInt64).toInt =
      if negative then -(n : ℤ) else n := by
  cases negative with
  | false =>
    have hn : n < 2 ^ 63 := by
      have := h.2
      simp only [Bool.false_eq_true, if_false] at this
      omega
    exact Int64.toInt_ofNat_of_lt hn
  | true =>
    have hn : n ≤ 2 ^ 63 := by
      have := h.1
      simp only [if_true] at this
      omega
    exact Int64.toInt_neg_ofNat_of_le hn

/-- **The decimal reading is exact.** -/
lemma decimalInt?_eq (negative : Bool) (ds : Bytes) :
    decimalInt? negative ds = Word.ofInt? (denoted negative 10 ds) := by
  unfold decimalInt?
  rw [decimalWord?_eq, denoted_eq]
  generalize digitsValue 10 ds = n
  by_cases hn : n < UInt64.size
  · rw [if_pos hn]
    show (if limit negative < UInt64.ofNat n then none else some _) = _
    by_cases hrange : Word.InRange (if negative then -(n : ℤ) else n)
    · rw [if_neg (mt (limit_lt_iff hn).1 (not_not_intro hrange))]
      exact (Word.ofInt?_eq_some_iff.2 (toInt_signed hrange).symm).symm
    · rw [if_pos ((limit_lt_iff hn).2 hrange)]
      exact (Word.ofInt?_eq_none_iff_not_inRange.2 hrange).symm
  · rw [if_neg hn]
    refine (Word.ofInt?_eq_none_iff_not_inRange.2 ?_).symm
    rw [UInt64.size] at hn
    unfold Word.InRange
    split <;> omega

/-! ### Hexadecimal digits -/

lemma hexWord_eq (ds : Bytes) :
    ds.foldl (fun (n : UInt64) c => n * 16 + UInt64.ofNat (digitValue c)) 0 =
      UInt64.ofNat (digitsValue 16 ds) := by
  induction ds using List.reverseRecOn with
  | nil => rfl
  | append_singleton ds c ih =>
    rw [List.foldl_append, ih, Bytes.digitsValue_append, UInt64.ofNat_add, UInt64.ofNat_mul]
    rfl

/-- **The hexadecimal reading is exact modulo `2 ^ 64`.** -/
lemma toInt_hexInt (negative : Bool) (ds : Bytes) :
    (hexInt negative ds).toInt ≡ denoted negative 16 ds [ZMOD 2 ^ 64] := by
  have hword : (Int64.ofNat (digitsValue 16 ds)).toInt ≡ digitsValue 16 ds [ZMOD 2 ^ 64] := by
    rw [Int64.toInt_ofNat']
    exact Int.bmod_emod
  rw [denoted_eq, hexInt, hexWord_eq]
  cases negative with
  | false => exact hword
  | true =>
    have hneg : (-Int64.ofNat (digitsValue 16 ds)).toInt ≡
        -(Int64.ofNat (digitsValue 16 ds)).toInt [ZMOD 2 ^ 64] := by
      rw [Int64.toInt_neg]
      exact Int.bmod_emod
    exact hneg.trans hword.neg

/-! ### The text of an integer -/

/-- An integer is written as the digits of its absolute value, after a minus if it is negative. -/
lemma intText_eq (i : ℤ) :
    Bytes.intText i = (if i < 0 then [45] else []) ++ natText i.natAbs := by
  unfold Bytes.intText
  split <;> rfl

lemma denoted_natText (i : ℤ) : denoted (decide (i < 0)) 10 (natText i.natAbs) = i := by
  rw [denoted_eq, Bytes.digitsValue_natText]
  simp only [decide_eq_true_eq]
  split <;> omega

end Numeral

end LuaCore
