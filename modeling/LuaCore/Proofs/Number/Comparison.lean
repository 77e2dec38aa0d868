import LuaCore.Proofs.Number.Exact

/-!
Numbers are compared by their exact values.

Two words are compared as integers, and two doubles by their ranks.  A word and a double are compared
by the ceiling or the floor of the double, if that is a word, and else by the sign of the double, which
is then beyond all words.  All this comes to one order, that of the values.
-/

namespace LuaCore

namespace Double

variable {x y : Double} {a : Extended}

/-- Doubles that are no NaNs are compared by their ranks, and so by their values. -/
lemma compare_iff {r : Extended → Extended → Prop} {s : Int → Int → Prop} [DecidableRel s]
    (h : ∀ {a b}, x.value? = some a → y.value? = some b → (r a b ↔ s x.rank y.rank)) :
    (!x.isNaN && !y.isNaN && decide (s x.rank y.rank)) = true ↔
      ∃ a b, x.value? = some a ∧ y.value? = some b ∧ r a b := by
  simp only [Bool.and_eq_true, Bool.not_eq_true', isNaN_eq_false_iff, decide_eq_true_eq]
  constructor
  · rintro ⟨⟨⟨a, ha⟩, b, hb⟩, hs⟩
    exact ⟨a, b, ha, hb, (h ha hb).2 hs⟩
  · rintro ⟨a, b, ha, hb, hr⟩
    exact ⟨⟨⟨a, ha⟩, b, hb⟩, (h ha hb).1 hr⟩

lemma lt_iff : x.lt y = true ↔ ∃ a b, x.value? = some a ∧ y.value? = some b ∧ a < b :=
  compare_iff value_lt_iff

lemma le_iff : x.le y = true ↔ ∃ a b, x.value? = some a ∧ y.value? = some b ∧ a ≤ b :=
  compare_iff value_le_iff

lemma eq_iff : x.eq y = true ↔ ∃ a b, x.value? = some a ∧ y.value? = some b ∧ a = b :=
  compare_iff value_eq_iff

/-! ### The sign of a double beyond the words -/

lemma value?_zero : zero.value? = some (.ofRat (0 : Int64).toInt) :=
  toWord?_eq_some_iff.1 (by decide +kernel)

lemma zero_lt_iff : zero.lt y = true ↔ ∃ a, y.value? = some a ∧ .ofRat (0 : Int64).toInt < a := by
  simp only [lt_iff, value?_zero, Option.some_inj, exists_and_left, exists_eq_left']

lemma lt_zero_iff : x.lt zero = true ↔ ∃ a, x.value? = some a ∧ a < .ofRat (0 : Int64).toInt := by
  simp only [lt_iff, value?_zero, Option.some_inj, exists_and_left, exists_eq_left']

/-- A value that is not below the words is positive and above them all. -/
lemma Beyond.above_iff (h : Beyond a) (i j : Int64) :
    (.ofRat i.toInt < a ↔ .ofRat j.toInt < a) ∧ (.ofRat i.toInt ≤ a ↔ .ofRat j.toInt < a) := by
  rcases h with h | h
  · exact ⟨iff_of_true (h i) (h j), iff_of_true (h i).le (h j)⟩
  · exact ⟨iff_of_false (h i).asymm (h j).asymm, iff_of_false (h i).not_ge (h j).asymm⟩

/-- A value that is not above the words is negative and below them all. -/
lemma Beyond.below_iff (h : Beyond a) (i j : Int64) :
    (a < .ofRat i.toInt ↔ a < .ofRat j.toInt) ∧ (a ≤ .ofRat i.toInt ↔ a < .ofRat j.toInt) := by
  rcases h with h | h
  · exact ⟨iff_of_false (h i).asymm (h j).asymm, iff_of_false (h i).not_ge (h j).asymm⟩
  · exact ⟨iff_of_true (h i) (h j), iff_of_true (h i).le (h j)⟩

end Double

namespace Number

variable {m n : Number}

/-- The exact value of a number; a NaN has none. -/
def value? : Number → Option Extended
  | int i => some (.ofRat i.toInt)
  | float x => x.value?

/-- Two numbers, neither a NaN, whose exact values stand in a relation. -/
def Compares (r : Extended → Extended → Prop) (m n : Number) : Prop :=
  ∃ a b, m.value? = some a ∧ n.value? = some b ∧ r a b

/-! ### A word and a double -/

lemma int_lt_float_iff (i : Int64) (y : Double) :
    (int i).lt (float y) = true ↔ ∃ b, y.value? = some b ∧ .ofRat i.toInt < b := by
  rw [lt]
  cases hc : y.ceilWord? with
  | some j =>
    obtain ⟨b, hb, hcmp⟩ := Double.exists_value_of_ceilWord? hc
    simp [hb, hcmp]
  | none =>
    rw [Double.zero_lt_iff]
    refine exists_congr fun b => and_congr_right fun hb => ?_
    exact ((Double.beyond_of_ceilWord? hc hb).above_iff i 0).1.symm

lemma int_le_float_iff (i : Int64) (y : Double) :
    (int i).le (float y) = true ↔ ∃ b, y.value? = some b ∧ .ofRat i.toInt ≤ b := by
  rw [le]
  cases hc : y.floorWord? with
  | some j =>
    obtain ⟨b, hb, hcmp⟩ := Double.exists_value_of_floorWord? hc
    have hle : .ofRat i.toInt ≤ b ↔ i ≤ j := by rw [← not_lt, hcmp, Int64.not_lt]
    simp [hb, hle]
  | none =>
    rw [Double.zero_lt_iff]
    refine exists_congr fun b => and_congr_right fun hb => ?_
    exact ((Double.beyond_of_floorWord? hc hb).above_iff i 0).2.symm

lemma float_lt_int_iff (x : Double) (j : Int64) :
    (float x).lt (int j) = true ↔ ∃ a, x.value? = some a ∧ a < .ofRat j.toInt := by
  rw [lt]
  cases hc : x.floorWord? with
  | some i =>
    obtain ⟨a, ha, hcmp⟩ := Double.exists_value_of_floorWord? hc
    simp [ha, hcmp]
  | none =>
    rw [Double.lt_zero_iff]
    refine exists_congr fun a => and_congr_right fun ha => ?_
    exact ((Double.beyond_of_floorWord? hc ha).below_iff j 0).1.symm

lemma float_le_int_iff (x : Double) (j : Int64) :
    (float x).le (int j) = true ↔ ∃ a, x.value? = some a ∧ a ≤ .ofRat j.toInt := by
  rw [le]
  cases hc : x.ceilWord? with
  | some i =>
    obtain ⟨a, ha, hcmp⟩ := Double.exists_value_of_ceilWord? hc
    have hle : a ≤ .ofRat j.toInt ↔ i ≤ j := by rw [← not_lt, hcmp, Int64.not_lt]
    simp [ha, hle]
  | none =>
    rw [Double.lt_zero_iff]
    refine exists_congr fun a => and_congr_right fun ha => ?_
    exact ((Double.beyond_of_ceilWord? hc ha).below_iff j 0).2.symm

/-! ### Any two numbers -/

/-- **Less than is less than on the exact values.** -/
theorem lt_iff (m n : Number) : m.lt n = true ↔ m.Compares (· < ·) n := by
  cases m with
  | int i =>
    cases n with
    | int j => simp [lt, Compares, value?, Int64.lt_iff_toInt_lt]
    | float y => simp [int_lt_float_iff, Compares, value?]
  | float x =>
    cases n with
    | int j => simp [float_lt_int_iff, Compares, value?]
    | float y => exact Double.lt_iff

/-- **Less than or equal is so on the exact values.** -/
theorem le_iff (m n : Number) : m.le n = true ↔ m.Compares (· ≤ ·) n := by
  cases m with
  | int i =>
    cases n with
    | int j => simp [le, Compares, value?, Int64.le_iff_toInt_le]
    | float y => simp [int_le_float_iff, Compares, value?]
  | float x =>
    cases n with
    | int j => simp [float_le_int_iff, Compares, value?]
    | float y => exact Double.le_iff

/-- **Numbers are equal if their exact values are.** -/
theorem eq_iff (m n : Number) : m.eq n = true ↔ m.Compares (· = ·) n := by
  cases m with
  | int i =>
    cases n with
    | int j => simp [eq, Compares, value?, Int64.toInt_inj]
    | float y => simp [eq, Compares, value?, Double.toWord?_eq_some_iff]
  | float x =>
    cases n with
    | int j => simp [eq, Compares, value?, Double.toWord?_eq_some_iff]
    | float y => exact Double.eq_iff

end Number

end LuaCore
