import LuaCore.Proofs.Number.Digits
import Mathlib.Data.Rat.Floor

/-!
What division and shifts of words compute.

Machine division rounds toward zero, so its remainder has the sign of the dividend.  Where that is not the
sign of the divisor, the quotient is moved down by one and the remainder by one divisor, which makes them
those of the floor; a quotient with a remainder is far from the ends of the range, so moving it does not
leave the range.  A shift moves the places of a word up or down.  Its count is negated only where it is
small, and a count of sixty-four or more leaves nothing.

Main statements: `floorDiv?_eq_floor` and `floorMod?_eq_floor`, with `floor_division_exact` for both
together, and `shiftLeft?_eq_moved` and `shiftRight?_eq_moved`, with `shifts_logical`.
-/

namespace LuaCore

namespace Word

variable {a b n : Int64} {u : ℕ}

/-! ### Quotients toward zero -/

/-- A quotient with a remainder is at most half of a word. -/
lemma natAbs_tdiv_le (h : a % b ≠ 0) : (a.toInt.tdiv b.toInt).natAbs ≤ 2 ^ 62 := by
  have hmod : a.toInt.tmod b.toInt ≠ 0 := by
    rw [← Int64.toInt_mod]
    intro hzero
    exact h (Int64.toInt_inj.1 (hzero.trans Int64.toInt_zero.symm))
  have hone : b.toInt.natAbs ≠ 1 := by
    intro hone
    rcases Int.natAbs_eq_iff.1 hone with h1 | h1 <;> exact hmod (by rw [h1]; simp)
  have hle : a.toInt.natAbs ≤ 2 ^ 63 := by
    have := a.toInt_lt
    have := a.le_toInt
    omega
  rw [Int.natAbs_tdiv]
  rcases Nat.lt_or_ge b.toInt.natAbs 2 with hsmall | hlarge
  · obtain hzero : b.toInt.natAbs = 0 := by omega
    rw [hzero]
    exact (Nat.div_zero _).trans_le (Nat.zero_le _)
  · calc a.toInt.natAbs / b.toInt.natAbs ≤ a.toInt.natAbs / 2 := Nat.div_le_div_left hlarge (by decide)
      _ ≤ 2 ^ 62 := by omega

/-- Then it is not out of range, and neither is the one below. -/
lemma toInt_div_of_mod_ne_zero (h : a % b ≠ 0) :
    (a / b).toInt = a.toInt.tdiv b.toInt ∧ -2 ^ 62 ≤ (a / b).toInt ∧ (a / b).toInt ≤ 2 ^ 62 := by
  have hle := natAbs_tdiv_le h
  have heq : (a / b).toInt = a.toInt.tdiv b.toInt := by
    rw [Int64.toInt_div]
    exact Int.bmod_eq_of_le (by omega) (by omega)
  exact ⟨heq, by omega, by omega⟩

lemma mod_ne_zero_of_disagrees (h : disagrees (a % b) b = true) : a % b ≠ 0 := by
  simp only [disagrees, Bool.and_eq_true, bne_iff_ne] at h
  exact h.1

/-- A quotient that is moved down stays in range. -/
lemma inRange_div_sub_one (h : disagrees (a % b) b = true) : InRange ((a / b).toInt - 1) := by
  obtain ⟨-, hlow, hhigh⟩ := toInt_div_of_mod_ne_zero (mod_ne_zero_of_disagrees h)
  rw [InRange]
  omega

lemma natAbs_tmod_lt (hb : b ≠ 0) (a : Int64) :
    (a.toInt.tmod b.toInt).natAbs < b.toInt.natAbs := by
  rw [Int.natAbs_tmod]
  refine Nat.mod_lt _ (Int.natAbs_pos.2 fun h => hb ?_)
  exact Int64.toInt_inj.1 (h.trans Int64.toInt_zero.symm)

/-- The exclusive or is negative exactly if one of the two is and the other is not. -/
lemma disagrees_iff {r : Int64} :
    disagrees r b = true ↔ r.toInt ≠ 0 ∧ ¬(r.toInt < 0 ↔ b.toInt < 0) := by
  have hzero : r ≠ 0 ↔ r.toInt ≠ 0 := by rw [← Int64.toInt_zero, Ne, Ne, Int64.toInt_inj]
  have hsign : r ^^^ b < 0 ↔ ¬(r.toInt < 0 ↔ b.toInt < 0) := by
    rw [Int64.lt_iff_toBitVec_slt, Int64.toBitVec_xor]
    change BitVec.slt _ 0#64 = true ↔ _
    rw [BitVec.slt_zero_iff_msb_cond, BitVec.msb_xor, BitVec.msb_eq_toInt, BitVec.msb_eq_toInt,
      Int64.toInt_toBitVec, Int64.toInt_toBitVec, Bool.xor_iff_ne]
    simp
  rw [disagrees, Bool.and_eq_true, bne_iff_ne, decide_eq_true_iff, hzero, hsign]

/-! ### Remainders of the floor -/

/-- The remainders of a division rounded to the floor: from zero to the divisor, without the divisor. -/
def IsFloorRem (b m : ℤ) : Prop := (0 ≤ m ∧ m < b) ∨ (b < m ∧ m ≤ 0)

lemma IsFloorRem.sign_eq {b m : ℤ} (h : IsFloorRem b m) : m = 0 ∨ m.sign = b.sign := by
  rcases h with ⟨h0, hlt⟩ | ⟨hlt, h0⟩
  · rcases h0.eq_or_lt with hm | hm
    · exact .inl hm.symm
    · exact .inr (by rw [Int.sign_eq_one_of_pos hm, Int.sign_eq_one_of_pos (hm.trans hlt)])
  · rcases h0.eq_or_lt with hm | hm
    · exact .inl hm
    · exact .inr (by rw [Int.sign_eq_neg_one_of_neg hm, Int.sign_eq_neg_one_of_neg (hlt.trans hm)])

lemma IsFloorRem.abs_lt {b m : ℤ} (h : IsFloorRem b m) : |m| < |b| := by
  rcases h with ⟨h0, hlt⟩ | ⟨hlt, h0⟩
  · rw [abs_of_nonneg h0]
    exact hlt.trans_le (le_abs_self b)
  · rw [abs_of_nonpos h0]
    exact (neg_lt_neg hlt).trans_le (neg_le_abs b)

lemma IsFloorRem.inRange {m : ℤ} (h : IsFloorRem b.toInt m) : InRange m := by
  have := b.le_toInt
  have := b.toInt_lt
  unfold IsFloorRem at h
  unfold InRange
  omega

/-- A quotient that leaves such a remainder is the floor. -/
lemma floor_div_eq {a b q m : ℤ} (h : b * q + m = a) (hm : IsFloorRem b m) : ⌊(a : ℚ) / b⌋ = q := by
  rw [Int.floor_eq_iff]
  rcases hm with ⟨h0, hlt⟩ | ⟨hlt, h0⟩
  · have hb : (0 : ℚ) < b := by exact_mod_cast h0.trans_lt hlt
    rw [le_div_iff₀ hb, div_lt_iff₀ hb]
    constructor <;> norm_cast <;> linarith
  · have hb : (b : ℚ) < 0 := by exact_mod_cast hlt.trans_le h0
    rw [le_div_iff_of_neg hb, div_lt_iff_of_neg hb]
    constructor <;> norm_cast <;> linarith

/-- By how much the quotient is moved down, and by how many divisors the remainder is moved. -/
def correction (a b : Int64) : ℤ := if disagrees (a % b) b then 1 else 0

lemma isFloorRem_corrected (hb : b ≠ 0) (a : Int64) :
    IsFloorRem b.toInt (a.toInt.tmod b.toInt + b.toInt * correction a b) := by
  have hlt := natAbs_tmod_lt hb a
  unfold IsFloorRem correction
  split
  · next h =>
    rw [disagrees_iff, Int64.toInt_mod] at h
    omega
  · next h =>
    rw [disagrees_iff, Int64.toInt_mod] at h
    omega

lemma floor_div_eq_tdiv_sub (hb : b ≠ 0) (a : Int64) :
    ⌊(a.toInt : ℚ) / b.toInt⌋ = a.toInt.tdiv b.toInt - correction a b := by
  refine floor_div_eq ?_ (isFloorRem_corrected hb a)
  linarith [Int.mul_tdiv_add_tmod a.toInt b.toInt]

lemma sub_floor_eq_tmod_add (hb : b ≠ 0) (a : Int64) :
    a.toInt - b.toInt * ⌊(a.toInt : ℚ) / b.toInt⌋ =
      a.toInt.tmod b.toInt + b.toInt * correction a b := by
  rw [floor_div_eq_tdiv_sub hb]
  linarith [Int.mul_tdiv_add_tmod a.toInt b.toInt]

/-! ### Division -/

/-- The quotient is the floor, as a word. -/
lemma floorDiv?_eq_floor (hb : b ≠ 0) (a : Int64) :
    floorDiv? a b = some (.ofInt ⌊(a.toInt : ℚ) / b.toInt⌋) := by
  rw [floorDiv?, if_neg hb, floor_div_eq_tdiv_sub hb, correction]
  split
  · next h =>
    obtain ⟨hdiv, -⟩ := toInt_div_of_mod_ne_zero (mod_ne_zero_of_disagrees h)
    obtain ⟨q, hq, hval⟩ := ofInt?_of_inRange (inRange_div_sub_one h)
    rw [subChecked?, Int64.toInt_one, hq, ← hdiv, ← hval, Int64.ofInt_toInt]
  · -- the quotient is not moved here, and the word may have wrapped
    refine congrArg some (Int64.toInt_inj.1 ?_)
    rw [Int64.toInt_div, sub_zero, Int64.toInt_ofInt]

lemma floorMod?_eq_floor (hb : b ≠ 0) (a : Int64) :
    floorMod? a b = some (.ofInt (a.toInt - b.toInt * ⌊(a.toInt : ℚ) / b.toInt⌋)) := by
  rw [floorMod?, if_neg hb, sub_floor_eq_tmod_add hb, ← Int64.toInt_mod, correction]
  split
  · rw [mul_one, Int64.ofInt_add, Int64.ofInt_toInt, Int64.ofInt_toInt]
  · rw [mul_zero, add_zero, Int64.ofInt_toInt]

lemma exists_floorDiv? (hb : b ≠ 0) (a : Int64) : ∃ q, floorDiv? a b = some q :=
  ⟨_, floorDiv?_eq_floor hb a⟩

lemma exists_floorMod? (hb : b ≠ 0) (a : Int64) : ∃ r, floorMod? a b = some r :=
  ⟨_, floorMod?_eq_floor hb a⟩

/-- A quotient and a remainder of words, by the floor. -/
structure IsFloorDivision (a b q r : Int64) : Prop where
  /-- The quotient is the floor, reduced into the range of words. -/
  quotient : q.toInt = ⌊(a.toInt : ℚ) / b.toInt⌋.bmod (2 ^ 64)
  /-- The remainder goes with the floor itself, reduced or not. -/
  remainder : r.toInt = a.toInt - b.toInt * ⌊(a.toInt : ℚ) / b.toInt⌋
  sign : r = 0 ∨ r.toInt.sign = b.toInt.sign
  smaller : |r.toInt| < |b.toInt|
  /-- In words, where sums and products wrap. -/
  dividend : q * b + r = a

/-- **Division rounds to the floor for every divisor other than zero.**  The quotient and the remainder
are there, and they are those of the floor.  Where the quotient is moved down, the one below is in
range. -/
theorem floor_division_exact (a b : Int64) (hb : b ≠ 0) :
    (∃ q r, floorDiv? a b = some q ∧ floorMod? a b = some r ∧ IsFloorDivision a b q r) ∧
    (disagrees (a % b) b = true → InRange ((a / b).toInt - 1)) := by
  have hrem : IsFloorRem b.toInt (a.toInt - b.toInt * ⌊(a.toInt : ℚ) / b.toInt⌋) :=
    sub_floor_eq_tmod_add hb a ▸ isFloorRem_corrected hb a
  have hval : (Int64.ofInt (a.toInt - b.toInt * ⌊(a.toInt : ℚ) / b.toInt⌋)).toInt =
      a.toInt - b.toInt * ⌊(a.toInt : ℚ) / b.toInt⌋ :=
    Int64.toInt_ofInt_of_le hrem.inRange.1 hrem.inRange.2
  refine ⟨⟨_, _, floorDiv?_eq_floor hb a, floorMod?_eq_floor hb a, ?_⟩, inRange_div_sub_one⟩
  constructor
  case quotient => exact Int64.toInt_ofInt
  case remainder => exact hval
  case sign =>
    rw [hval]
    exact hrem.sign_eq.imp_left fun h => by rw [h]; rfl
  case smaller =>
    rw [hval]
    exact hrem.abs_lt
  case dividend =>
    generalize ⌊(a.toInt : ℚ) / b.toInt⌋ = f
    calc Int64.ofInt f * b + .ofInt (a.toInt - b.toInt * f)
        = .ofInt (f * b.toInt + (a.toInt - b.toInt * f)) := by
          rw [Int64.ofInt_add, Int64.ofInt_mul, Int64.ofInt_toInt]
      _ = .ofInt a.toInt := congrArg _ (by ring)
      _ = a := Int64.ofInt_toInt a

/-- The least word divided by minus one, which wraps, and by three, where the quotient is moved. -/
theorem floor_division_exact_least :
    (-1 : Int64) ≠ 0 ∧ IsFloorDivision Int64.minValue (-1) Int64.minValue 0 ∧
    (3 : Int64) ≠ 0 ∧ IsFloorDivision Int64.minValue 3 (-3074457345618258603) 1 ∧
    disagrees (Int64.minValue % 3) 3 = true ∧ InRange ((Int64.minValue / 3).toInt - 1) := by
  obtain ⟨⟨q, r, hq, hr, hone⟩, -⟩ := floor_division_exact Int64.minValue (-1) (by decide)
  obtain rfl : Int64.minValue = q := Option.some_inj.1 hq
  obtain rfl : 0 = r := Option.some_inj.1 hr
  obtain ⟨⟨q, r, hq, hr, hthree⟩, hrange⟩ := floor_division_exact Int64.minValue 3 (by decide)
  obtain rfl : -3074457345618258603 = q := Option.some_inj.1 hq
  obtain rfl : 1 = r := Option.some_inj.1 hr
  exact ⟨by decide, hone, by decide, hthree, by decide, hrange (by decide)⟩

/-! ### Counts of shifts -/

/-- A small count is taken as it is. -/
lemma toNat_places (h0 : 0 ≤ n.toInt) (h : n.toInt < 64) : (places n).toNat = n.toInt.natAbs := by
  have hnat : n.toUInt64.toNat = n.toInt.toNat := by
    rw [← Int64.toNat_toBitVec]
    exact (BitVec.toNat_toInt_of_sle (by rw [BitVec.sle_iff_toInt_le]; exact h0)).symm
  rw [places, UInt64.toNat_toUInt32, hnat]
  change n.toInt.toNat % 2 ^ 32 = n.toInt.natAbs
  omega

lemma lt_zero_iff : b < 0 ↔ b.toInt < 0 := by rw [Int64.lt_iff_toInt_lt, Int64.toInt_zero]

lemma beyond_iff : (b ≤ -64 ∨ 64 ≤ b) ↔ 64 ≤ b.toInt.natAbs := by
  rw [Int64.le_iff_toInt_le, Int64.le_iff_toInt_le]
  change (b.toInt ≤ -64 ∨ 64 ≤ b.toInt) ↔ _
  omega

/-- The places that a count shifts by: it is negated if it is negative, which does not overflow, and
there are fewer than the word has. -/
def HasPlaces (b : Int64) : Prop :=
  ∃ n, (if b < 0 then negChecked? b else some b) = some n ∧ (places n).toNat = b.toInt.natAbs ∧
    places n < 64

lemma hasPlaces (h : b.toInt.natAbs < 64) : HasPlaces b := by
  have hplaces : ∀ n : Int64, 0 ≤ n.toInt → n.toInt.natAbs = b.toInt.natAbs →
      (places n).toNat = b.toInt.natAbs ∧ places n < 64 := by
    intro n h0 habs
    have hval := toNat_places h0 (by omega)
    refine ⟨hval.trans habs, UInt32.lt_iff_toNat_lt.2 ?_⟩
    change (places n).toNat < 64
    omega
  unfold HasPlaces
  split
  · next hneg =>
    rw [lt_zero_iff] at hneg
    obtain ⟨n, hn, hval⟩ := ofInt?_of_inRange (n := -b.toInt) ⟨by omega, by omega⟩
    exact ⟨n, hn, hplaces n (by omega) (by omega)⟩
  · next hneg =>
    rw [lt_zero_iff, not_lt] at hneg
    exact ⟨b, rfl, hplaces b hneg rfl⟩

/-- A count either leaves nothing or has places. -/
lemma beyond_or_hasPlaces (b : Int64) : b ≤ -64 ∨ 64 ≤ b ∨ HasPlaces b := by
  rcases Nat.lt_or_ge b.toInt.natAbs 64 with hlt | hge
  · exact .inr (.inr (hasPlaces hlt))
  · exact (beyond_iff.2 hge).imp_right .inl

/-! ### Shifts -/

lemma toNat_shlChecked? {n : UInt32} (u : UInt64) (h : n < 64) :
    ∃ w, shlChecked? u n = some w ∧ w.toNat = u.toNat * 2 ^ n.toNat % 2 ^ 64 := by
  refine ⟨_, if_pos h, ?_⟩
  have hlt : n.toNat < 64 := UInt32.lt_iff_toNat_lt.1 h
  rw [UInt64.toNat_shiftLeft, UInt32.toNat_toUInt64, Nat.mod_eq_of_lt hlt, Nat.shiftLeft_eq]

lemma toNat_shrChecked? {n : UInt32} (u : UInt64) (h : n < 64) :
    ∃ w, shrChecked? u n = some w ∧ w.toNat = u.toNat / 2 ^ n.toNat := by
  refine ⟨_, if_pos h, ?_⟩
  have hlt : n.toNat < 64 := UInt32.lt_iff_toNat_lt.1 h
  rw [UInt64.toNat_shiftRight, UInt32.toNat_toUInt64, Nat.mod_eq_of_lt hlt, Nat.shiftRight_eq_div_pow]

/-- A number moved up by `k` binary places within a word, or down if `k` is negative. -/
def moved (u : ℕ) (k : ℤ) : ℕ :=
  if 0 ≤ k then u * 2 ^ k.natAbs % 2 ^ 64 else u / 2 ^ k.natAbs

lemma moved_eq_zero {k : ℤ} (hu : u < 2 ^ 64) (hk : 64 ≤ k.natAbs) : moved u k = 0 := by
  have hpow : 2 ^ 64 ∣ 2 ^ k.natAbs := pow_dvd_pow 2 hk
  unfold moved
  split
  · exact Nat.mod_eq_zero_of_dvd (hpow.mul_left u)
  · exact Nat.div_eq_of_lt (hu.trans_le (Nat.le_of_dvd (by positivity) hpow))

lemma moved_neg (hu : u < 2 ^ 64) (k : ℤ) :
    moved u (-k) = if 0 ≤ k then u / 2 ^ k.natAbs else u * 2 ^ k.natAbs % 2 ^ 64 := by
  rcases lt_trichotomy k 0 with hk | rfl | hk
  · rw [moved, if_pos (by omega), if_neg (by omega), Int.natAbs_neg]
  · rw [moved, if_pos (by omega), if_pos le_rfl]
    simpa using hu
  · rw [moved, if_neg (by omega), if_pos hk.le, Int.natAbs_neg]

lemma shiftLeft?_eq_moved (a b : Int64) :
    ∃ l, shiftLeft? a b = some l ∧ l.toUInt64.toNat = moved a.toUInt64.toNat b.toInt := by
  rw [shiftLeft?]
  split
  · next hcount =>
    refine ⟨0, rfl, ?_⟩
    rw [moved_eq_zero a.toUInt64.toNat_lt (beyond_iff.1 hcount)]
    rfl
  · next hcount =>
    rw [beyond_iff, not_le] at hcount
    obtain ⟨n, hn, hval, hlt⟩ := hasPlaces hcount
    split
    · next hneg =>
      rw [if_pos hneg] at hn
      obtain ⟨w, hw, hnat⟩ := toNat_shrChecked? a.toUInt64 hlt
      refine ⟨w.toInt64, by rw [hn, Option.bind_eq_bind, Option.bind_some, hw]; rfl, ?_⟩
      rw [UInt64.toUInt64_toInt64, hnat, hval, moved, if_neg (not_le.2 (lt_zero_iff.1 hneg))]
    · next hneg =>
      rw [if_neg hneg] at hn
      obtain rfl : b = n := Option.some_inj.1 hn
      obtain ⟨w, hw, hnat⟩ := toNat_shlChecked? a.toUInt64 hlt
      refine ⟨w.toInt64, by rw [hw]; rfl, ?_⟩
      rw [UInt64.toUInt64_toInt64, hnat, hval, moved, if_pos (not_lt.1 (mt lt_zero_iff.2 hneg))]

/-- The opposite of a count wraps only at the least word, which leaves nothing either way. -/
lemma shiftRight?_eq_moved (a b : Int64) :
    ∃ r, shiftRight? a b = some r ∧ r.toUInt64.toNat = moved a.toUInt64.toNat (-b.toInt) := by
  obtain ⟨r, hr, hnat⟩ := shiftLeft?_eq_moved a (-b)
  refine ⟨r, hr, hnat.trans ?_⟩
  have hu := a.toUInt64.toNat_lt
  have hlow := b.le_toInt
  have hhigh := b.toInt_lt
  rw [Int64.toInt_neg]
  by_cases hleast : b.toInt = -2 ^ 63
  · rw [hleast, moved_eq_zero hu (by decide), moved_eq_zero hu (by decide)]
  · rw [Int.bmod_eq_of_le (by omega) (by omega)]

lemma exists_shiftLeft? (a b : Int64) : ∃ r, shiftLeft? a b = some r := by
  obtain ⟨l, hl, -⟩ := shiftLeft?_eq_moved a b
  exact ⟨l, hl⟩

lemma exists_shiftRight? (a b : Int64) : ∃ r, shiftRight? a b = some r := exists_shiftLeft? a (-b)

/-- **Shifts are logical for every count.**  Without signs, a shift to the left multiplies by a power of
two, modulo `2 ^ 64`, and one to the right divides by it and rounds down; a negative count goes the other
way.  A count that does not leave nothing has places to shift by, and so has the opposite one, by which a
shift to the right goes. -/
theorem shifts_logical (a b : Int64) :
    ∃ l r, shiftLeft? a b = some l ∧ shiftRight? a b = some r ∧
      l.toUInt64.toNat =
        (if 0 ≤ b.toInt then a.toUInt64.toNat * 2 ^ b.toInt.natAbs % 2 ^ 64
          else a.toUInt64.toNat / 2 ^ b.toInt.natAbs) ∧
      r.toUInt64.toNat =
        (if 0 ≤ b.toInt then a.toUInt64.toNat / 2 ^ b.toInt.natAbs
          else a.toUInt64.toNat * 2 ^ b.toInt.natAbs % 2 ^ 64) ∧
      (b ≤ -64 ∨ 64 ≤ b ∨ HasPlaces b) ∧ (-b ≤ -64 ∨ 64 ≤ -b ∨ HasPlaces (-b)) := by
  obtain ⟨l, hl, hlval⟩ := shiftLeft?_eq_moved a b
  obtain ⟨r, hr, hrval⟩ := shiftRight?_eq_moved a b
  rw [moved_neg a.toUInt64.toNat_lt] at hrval
  exact ⟨l, r, hl, hr, hlval, hrval, beyond_or_hasPlaces b, beyond_or_hasPlaces (-b)⟩

/-- By the least count and by the greatest nothing is left; by sixty-three places one bit is. -/
example :
    shiftRight? (-1) Int64.minValue = some 0 ∧ shiftLeft? (-1) Int64.maxValue = some 0 ∧
      shiftLeft? (-1) (-63) = some 1 ∧ shiftRight? 1 (-63) = some Int64.minValue := by decide

end Word

end LuaCore
