import LuaCore.Proofs.Number.Exact
import LuaCore.Proofs.Table.Walk
import Mathlib.Order.Nat

/-!
The shape of tables, and their length.

However a table has been built, its array part ends in a value, and its hash part has no value under
the keys of the array part and the key behind it.  So the length of a table is the size of its array
part, which is a border, and counting through the integer keys one by one ends there or before.
-/

namespace LuaCore

namespace Table

variable {t : Table} {i : Int64} {n : Nat}

/-! ### Built tables -/

/-- **A table that operations have built** from a new one.  A clearing may go by any test here, also by
one that values pass which are no objects. -/
inductive Built : Table → Prop where
  | new (arrayHint hashHint : Nat) : Built (new arrayHint hashHint)
  | step {t : Table} (op : TableOp) (h : Built t) : Built (t.step op).1
  | clear {t : Table} (mode : WeakMode) (test : Value → Bool) (h : Built t) :
      Built (t.removeDead (t.deadEntries mode test))

/-- One operation keeps the invariant. -/
lemma WellFormed.step (h : t.WellFormed) (op : TableOp) : (t.step op).1.WellFormed := by
  cases op with
  | set x v =>
    simp only [Table.step, Table.set]
    cases hx : Key.ofValue? x with
    | some k => exact h.setKey (Key.isNormal_of_ofValue? hx)
    | none => exact h
  | setAt i v => exact (h.setAt i v).1
  | setName s v => exact h.setKey (k := .string s) rfl
  | compact => exact h.compact
  | clearWeak mode dead => exact (h.removeDead mode dead.test).1

/-- **Every built table has the invariant.** -/
theorem Built.wellFormed (h : t.Built) : t.WellFormed := by
  induction h with
  | new _ _ => exact wellFormed_empty
  | step op _ ih => exact ih.step op
  | clear mode test _ ih => exact (ih.removeDead mode test).1

lemma Built.run (h : t.Built) (ops : List TableOp) : (t.run ops).1.Built := by
  induction ops generalizing t with
  | nil => exact h
  | cons op ops ih => exact ih (h.step op)

/-! ### The shape of a table -/

/-- **The shape of a table**: how its two parts fit together, and what the number of tombstones is. -/
structure Shape (t : Table) : Prop where
  /-- The last place of the array part holds a value. -/
  ends : t.array.back? ≠ some .nil
  /-- The keys of the array part and the key behind it have no value in the hash part. -/
  vacant : ∀ (i : Int64) v, (.int i, v) ∈ t.hash.entries → 1 ≤ i.toInt → i.toInt ≤ t.arrayLen + 1 →
    v = .nil
  /-- A double that is equal to a word is no key. -/
  proper : ∀ x v, (.float x, v) ∈ t.hash.entries → ∀ i : Int64, x.value? ≠ some (.ofRat i.toInt)
  tombstones_eq : t.tombstones = (t.hash.entries.filter fun e => e.2.isNil).length
  tombstones_le : t.tombstones ≤ t.hash.size
  hashLen_eq : t.hashLen = (t.hash.entries.filter fun e => !e.2.isNil).length

lemma WellFormed.shape (h : t.WellFormed) : t.Shape where
  ends := h.ends
  vacant i v hmem h1 hle := by
    have hget : t.hashGet (.int i) = v := h.hashGet_of_mem hmem
    rw [arrayLen] at hle
    by_cases hi : i.toInt ≤ t.array.size
    · exact hget.symm.trans (h.apart i h1 hi)
    · exact hget.symm.trans (h.vacant i (by omega))
  proper x v hmem i hvalue := by
    have hnormal : Key.ofNumber? (.float x) = some (.float x) :=
      h.normal (.float x) (List.mem_map.2 ⟨_, hmem, rfl⟩)
    rw [Key.ofNumber?, Double.toWord?_eq_some_iff.2 hvalue] at hnormal
    split at hnormal <;> cases hnormal
  tombstones_eq := h.tombstones_eq.trans List.countP_eq_length_filter
  tombstones_le := h.tombstones_eq.trans_le List.countP_le_length
  hashLen_eq := by
    have hsum := List.length_eq_countP_add_countP (fun e : Key × Value => e.2.isNil)
      (l := t.hash.entries)
    simp only [Bool.not_eq_true, Bool.decide_eq_false] at hsum
    rw [hashLen, h.tombstones_eq, tombstoneCount, OrderedMap.size, hsum,
      Nat.add_sub_cancel_left, List.countP_eq_length_filter]

/-! ### The length -/

lemma WellFormed.getAt_frontier (h : t.WellFormed) (hi : i.toInt = t.array.size + 1) :
    t.getAt i = .nil := by
  rw [getAt, arrayIndex?_eq_none_iff.2 (by omega)]
  exact h.vacant i hi

/-- The hash part has nothing to count behind the array part. -/
lemma WellFormed.hashBorder_eq (h : t.WellFormed) (fuel : Nat) :
    t.hashBorder fuel t.array.size = t.array.size := by
  cases fuel with
  | zero => rfl
  | succ fuel =>
    unfold hashBorder
    refine if_neg ?_
    rintro ⟨hlt, hget⟩
    have hnil := h.vacant (Int64.ofNat (t.array.size + 1)) (toInt_ofNat_place hlt)
    rw [hnil] at hget
    cases hget

lemma WellFormed.length_eq_hashBorder (h : t.WellFormed) :
    t.length = t.hashBorder t.hash.size t.array.size := by
  rw [length]
  split
  · next hback => rw [Array.back?_eq_none_iff.1 hback]; rfl
  · next v hback =>
    have hv : v ≠ .nil := fun hnil => h.ends (hnil ▸ hback)
    rw [Value.isNil_eq_false_iff.2 hv, if_neg Bool.false_ne_true]

/-! ### Counting through the integer keys -/

/-- What the `n`-th of repeated steps from zero gives, the first one being step zero. -/
def nthAt (t : Table) : Nat → Option (Int64 × Value)
  | 0 => t.nextAt 0
  | n + 1 => (t.nthAt n).bind fun e => t.nextAt e.1

lemma toInt_add_one (hi : i ≠ Int64.maxValue) : (i + 1).toInt = i.toInt + 1 := by
  have hne : i.toInt ≠ Int64.maxValue.toInt := fun he => hi (Int64.toInt.inj he)
  have hle := i.toInt_le
  have hge := i.minValue_le_toInt
  rw [Int64.toInt_maxValue] at hne hle
  rw [Int64.toInt_minValue] at hge
  rw [Int64.toInt_add, Int64.toInt_one]
  exact Int.bmod_eq_of_le (by omega) (by omega)

lemma nextAt_eq_some {j : Int64} (hj : j.toInt = i.toInt + 1) (hv : t.getAt j ≠ .nil) :
    t.nextAt i = some (j, t.getAt j) := by
  have hne : i ≠ Int64.maxValue := by
    rintro rfl
    have := j.toInt_le
    omega
  have hsucc : i + 1 = j := Int64.toInt.inj ((toInt_add_one hne).trans hj.symm)
  rw [nextAt, if_neg hne, hsucc]
  simp only [Value.isNil_iff, if_neg hv]

lemma nextAt_eq_none (h : ∀ j : Int64, j.toInt = i.toInt + 1 → t.getAt j = .nil) :
    t.nextAt i = none := by
  unfold nextAt
  split
  · rfl
  · next hne => simp only [h _ (toInt_add_one hne), Value.isNil, if_true]

/-- The steps go through the keys as long as they have values. -/
lemma nthAt_eq_some {m : Nat} (hlive : ∀ n < m, ∃ j : Int64, j.toInt = n + 1 ∧ t.getAt j ≠ .nil)
    (hn : n < m) (hi : i.toInt = n + 1) : t.nthAt n = some (i, t.getAt i) := by
  have hv : t.getAt i ≠ .nil := by
    obtain ⟨j, hj, hv⟩ := hlive n hn
    rwa [← Int64.toInt.inj (hj.trans hi.symm)]
  induction n generalizing i with
  | zero => exact nextAt_eq_some hi hv
  | succ n ih =>
    obtain ⟨j, hj, hjv⟩ := hlive n (by omega)
    rw [nthAt, ih (by omega) hj hjv]
    exact nextAt_eq_some (hi.trans (by rw [hj]; rfl)) hv

/-- They end before the first key without a value. -/
lemma nthAt_eq_none {m : Nat} (hlive : ∀ n < m, ∃ j : Int64, j.toInt = n + 1 ∧ t.getAt j ≠ .nil)
    (hfree : ∀ j : Int64, j.toInt = m + 1 → t.getAt j = .nil) : t.nthAt m = none := by
  cases m with
  | zero => exact nextAt_eq_none hfree
  | succ m =>
    obtain ⟨i, hi, -⟩ := hlive m (by omega)
    rw [nthAt, nthAt_eq_some hlive (by omega) hi]
    exact nextAt_eq_none fun j hj => hfree j (hj.trans (by rw [hi]; rfl))

/-! ### The border -/

/-- **The length of a table is a border**, and is found without a search. -/
structure Border (t : Table) : Prop where
  length_eq : t.length = t.arrayLen
  /-- The length has a value, unless it is zero. -/
  reached : t.length = 0 ∨ ∃ i : Int64, i.toInt = t.length ∧ t.getAt i ≠ .nil
  /-- The key behind it has none. -/
  free : ∀ i : Int64, i.toInt = t.length + 1 → t.getAt i = .nil
  /-- The array part is not halved, for which it would have to end in nil. -/
  whole : ∀ v, t.array.back? = some v → v.isNil = false
  /-- The hash part adds nothing. -/
  still : ∀ fuel, t.hashBorder fuel t.arrayLen = t.arrayLen
  /-- Counting from zero goes through the keys in order, and ends at a border. -/
  counted : ∃ m ≤ t.length,
    (∀ n < m, ∃ i : Int64, i.toInt = n + 1 ∧ t.getAt i ≠ .nil ∧ t.nthAt n = some (i, t.getAt i)) ∧
    t.nthAt m = none ∧ ∀ i : Int64, i.toInt = m + 1 → t.getAt i = .nil

lemma WellFormed.length_eq (h : t.WellFormed) : t.length = t.array.size :=
  h.length_eq_hashBorder.trans (h.hashBorder_eq _)

lemma WellFormed.exists_getAt_length (h : t.WellFormed) (hpos : t.array.size ≠ 0) :
    ∃ i : Int64, i.toInt = t.array.size ∧ t.getAt i ≠ .nil := by
  obtain ⟨p, hp⟩ := Nat.exists_eq_succ_of_ne_zero hpos
  have hmax := h.size_le
  have hi : (Int64.ofNat (p + 1)).toInt = p + 1 := toInt_ofNat_place (by omega)
  refine ⟨Int64.ofNat (p + 1), by omega, ?_⟩
  rw [getAt, arrayIndex?_eq_some_iff.2 ⟨by omega, hi⟩]
  exact h.getD_last hp.symm

/-- Counting ends at the first border. -/
lemma WellFormed.exists_counted (h : t.WellFormed) : ∃ m ≤ t.array.size,
    (∀ n < m, ∃ i : Int64, i.toInt = n + 1 ∧ t.getAt i ≠ .nil ∧ t.nthAt n = some (i, t.getAt i)) ∧
    t.nthAt m = none ∧ ∀ i : Int64, i.toInt = m + 1 → t.getAt i = .nil := by
  classical
  have hexists : ∃ m : Nat, ∀ i : Int64, i.toInt = m + 1 → t.getAt i = .nil :=
    ⟨t.array.size, fun _ => h.getAt_frontier⟩
  have hlive : ∀ n < Nat.find hexists, ∃ i : Int64, i.toInt = n + 1 ∧ t.getAt i ≠ .nil := by
    intro n hn
    simpa only [not_forall, exists_prop] using Nat.find_min hexists hn
  have hfree := Nat.find_spec hexists
  refine ⟨Nat.find hexists, Nat.find_min' hexists fun _ => h.getAt_frontier, fun n hn => ?_,
    nthAt_eq_none hlive hfree, hfree⟩
  obtain ⟨i, hi, hv⟩ := hlive n hn
  exact ⟨i, hi, hv, nthAt_eq_some hlive hn hi⟩

/-- **Shape and length of built tables.**  However a table has been built, its parts fit together and
its tombstones are counted right; and its length is the size of its array part, a border. -/
theorem Built.shape_and_border (h : t.Built) : t.Shape ∧ t.Border := by
  have hw := h.wellFormed
  have hlength : t.length = t.arrayLen := hw.length_eq
  refine ⟨hw.shape, ?_⟩
  constructor
  case length_eq => exact hlength
  case reached =>
    rw [hlength]
    exact or_iff_not_imp_left.2 hw.exists_getAt_length
  case free =>
    rw [hlength]
    exact fun _ => hw.getAt_frontier
  case whole =>
    intro v hback
    exact Value.isNil_eq_false_iff.2 fun hnil => hw.ends (hnil ▸ hback)
  case still => exact hw.hashBorder_eq
  case counted =>
    rw [hlength]
    exact hw.exists_counted

/-- A table with a hole in its array part, and with a tombstone and an integer in its hash part. -/
def holed : Table :=
  ((new 0 0).run [.setAt 2 (.int 20), .setAt 1 (.int 10), .setAt 3 (.int 30), .setAt 2 .nil,
    .setAt 5 (.int 50), .set (.bool true) (.int 1), .set (.bool true) .nil]).1

lemma built_holed : holed.Built := (Built.new 0 0).run _

theorem shape_and_border_holed :
    holed.Built ∧ holed.length = 3 ∧ holed.tombstones = 1 ∧ holed.nthAt 1 = none ∧
      holed.Shape ∧ holed.Border := by
  refine ⟨built_holed, ?_, ?_, ?_, built_holed.shape_and_border⟩ <;> decide +kernel

end Table

end LuaCore
