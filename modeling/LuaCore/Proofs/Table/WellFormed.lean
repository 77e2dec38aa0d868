import LuaCore.Proofs.Table.Parts

/-!
What holds of every table, and what an assignment does to the values under its keys.

A table answers for a key from its array part, or else from its hash part.  Which part holds a key
depends on the history of the table, so the invariant `WellFormed` says how the two parts fit
together: the array part and the key behind it have no values in the hash part.  Under it a table is
known by the values under its keys, and an assignment changes the value under one key.
-/

namespace LuaCore.Table

variable {t : Table} {i : Int64} {j k : Key} {v : Value}

/-! ### The invariant -/

/-- The two parts agree: no key of the array part has a value in the hash part. -/
structure Consistent (t : Table) : Prop where
  nodup : t.hash.keys.Nodup
  normal : ∀ k ∈ t.hash.keys, k.IsNormal
  tombstones_eq : t.tombstones = tombstoneCount t.hash
  size_le : (t.array.size : Int) ≤ Int64.maxValue.toInt
  ends : t.array.back? ≠ some .nil
  apart : ∀ i : Int64, 1 ≤ i.toInt → i.toInt ≤ t.array.size → t.hashGet (.int i) = .nil

/-- **The invariant of tables.**  Besides, the key behind the array part has no value. -/
structure WellFormed (t : Table) : Prop extends Consistent t where
  vacant : ∀ i : Int64, i.toInt = t.array.size + 1 → t.hashGet (.int i) = .nil

lemma wellFormed_empty : empty.WellFormed where
  nodup := List.nodup_nil
  normal := by intro k hk; cases hk
  tombstones_eq := rfl
  size_le := by decide
  ends := by decide
  apart := by intro _ _ _; rfl
  vacant := by intro _ _; rfl

/-- Under the invariant a value is in the array part, or else in the hash part. -/
lemma Consistent.getKey_eq (h : t.Consistent) (k : Key) :
    t.getKey k = if t.arrayGet k = .nil then t.hashGet k else t.arrayGet k := by
  cases k with
  | int i =>
    rw [getKey, getAt]
    split
    · next n hn =>
      obtain ⟨hlt, hi⟩ := arrayIndex?_eq_some_iff.1 hn
      rw [arrayGet_of_toInt hi]
      by_cases hnil : t.array.getD n .nil = .nil
      · rw [if_pos hnil, hnil, h.apart i (by omega) (by omega)]
      · rw [if_neg hnil]
    · next hn =>
      have hnil : t.arrayGet (.int i) = .nil := by
        by_contra hne
        obtain ⟨_, n, he, hlt, hi⟩ := exists_of_arrayGet hne
        cases he
        exact arrayIndex?_eq_none_iff.1 hn ⟨by omega, by omega⟩
      rw [if_pos hnil]
  | _ => rfl

/-- What the hash part lists is what it gives. -/
lemma Consistent.hashGet_of_mem (h : t.Consistent) (hmem : (k, v) ∈ t.hash.entries) :
    t.hashGet k = v :=
  hashGet_of_find? ((OrderedMap.find?_eq_some_iff h.nodup).2 hmem)

/-- A value in the hash part is the value under its key. -/
lemma Consistent.getKey_of_hashGet (h : t.Consistent) (hk : t.hashGet k ≠ .nil) :
    t.getKey k = t.hashGet k := by
  rw [h.getKey_eq, if_pos]
  by_contra hne
  obtain ⟨i, n, rfl, hlt, hi⟩ := exists_of_arrayGet hne
  exact hk (h.apart i (by omega) (by omega))

/-! ### Assigning in the hash part -/

/-- A value may go into the hash part under any key that the array part does not reach. -/
lemma WellFormed.hashSet (h : t.WellFormed) (hk : k.IsNormal)
    (hv : ∀ i, k = .int i → 1 ≤ i.toInt → i.toInt ≤ t.array.size + 1 → v = .nil) :
    (t.hashSet k v).WellFormed where
  nodup := nodup_keys_hashSet h.nodup
  normal := by
    intro j hj
    rcases mem_keys_hashSet hj with rfl | hj
    · exact hk
    · exact h.normal j hj
  tombstones_eq := tombstones_hashSet h.nodup h.tombstones_eq
  size_le := by rw [array_hashSet]; exact h.size_le
  ends := by rw [array_hashSet]; exact h.ends
  apart := by
    intro i h1 hi
    rw [array_hashSet] at hi
    rw [hashGet_hashSet h.nodup]
    split
    · next he => exact hv i he.symm h1 (by omega)
    · exact h.apart i h1 hi
  vacant := by
    intro i hi
    rw [array_hashSet] at hi
    rw [hashGet_hashSet h.nodup]
    split
    · next he => exact hv i he.symm (by omega) (by omega)
    · exact h.vacant i hi

lemma arrayGet_hashSet : (t.hashSet k v).arrayGet j = t.arrayGet j := by
  cases j with
  | int i => simp only [arrayGet, array_hashSet]
  | _ => rfl

/-- Two tables that differ under one key only, in what their parts hold. -/
lemma getKey_of_parts {u : Table} (ht : t.Consistent) (hu : u.Consistent)
    (harray : ∀ j, j ≠ k → u.arrayGet j = t.arrayGet j)
    (hhash : ∀ j, j ≠ k → u.hashGet j = t.hashGet j) (hk : u.getKey k = v) (j : Key) :
    u.getKey j = if j = k then v else t.getKey j := by
  split
  · next hj => rw [hj, hk]
  · next hj => rw [hu.getKey_eq, ht.getKey_eq, harray j hj, hhash j hj]

lemma WellFormed.getKey_hashSet (h : t.WellFormed) (hu : (t.hashSet k v).Consistent)
    (hk : t.arrayGet k = .nil) (j : Key) :
    (t.hashSet k v).getKey j = if j = k then v else t.getKey j := by
  refine getKey_of_parts h.toConsistent hu (fun _ _ => arrayGet_hashSet) (fun j hj => ?_) ?_ j
  · rw [hashGet_hashSet h.nodup, if_neg hj]
  · rw [hu.getKey_eq, arrayGet_hashSet, if_pos hk, hashGet_hashSet h.nodup, if_pos rfl]

/-! ### Assigning in the array part -/

/-- The array part may be replaced by one that is not longer. -/
lemma WellFormed.withArray (h : t.WellFormed) {a : Array Value} (hsize : a.size ≤ t.array.size)
    (hends : a.back? ≠ some .nil) : ({ t with array := a } : Table).WellFormed where
  nodup := h.nodup
  normal := h.normal
  tombstones_eq := h.tombstones_eq
  size_le := by have := h.size_le; simp only; omega
  ends := hends
  apart := fun i h1 hi => h.apart i h1 (by simp only at hi; omega)
  vacant := by
    intro i hi
    simp only at hi
    by_cases hle : i.toInt ≤ t.array.size
    · exact h.apart i (by omega) hle
    · exact h.vacant i (by omega)

/-- An element of the array part is replaced, and the nils at the end are dropped if it was the
last. -/
def setPlace (t : Table) (n : Nat) (v : Value) : Table :=
  let u := { t with array := t.array.setIfInBounds n v }
  if v.isNil && n + 1 == t.array.size then u.trim else u

lemma arrayGet_setPlace {n : Nat} (hn : n < t.array.size) (hi : i.toInt = n + 1) :
    (t.setPlace n v).arrayGet k = if k = .int i then v else t.arrayGet k := by
  unfold setPlace
  simp only
  split
  · rw [arrayGet_trim, arrayGet_set hn hi]
  · exact arrayGet_set hn hi

lemma WellFormed.setPlace (h : t.WellFormed) {n : Nat} (hn : n < t.array.size) :
    (t.setPlace n v).WellFormed := by
  unfold Table.setPlace
  simp only
  split
  · refine h.withArray ?_ (back?_popWhile _)
    exact Nat.le_trans (size_popWhile_le _) (by simp)
  · next hlast =>
    refine h.withArray (by simp) ?_
    rw [Array.back?_eq_getElem?, Array.size_setIfInBounds, Array.getElem?_setIfInBounds]
    split
    · next hn' =>
      intro hv
      rw [Option.some_inj] at hv
      refine hlast ?_
      simp only [hv, Value.isNil, Bool.true_and, beq_iff_eq]
      omega
    · rw [← Array.back?_eq_getElem?]
      exact h.ends

lemma WellFormed.getKey_setPlace (h : t.WellFormed) {n : Nat} (hn : n < t.array.size)
    (hi : i.toInt = n + 1) (j : Key) :
    (t.setPlace n v).getKey j = if j = .int i then v else t.getKey j := by
  have hu := (h.setPlace (v := v) hn).toConsistent
  have hhash : ∀ j, (t.setPlace n v).hashGet j = t.hashGet j := by
    intro j
    unfold Table.setPlace
    simp only
    split <;> rfl
  refine getKey_of_parts h.toConsistent hu (fun j hj => ?_) (fun j _ => hhash j) ?_ j
  · rw [arrayGet_setPlace hn hi, if_neg hj]
  · rw [hu.getKey_eq, arrayGet_setPlace hn hi, if_pos rfl, hhash, h.apart i (by omega) (by omega)]
    split <;> simp_all

/-! ### Migration -/

lemma frontier_eq (hi : i.toInt = t.array.size + 1) : t.frontier = .int i := by
  have hlt := i.toInt_lt
  have hnat : (Int64.ofNat (t.array.size + 1)).toInt = i.toInt := by
    rw [Int64.toInt_ofNat_of_lt (by omega), hi]
    omega
  rw [frontier, Int64.toInt.inj hnat]

/-- The key behind an array part that is not as long as can be. -/
lemma exists_frontier (h : ¬ Int64.maxValue.toInt ≤ t.array.size) :
    ∃ i : Int64, i.toInt = t.array.size + 1 ∧ t.frontier = .int i := by
  rw [Int64.toInt_maxValue] at h
  refine ⟨Int64.ofNat (t.array.size + 1), ?_, rfl⟩
  rw [Int64.toInt_ofNat_of_lt (by omega)]
  omega

lemma tombstoneCount_erase {m : OrderedMap Key Value} (hn : m.keys.Nodup)
    (h : m.find? k = some v) (hv : v ≠ .nil) : tombstoneCount (m.erase k) = tombstoneCount m := by
  rw [tombstoneCount, OrderedMap.erase, List.countP_filter, tombstoneCount]
  refine List.countP_congr fun e he => ?_
  simp only [Value.isNil_iff, ne_eq, decide_not, Bool.and_eq_true, Bool.not_eq_true',
    decide_eq_false_iff_not, and_iff_left_iff_imp]
  intro hnil hek
  have hmem : (k, e.2) ∈ m.entries := hek ▸ he
  rw [← OrderedMap.find?_eq_some_iff hn, h, Option.some_inj] at hmem
  exact hv (hmem.trans hnil)

/-- One entry moves over to the array part. -/
lemma Consistent.move (h : t.Consistent) (hi : i.toInt = t.array.size + 1)
    (hv : t.hash.find? (.int i) = some v) (hne : v ≠ .nil) :
    ({ t with hash := t.hash.erase (.int i), array := t.array.push v } : Table).Consistent where
  nodup := OrderedMap.nodup_keys_erase h.nodup
  normal := by
    intro k hk
    rw [OrderedMap.keys_erase] at hk
    exact h.normal k (List.mem_of_mem_filter hk)
  tombstones_eq := h.tombstones_eq.trans (tombstoneCount_erase h.nodup hv hne).symm
  size_le := by
    have := i.toInt_le
    rw [Array.size_push]
    omega
  ends := by simpa using hne
  apart := by
    intro j h1 hj
    rw [Array.size_push] at hj
    rw [hashGet, OrderedMap.find?_erase]
    split
    · rfl
    · next hji =>
      have hne : j.toInt ≠ t.array.size + 1 := fun he =>
        hji (congrArg Key.int (Int64.toInt.inj (he.trans hi.symm)))
      exact h.apart j h1 (by omega)

lemma Consistent.getKey_move (h : t.Consistent) (hi : i.toInt = t.array.size + 1)
    (hv : t.hash.find? (.int i) = some v) (hne : v ≠ .nil) (j : Key) :
    ({ t with hash := t.hash.erase (.int i), array := t.array.push v } : Table).getKey j =
      t.getKey j := by
  have hu := h.move hi hv hne
  have harray : ∀ j, ({ t with hash := t.hash.erase (.int i), array := t.array.push v } :
      Table).arrayGet j = if j = .int i then v else t.arrayGet j := fun j =>
    arrayGet_push (t := { t with hash := t.hash.erase (.int i) }) hi
  by_cases hj : j = .int i
  · have hget : t.hashGet (.int i) = v := hashGet_of_find? hv
    rw [hj, hu.getKey_eq, harray, if_pos rfl, if_neg hne,
      h.getKey_of_hashGet (by rw [hget]; exact hne), hget]
  · rw [hu.getKey_eq, h.getKey_eq, harray, if_neg hj]
    simp only [hashGet, OrderedMap.find?_erase, if_neg hj]

/-- Migration ends with nothing behind the array part, and changes no value. -/
theorem Consistent.migrate (h : t.Consistent) :
    t.migrate.WellFormed ∧ ∀ k, t.migrate.getKey k = t.getKey k := by
  fun_induction Table.migrate t with
  | case1 t v hv hstop =>
    refine ⟨{ toConsistent := h, vacant := fun i hi => ?_ }, fun _ => rfl⟩
    have hle := i.toInt_le
    have hnil : v = .nil := Value.isNil_iff.1 (hstop.resolve_right (by omega))
    rw [← frontier_eq hi, hashGet_of_find? hv, hnil]
  | case2 t v hv hgo _ ih =>
    obtain ⟨hne, hlt⟩ := not_or.1 hgo
    rw [Value.isNil_iff] at hne
    obtain ⟨i, hi, hf⟩ := exists_frontier hlt
    rw [hf] at hv ih ⊢
    obtain ⟨hw, hget⟩ := ih (h.move hi hv hne)
    exact ⟨hw, fun k => (hget k).trans (h.getKey_move hi hv hne k)⟩
  | case3 t hv =>
    refine ⟨{ toConsistent := h, vacant := fun i hi => ?_ }, fun _ => rfl⟩
    rw [← frontier_eq hi, hashGet, hv]
    rfl

/-! ### Assigning under any key -/

lemma WellFormed.append (h : t.WellFormed) (hi : i.toInt = t.array.size + 1) (hv : v ≠ .nil) :
    (t.append i v).WellFormed ∧
      ∀ j, (t.append i v).getKey j = if j = .int i then v else t.getKey j := by
  have hnil := h.vacant i hi
  -- a tombstone of the key stays, and it is all there can be
  obtain ⟨u, hu, hget, harray, heq⟩ : ∃ u : Table, u.WellFormed ∧ (∀ j, u.getKey j = t.getKey j) ∧
      u.array = t.array ∧ t.append i v = Table.migrate { u with array := u.array.push v } := by
    by_cases hc : t.hash.contains (.int i) = true
    · have hw : (t.hashSet (.int i) .nil).WellFormed := h.hashSet rfl fun _ _ _ _ => rfl
      refine ⟨_, hw, fun j => ?_, array_hashSet .., by rw [Table.append, if_pos hc]⟩
      rw [h.getKey_hashSet hw.toConsistent (arrayGet_eq_nil_of_lt (by omega))]
      split
      · next hj =>
        rw [hj, h.getKey_eq, arrayGet_eq_nil_of_lt (by omega), if_pos rfl, hnil]
      · rfl
    · exact ⟨t, h, fun _ => rfl, rfl, by rw [Table.append, if_neg hc]⟩
  rw [← harray] at hi
  have hpush : ({ u with array := u.array.push v } : Table).Consistent :=
    { nodup := hu.nodup
      normal := hu.normal
      tombstones_eq := hu.tombstones_eq
      size_le := by have := i.toInt_le; rw [Array.size_push]; omega
      ends := by simpa using hv
      apart := by
        intro j h1 hj
        rw [Array.size_push] at hj
        by_cases hle : j.toInt ≤ u.array.size
        · exact hu.apart j h1 hle
        · exact hu.vacant j (by omega) }
  rw [heq]
  refine ⟨hpush.migrate.1, fun j => ?_⟩
  rw [hpush.migrate.2, ← hget]
  refine getKey_of_parts hu.toConsistent hpush (fun j hj => ?_) (fun _ _ => rfl) ?_ j
  · rw [arrayGet_push hi, if_neg hj]
  · rw [hpush.getKey_eq, arrayGet_push hi, if_pos rfl, if_neg hv]

/-- An assignment under an integer keeps the invariant, and changes the value under it alone. -/
theorem WellFormed.setAt (h : t.WellFormed) (i : Int64) (v : Value) :
    (t.setAt i v).WellFormed ∧
      ∀ j, (t.setAt i v).getKey j = if j = .int i then v else t.getKey j := by
  unfold Table.setAt
  split
  · next n hn =>
    obtain ⟨hlt, hi⟩ := arrayIndex?_eq_some_iff.1 hn
    exact ⟨h.setPlace hlt, h.getKey_setPlace hlt hi⟩
  · next hn =>
    rw [arrayIndex?_eq_none_iff] at hn
    split
    · next hc =>
      simp only [Bool.and_eq_true, decide_eq_true_eq, Bool.not_eq_true',
        Value.isNil_eq_false_iff] at hc
      exact h.append hc.1 hc.2
    · next hc =>
      simp only [Bool.and_eq_true, decide_eq_true_eq, Bool.not_eq_true',
        Value.isNil_eq_false_iff, not_and, not_not] at hc
      have hw : (t.hashSet (.int i) v).WellFormed := by
        refine h.hashSet rfl fun j hj h1 hle => ?_
        cases hj
        exact hc (by omega)
      refine ⟨hw, h.getKey_hashSet hw.toConsistent ?_⟩
      by_contra hne
      obtain ⟨_, n, he, hlt, hi⟩ := exists_of_arrayGet hne
      cases he
      omega

/-- An assignment under a key keeps the invariant. -/
theorem WellFormed.setKey (h : t.WellFormed) (hk : k.IsNormal) : (t.setKey k v).WellFormed := by
  cases k with
  | int i => exact (h.setAt i v).1
  | _ => exact h.hashSet hk (by intro i hi; cases hi)

/-- **An assignment changes the value under its key, and no other.** -/
theorem WellFormed.getKey_setKey (h : t.WellFormed) (hk : k.IsNormal) (j : Key) :
    (t.setKey k v).getKey j = if j = k then v else t.getKey j := by
  cases k with
  | int i => exact (h.setAt i v).2 j
  | _ => exact h.getKey_hashSet (h.setKey hk).toConsistent rfl j

lemma migrate_keeps (t : Table) :
    t.migrate.metatable = t.metatable ∧ t.migrate.weakMode = t.weakMode := by
  fun_induction Table.migrate t with
  | case1 => exact ⟨rfl, rfl⟩
  | case2 t v hv hgo _ ih => exact ih
  | case3 => exact ⟨rfl, rfl⟩

/-- An assignment leaves what stands beside the entries. -/
lemma setKey_keeps (t : Table) (k : Key) (v : Value) :
    (t.setKey k v).metatable = t.metatable ∧ (t.setKey k v).weakMode = t.weakMode := by
  have hhash : ∀ j w, (t.hashSet j w).metatable = t.metatable ∧ (t.hashSet j w).weakMode = t.weakMode :=
    fun j w => ⟨metatable_hashSet t j w, weakMode_hashSet t j w⟩
  cases k with
  | int i =>
    rw [Table.setKey, Table.setAt]
    split
    · simp only
      split <;> exact ⟨rfl, rfl⟩
    · split
      · rw [Table.append, (migrate_keeps _).1, (migrate_keeps _).2]
        simp only
        split
        · exact hhash _ _
        · exact ⟨rfl, rfl⟩
      · exact hhash _ _
  | _ => exact hhash _ _

lemma metatable_setKey (t : Table) (k : Key) (v : Value) :
    (t.setKey k v).metatable = t.metatable := (setKey_keeps t k v).1

/-! ### Dropping tombstones -/

lemma WellFormed.compact (h : t.WellFormed) : t.compact.WellFormed where
  nodup := OrderedMap.nodup_keys_filterValues _ h.nodup
  normal := fun k hk => h.normal k ((OrderedMap.keys_filterValues_sublist _).subset hk)
  tombstones_eq := (tombstoneCount_compact t).symm
  size_le := h.size_le
  ends := h.ends
  apart := fun i h1 hi => (hashGet_compact h.nodup).trans (h.apart i h1 hi)
  vacant := fun i hi => (hashGet_compact h.nodup).trans (h.vacant i hi)

lemma WellFormed.getKey_compact (h : t.WellFormed) : t.compact.getKey k = t.getKey k := by
  rw [h.compact.getKey_eq, h.getKey_eq, hashGet_compact h.nodup]
  cases k <;> rfl

end LuaCore.Table
