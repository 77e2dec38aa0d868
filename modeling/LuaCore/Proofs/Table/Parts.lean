import LuaCore.Proofs.OrderedMap
import LuaCore.Table.Basic
import Mathlib.Tactic.Common

/-!
The two parts of a table on their own: what the hash part holds under a key after an assignment, how
many tombstones it has, and what the array part holds under a key after a change at its end or inside.
-/

namespace LuaCore

namespace Value

@[simp] lemma isNil_iff {v : Value} : v.isNil = true ↔ v = .nil := by
  cases v <;> simp [isNil]

@[simp] lemma isNil_eq_false_iff {v : Value} : v.isNil = false ↔ v ≠ .nil := by
  cases v <;> simp [isNil]

end Value

/-- A key in normal form: the value that it stands for leads back to it. -/
def Key.IsNormal (k : Key) : Prop := Key.ofValue? k.toValue = some k

lemma Key.toValue_injective {j k : Key} (h : j.toValue = k.toValue) : j = k := by
  cases j <;> cases k <;> simp_all [Key.toValue]

/-- The key of a value is in normal form. -/
lemma Key.isNormal_of_ofValue? {x : Value} {k : Key} (h : Key.ofValue? x = some k) :
    k.IsNormal := by
  cases x with
  | number n =>
    cases n with
    | int i => cases h; rfl
    | float x =>
      simp only [Key.ofValue?, Key.ofNumber?] at h
      by_cases hx : x.isNaN = true
      · rw [if_pos hx] at h; cases h
      · rw [if_neg hx] at h
        cases hw : x.toWord? with
        | some i => rw [hw] at h; cases h; rfl
        | none =>
          rw [hw] at h
          cases h
          simp [Key.IsNormal, Key.toValue, Key.ofValue?, Key.ofNumber?, hx, hw]
  | _ => cases h <;> rfl

namespace Table

variable {t : Table} {i : Int64} {j k : Key} {v : Value}

/-! ### The hash part -/

lemma hashGet_of_find? (h : t.hash.find? k = some v) : t.hashGet k = v := by
  rw [hashGet, h]; rfl

lemma hashGet_of_not_mem (h : k ∉ t.hash.keys) : t.hashGet k = .nil := by
  rw [hashGet, OrderedMap.find?_eq_none_iff.2 h]; rfl

lemma mem_keys_of_hashGet (h : t.hashGet k ≠ .nil) : k ∈ t.hash.keys :=
  not_not.1 fun hk => h (hashGet_of_not_mem hk)

lemma hashGet_compact (hn : t.hash.keys.Nodup) : t.compact.hashGet k = t.hashGet k := by
  simp only [hashGet, compact, OrderedMap.find?_filterValues _ hn]
  cases t.hash.find? k with
  | none => rfl
  | some w => by_cases hw : w = .nil <;> simp [hw, Option.filter]

@[simp] lemma array_makeRoom (t : Table) : t.makeRoom.array = t.array := by
  unfold makeRoom
  split <;> rfl

@[simp] lemma array_hashSet (t : Table) (k : Key) (v : Value) : (t.hashSet k v).array = t.array := by
  unfold hashSet
  split
  · rfl
  · split
    · rfl
    · exact array_makeRoom t

@[simp] lemma metatable_hashSet (t : Table) (k : Key) (v : Value) :
    (t.hashSet k v).metatable = t.metatable := by
  unfold hashSet makeRoom
  split
  · rfl
  · split
    · rfl
    · split <;> rfl

@[simp] lemma weakMode_hashSet (t : Table) (k : Key) (v : Value) :
    (t.hashSet k v).weakMode = t.weakMode := by
  unfold hashSet makeRoom
  split
  · rfl
  · split
    · rfl
    · split <;> rfl

lemma nodup_keys_makeRoom (hn : t.hash.keys.Nodup) : t.makeRoom.hash.keys.Nodup := by
  unfold makeRoom
  split
  · exact OrderedMap.nodup_keys_filterValues _ hn
  · exact hn

lemma mem_keys_makeRoom (h : j ∈ t.makeRoom.hash.keys) : j ∈ t.hash.keys := by
  unfold makeRoom at h
  split at h
  · exact (OrderedMap.keys_filterValues_sublist _).subset h
  · exact h

lemma hashGet_makeRoom (hn : t.hash.keys.Nodup) : t.makeRoom.hashGet k = t.hashGet k := by
  unfold makeRoom
  split
  · exact hashGet_compact hn
  · rfl

lemma hashGet_hashSet (hn : t.hash.keys.Nodup) :
    (t.hashSet k v).hashGet j = if j = k then v else t.hashGet j := by
  have hinsert : ∀ u : Table, (({ u with hash := u.hash.insert k v } : Table).hashGet j) =
      if j = k then v else u.hashGet j := by
    intro u
    simp only [hashGet, OrderedMap.find?_insert]
    split <;> rfl
  unfold hashSet
  split
  · exact hinsert t
  · next hk =>
    split
    · next hv =>
      split
      · next hj => rw [hj, hashGet, hk]; exact (Value.isNil_iff.1 hv).symm
      · rfl
    · rw [← hashGet_makeRoom hn]
      exact hinsert t.makeRoom

lemma nodup_keys_hashSet (hn : t.hash.keys.Nodup) : (t.hashSet k v).hash.keys.Nodup := by
  unfold hashSet
  split
  · exact OrderedMap.nodup_keys_insert hn
  · split
    · exact hn
    · exact OrderedMap.nodup_keys_insert (nodup_keys_makeRoom hn)

lemma mem_keys_hashSet (h : j ∈ (t.hashSet k v).hash.keys) : j = k ∨ j ∈ t.hash.keys := by
  unfold hashSet at h
  split at h
  · exact OrderedMap.mem_keys_insert.1 h
  · split at h
    · exact Or.inr h
    · exact (OrderedMap.mem_keys_insert.1 h).imp_right mem_keys_makeRoom

/-! ### Tombstones -/

/-- The number of tombstones. -/
def tombstoneCount (m : OrderedMap Key Value) : Nat := m.entries.countP fun e => e.2.isNil

/-- Replacing the value of one entry changes the number of tombstones by that entry. -/
lemma countP_replace {l : List (Key × Value)} {old : Value} (hn : (l.map Prod.fst).Nodup)
    (h : (k, old) ∈ l) :
    (l.map fun e => if e.1 = k then (e.1, v) else e).countP (fun e => e.2.isNil) +
        (if old.isNil then 1 else 0) =
      l.countP (fun e => e.2.isNil) + if v.isNil then 1 else 0 := by
  induction l with
  | nil => cases h
  | cons e l ih =>
    obtain ⟨a, b⟩ := e
    rw [List.map_cons, List.nodup_cons] at hn
    rw [List.map_cons, List.countP_cons, List.countP_cons]
    by_cases ha : a = k
    · -- the entry of the key is in front, and no other entry has the key
      subst ha
      have hb : b = old := by
        rcases List.mem_cons.1 h with he | he
        · exact (Prod.mk.inj he).2.symm
        · exact absurd (List.mem_map_of_mem (f := Prod.fst) he) hn.1
      have hrest : (l.map fun e => if e.1 = a then (e.1, v) else e) = l := by
        refine (List.map_congr_left fun e he => ?_).trans (List.map_id l)
        exact if_neg fun hea => hn.1 (List.mem_map.2 ⟨e, he, hea⟩)
      simp only [hrest, if_true, hb]
      omega
    · have hmem : (k, old) ∈ l := by
        rcases List.mem_cons.1 h with he | he
        · exact absurd (Prod.mk.inj he).1.symm ha
        · exact he
      have := ih hn.2 hmem
      simp only [ha, if_false]
      omega

lemma tombstoneCount_insert_of_mem {m : OrderedMap Key Value} {old : Value} (hn : m.keys.Nodup)
    (h : m.find? k = some old) :
    tombstoneCount (m.insert k v) = recount (tombstoneCount m) old v := by
  have hcount := countP_replace (v := v) hn (OrderedMap.mem_entries_of_find? h)
  rw [tombstoneCount, OrderedMap.entries_insert_of_mem (OrderedMap.mem_keys_of_find? h)]
  unfold recount tombstoneCount
  cases ho : old.isNil <;> cases hv : v.isNil <;> simp only [ho, hv, if_true, if_false,
    Bool.false_eq_true] at hcount ⊢ <;> omega

lemma tombstoneCount_compact (t : Table) : tombstoneCount t.compact.hash = 0 := by
  simp [tombstoneCount, compact, OrderedMap.filterValues, List.countP_filter]

lemma tombstones_makeRoom (h : t.tombstones = tombstoneCount t.hash) :
    t.makeRoom.tombstones = tombstoneCount t.makeRoom.hash := by
  unfold makeRoom
  split
  · exact (tombstoneCount_compact t).symm
  · exact h

lemma tombstones_hashSet (hn : t.hash.keys.Nodup) (h : t.tombstones = tombstoneCount t.hash) :
    (t.hashSet k v).tombstones = tombstoneCount (t.hashSet k v).hash := by
  unfold hashSet
  split
  · next old hk =>
    exact (congrArg (recount · old v) h).trans (tombstoneCount_insert_of_mem hn hk).symm
  · next hk =>
    split
    · exact h
    · next hv =>
      have hk' : k ∉ t.makeRoom.hash.keys := fun hmem =>
        OrderedMap.find?_eq_none_iff.1 hk (mem_keys_makeRoom hmem)
      refine (tombstones_makeRoom h).trans ?_
      rw [tombstoneCount, tombstoneCount, OrderedMap.entries_insert_of_not_mem hk',
        List.countP_append]
      simp [hv]

/-! ### The array part -/

/-- What the array part holds under a key. -/
def arrayGet (t : Table) : Key → Value
  | .int i => if 1 ≤ i.toInt then t.array.getD (i.toInt - 1).toNat .nil else .nil
  | _ => .nil

lemma arrayIndex?_eq_some_iff {n : Nat} :
    t.arrayIndex? i = some n ↔ n < t.array.size ∧ i.toInt = n + 1 := by
  unfold arrayIndex?
  split
  · rw [Option.some_inj]; omega
  · simp only [reduceCtorEq, false_iff]; omega

lemma arrayIndex?_eq_none_iff :
    t.arrayIndex? i = none ↔ ¬ (1 ≤ i.toInt ∧ i.toInt ≤ t.array.size) := by
  unfold arrayIndex?
  split <;> simp_all

lemma arrayGet_of_toInt {n : Nat} (hi : i.toInt = n + 1) :
    t.arrayGet (.int i) = t.array.getD n .nil := by
  rw [arrayGet, if_pos (by omega), show (i.toInt - 1).toNat = n by omega]

lemma getD_eq_nil_of_le {a : Array Value} {p : Nat} (h : a.size ≤ p) : a.getD p .nil = .nil := by
  rw [Array.getD_eq_getD_getElem?, Array.getElem?_eq_none h]
  rfl

lemma arrayGet_eq_nil_of_lt (h : (t.array.size : Int) < i.toInt) : t.arrayGet (.int i) = .nil := by
  rw [arrayGet_of_toInt (n := (i.toInt - 1).toNat) (by omega), getD_eq_nil_of_le (by omega)]

lemma exists_of_arrayGet (h : t.arrayGet k ≠ .nil) :
    ∃ (i : Int64) (n : Nat), k = .int i ∧ n < t.array.size ∧ i.toInt = n + 1 := by
  cases k with
  | int i =>
    by_cases hi : 1 ≤ i.toInt ∧ i.toInt ≤ t.array.size
    · exact ⟨i, (i.toInt - 1).toNat, rfl, by omega, by omega⟩
    · refine absurd ?_ h
      by_cases h1 : 1 ≤ i.toInt
      · exact arrayGet_eq_nil_of_lt (by omega)
      · rw [arrayGet, if_neg h1]
  | _ => exact absurd rfl h

/-- The array part after one more value, which stands under the key behind the last one. -/
lemma arrayGet_push (hi : i.toInt = t.array.size + 1) :
    ({ t with array := t.array.push v } : Table).arrayGet k =
      if k = .int i then v else t.arrayGet k := by
  cases k with
  | int j =>
    by_cases hj : j = i
    · subst hj
      rw [arrayGet_of_toInt hi, if_pos rfl]
      simp
    · have hne : j.toInt ≠ t.array.size + 1 := fun h => hj (Int64.toInt.inj (h.trans hi.symm))
      rw [if_neg (by simpa using hj)]
      simp only [arrayGet, Array.getD_eq_getD_getElem?, Array.getElem?_push]
      split
      · rw [if_neg (by omega)]
      · rfl
  | _ => rfl

lemma arrayGet_set {n : Nat} (hn : n < t.array.size) (hi : i.toInt = n + 1) :
    ({ t with array := t.array.setIfInBounds n v } : Table).arrayGet k =
      if k = .int i then v else t.arrayGet k := by
  cases k with
  | int j =>
    by_cases hj : j = i
    · subst hj
      rw [arrayGet_of_toInt hi, if_pos rfl]
      simp [Array.getD_eq_getD_getElem?, hn]
    · have hne : j.toInt ≠ n + 1 := fun h => hj (Int64.toInt.inj (h.trans hi.symm))
      rw [if_neg (by simpa using hj)]
      simp only [arrayGet, Array.getD_eq_getD_getElem?]
      split
      · rw [Array.getElem?_setIfInBounds_ne (by omega)]
      · rfl
  | _ => rfl

/-- Dropping nils from the end changes no value of an array. -/
lemma getD_popWhile (a : Array Value) (n : Nat) :
    (a.popWhile Value.isNil).getD n .nil = a.getD n .nil := by
  fun_induction Array.popWhile Value.isNil a with
  | case1 a hpos hlast ih =>
    rw [ih]
    by_cases hn : n = a.size - 1
    · rw [Value.isNil_iff] at hlast
      have hget : a[n]? = some .nil := by
        rw [hn, Array.getElem?_eq_getElem (by omega), hlast]
      rw [Array.getD_eq_getD_getElem?, Array.getD_eq_getD_getElem?, hget, Array.getElem?_pop,
        if_neg (by omega)]
      rfl
    · simp only [Array.getD_eq_getD_getElem?, Array.getElem?_pop]
      split
      · rfl
      · rw [Array.getElem?_eq_none (by omega)]
  | case2 => rfl
  | case3 => rfl

lemma size_popWhile_le (a : Array Value) : (a.popWhile Value.isNil).size ≤ a.size := by
  fun_induction Array.popWhile Value.isNil a with
  | case1 a _ _ ih => exact Nat.le_trans ih (by simp)
  | case2 => exact Nat.le_refl _
  | case3 => exact Nat.le_refl _

lemma back?_popWhile (a : Array Value) : (a.popWhile Value.isNil).back? ≠ some .nil := by
  fun_induction Array.popWhile Value.isNil a with
  | case1 _ _ _ ih => exact ih
  | case2 a hpos hlast =>
    rw [Array.back?_eq_getElem?, Array.getElem?_eq_getElem (by omega)]
    simpa using hlast
  | case3 a hpos =>
    rw [Array.back?_eq_getElem?, Array.getElem?_eq_none (by omega)]
    simp

lemma popWhile_eq_self {a : Array Value} (ha : a.back? ≠ some .nil) :
    a.popWhile Value.isNil = a := by
  unfold Array.popWhile
  split
  · next hpos =>
    split
    · next hnil =>
      refine absurd ?_ ha
      rw [Array.back?_eq_getElem?, Array.getElem?_eq_getElem (by omega), Value.isNil_iff.1 hnil]
    · rfl
  · rfl

lemma arrayGet_trim : t.trim.arrayGet k = t.arrayGet k := by
  cases k with
  | int i => simp only [arrayGet, trim, getD_popWhile]
  | _ => rfl

end Table

end LuaCore
