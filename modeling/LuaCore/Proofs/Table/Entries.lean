import LuaCore.Proofs.Table.WellFormed
import LuaCore.Table.Traversal
import LuaCore.Table.Weak
import Mathlib.Data.List.Range

/-!
The list of a table's entries, and the clearing of weak tables.

The slots of a table are the places of its array part and of its hash part, in the order of traversal;
those that hold nil are no entries.  Under the invariant the entries are exactly the keys that have a
value, each once, and a clearing takes away exactly those with a dead weak side.
-/

namespace LuaCore

namespace Table

variable {t : Table} {k : Key} {v x : Value}

/-! ### Slots -/

/-- The key of a place of the array part. -/
def placeKey (p : Nat) : Key := .int (Int64.ofNat (p + 1))

/-- The first `n` places of the array part, where it may end earlier, and those of the hash part. -/
def slots (t : Table) (n : Nat) : List (Key × Value) :=
  (List.range n).map (fun p => (placeKey p, t.array.getD p .nil)) ++ t.hash.entries

/-- The entry in a slot, unless it holds nil. -/
def entryOf? (e : Key × Value) : Option (Value × Value) :=
  if e.2.isNil then none else some (e.1.toValue, e.2)

lemma entryOf?_eq_some_iff {e : Key × Value} {f : Value × Value} :
    entryOf? e = some f ↔ e.2 ≠ .nil ∧ (e.1.toValue, e.2) = f := by
  unfold entryOf?
  split <;> simp_all

lemma entryOf?_eq_none_iff {e : Key × Value} : entryOf? e = none ↔ e.2 = .nil := by
  unfold entryOf?
  split <;> simp_all

lemma toInt_ofNat_place {p : Nat} (hp : (p : Int) < Int64.maxValue.toInt) :
    (Int64.ofNat (p + 1)).toInt = p + 1 := by
  rw [Int64.toInt_maxValue] at hp
  rw [Int64.toInt_ofNat_of_lt (by omega)]
  omega

lemma placeKey_eq {p : Nat} {i : Int64} (hi : i.toInt = p + 1) : placeKey p = .int i := by
  have := i.toInt_lt
  rw [placeKey, Int64.toInt.inj ((toInt_ofNat_place _).trans hi.symm)]
  rw [Int64.toInt_maxValue]
  omega

lemma placeKey_inj {p q : Nat} (hp : (p : Int) < Int64.maxValue.toInt)
    (hq : (q : Int) < Int64.maxValue.toInt) (h : placeKey p = placeKey q) : p = q := by
  have h' := congrArg Int64.toInt (Key.int.inj h)
  rw [toInt_ofNat_place hp, toInt_ofNat_place hq] at h'
  omega

lemma zipIdx_array (t : Table) : t.array.toList.zipIdx =
    (List.range t.array.size).map fun p => (t.array.getD p .nil, p) := by
  refine List.ext_getElem (by simp) fun p h₁ h₂ => ?_
  have hp : p < t.array.size := by simpa using h₁
  simp [Array.getD_eq_getD_getElem?, hp]

lemma arrayEntries_eq (t : Table) :
    t.arrayEntries = ((List.range t.array.size).map
      fun p => (placeKey p, t.array.getD p .nil)).filterMap entryOf? := by
  rw [arrayEntries, zipIdx_array, List.filterMap_map, List.filterMap_map]
  rfl

/-- The entries are what the slots hold. -/
lemma entries_eq {n : Nat} (hn : t.array.size ≤ n) : t.entries = (t.slots n).filterMap entryOf? := by
  obtain ⟨d, rfl⟩ := Nat.exists_eq_add_of_le hn
  have hbeyond : (((List.range d).map (t.array.size + ·)).map
      fun p => (placeKey p, t.array.getD p .nil)).filterMap entryOf? = [] := by
    rw [List.filterMap_eq_nil_iff]
    intro e he
    rw [List.map_map, List.mem_map] at he
    obtain ⟨q, -, rfl⟩ := he
    exact entryOf?_eq_none_iff.2 (getD_eq_nil_of_le (Nat.le_add_right _ _))
  rw [entries, arrayEntries_eq, slots, List.range_add, List.map_append, List.filterMap_append,
    List.filterMap_append, hbeyond, List.append_nil]
  rfl

/-- What is found in the hash part is an entry. -/
lemma mem_entries_of_hashGet (hget : t.hashGet k = v) (hv : v ≠ .nil) : (k.toValue, v) ∈ t.entries := by
  have hfind : t.hash.find? k = some v := by
    unfold hashGet at hget
    cases hf : t.hash.find? k with
    | none => rw [hf] at hget; exact absurd hget.symm hv
    | some w => rw [hf] at hget; exact congrArg some hget
  rw [entries_eq (Nat.le_refl _), List.mem_filterMap]
  exact ⟨(k, v), List.mem_append_right _ (OrderedMap.mem_entries_of_find? hfind),
    entryOf?_eq_some_iff.2 ⟨hv, rfl⟩⟩

/-! ### The entries of a table -/

/-- The slots that hold a value are the keys that have one. -/
lemma WellFormed.mem_slots_iff (h : t.WellFormed) (hv : v ≠ .nil) :
    (k, v) ∈ t.slots t.array.size ↔ t.getKey k = v := by
  have harray : (k, v) ∈ ((List.range t.array.size).map
      fun p => (placeKey p, t.array.getD p .nil)) ↔ t.arrayGet k = v := by
    simp only [List.mem_map, List.mem_range, Prod.mk.injEq]
    constructor
    · rintro ⟨p, hp, rfl, hget⟩
      have := h.size_le
      rw [placeKey, arrayGet_of_toInt (toInt_ofNat_place (by omega)), hget]
    · intro hget
      obtain ⟨i, p, rfl, hp, hi⟩ := exists_of_arrayGet (hget.trans_ne hv)
      exact ⟨p, hp, placeKey_eq hi, (arrayGet_of_toInt hi).symm.trans hget⟩
  have hhash : (k, v) ∈ t.hash.entries ↔ t.hashGet k = v := by
    rw [← OrderedMap.find?_eq_some_iff h.nodup, hashGet]
    cases t.hash.find? k <;> simp [Ne.symm hv]
  rw [slots, List.mem_append, harray, hhash]
  constructor
  · rintro (ha | hh)
    · rw [h.getKey_eq, if_neg (ha.trans_ne hv), ha]
    · rw [h.getKey_of_hashGet (hh.trans_ne hv), hh]
  · intro hget
    rw [h.getKey_eq] at hget
    split at hget
    · exact Or.inr hget
    · exact Or.inl hget

/-- **The entries are exactly the keys that have a value.** -/
theorem WellFormed.mem_entries_iff (h : t.WellFormed) :
    (x, v) ∈ t.entries ↔ ∃ k, x = k.toValue ∧ t.getKey k = v ∧ v ≠ .nil := by
  rw [entries_eq (Nat.le_refl _), List.mem_filterMap]
  constructor
  · rintro ⟨⟨k, w⟩, hmem, he⟩
    obtain ⟨hne, he⟩ := entryOf?_eq_some_iff.1 he
    cases he
    exact ⟨k, rfl, (h.mem_slots_iff hne).1 hmem, hne⟩
  · rintro ⟨k, rfl, hget, hne⟩
    exact ⟨(k, v), (h.mem_slots_iff hne).2 hget, entryOf?_eq_some_iff.2 ⟨hne, rfl⟩⟩

/-- A key that has a value is in normal form. -/
lemma WellFormed.isNormal_of_getKey (h : t.WellFormed) (hk : t.getKey k ≠ .nil) : k.IsNormal := by
  rw [h.getKey_eq] at hk
  split at hk
  · exact h.normal k (mem_keys_of_hashGet hk)
  · obtain ⟨i, -, rfl, -⟩ := exists_of_arrayGet hk
    rfl

/-- The keys of the slots that hold a value are distinct. -/
lemma WellFormed.nodup_live_slots (h : t.WellFormed) :
    (((t.slots t.array.size).filter fun e => !e.2.isNil).map Prod.fst).Nodup := by
  rw [slots, List.filter_append, List.map_append, List.nodup_append]
  refine ⟨?_, ?_, ?_⟩
  · refine List.Nodup.sublist (List.filter_sublist.map Prod.fst) ?_
    rw [List.map_map]
    refine List.Nodup.map_on (fun p hp q hq he => ?_) List.nodup_range
    have := h.size_le
    rw [List.mem_range] at hp hq
    exact placeKey_inj (by omega) (by omega) he
  · exact h.nodup.sublist (List.filter_sublist.map Prod.fst)
  · -- a key of the array part has no value in the hash part
    rintro k hk _ hk' rfl
    simp only [List.mem_map, List.mem_filter, List.mem_range] at hk hk'
    obtain ⟨_, ⟨⟨p, hp, rfl⟩, -⟩, rfl⟩ := hk
    obtain ⟨⟨_, w⟩, ⟨hmem, hw⟩, rfl⟩ := hk'
    have := h.size_le
    have hi : (Int64.ofNat (p + 1)).toInt = p + 1 := toInt_ofNat_place (by omega)
    have hnil : t.hashGet (placeKey p) = .nil := h.apart _ (by omega) (by omega)
    rw [h.hashGet_of_mem hmem] at hnil
    simp [hnil] at hw

/-- **Each key is listed once.** -/
theorem WellFormed.nodup_entries (h : t.WellFormed) : (t.entries.map Prod.fst).Nodup := by
  have hmap : t.entries.map Prod.fst =
      (((t.slots t.array.size).filter fun e => !e.2.isNil).map Prod.fst).map Key.toValue := by
    rw [entries_eq (Nat.le_refl _), List.map_map]
    generalize t.slots t.array.size = l
    induction l with
    | nil => rfl
    | cons e l ih =>
      by_cases he : e.2 = .nil
      · simp [entryOf?, he, ih]
      · simp [entryOf?, he, ih]
  rw [hmap]
  exact h.nodup_live_slots.map_on fun _ _ _ _ he => Key.toValue_injective he

end Table

/-! ### Clearing -/

/-- A test that only objects pass: tables, functions, userdata and threads. -/
structure ObjectTest where
  test : Value → Bool
  isCollectable : ∀ v, test v = true → v.isCollectable = true

lemma ObjectTest.eq_false (p : ObjectTest) {v : Value} (h : v.isCollectable = false) :
    p.test v = false := by
  by_contra hne
  rw [p.isCollectable v (by simpa using hne)] at h
  cases h

namespace Table

variable {t : Table} {j k : Key} {v : Value} {mode : WeakMode}

lemma isDeadEntry_nil (p : Value → Bool) : isDeadEntry mode p k .nil = false := rfl

/-- An integer is no object, so its entry can only be dead by its value. -/
lemma isDeadEntry_int (p : ObjectTest) {i : Int64} (hv : v ≠ .nil) :
    isDeadEntry mode p.test (.int i) v = (mode.values && p.test v) := by
  have hkey : p.test (.int i) = false := p.eq_false rfl
  simp [isDeadEntry, hv, Key.toValue, hkey]

lemma size_foldl_setNil (ps : List Nat) (a : Array Value) :
    (ps.foldl (fun a p => a.setIfInBounds p .nil) a).size = a.size := by
  induction ps generalizing a with
  | nil => rfl
  | cons p ps ih => exact (ih _).trans (by simp)

lemma getD_foldl_setNil (ps : List Nat) (a : Array Value) (q : Nat) :
    (ps.foldl (fun a p => a.setIfInBounds p .nil) a).getD q .nil =
      if q ∈ ps then .nil else a.getD q .nil := by
  induction ps generalizing a with
  | nil => rfl
  | cons p ps ih =>
    rw [List.foldl_cons, ih]
    by_cases hq : q = p
    · have hset : (a.setIfInBounds p .nil).getD p .nil = .nil := by
        rw [Array.getD_eq_getD_getElem?, Array.getElem?_setIfInBounds, if_pos rfl]
        split <;> rfl
      simp [hq, hset]
    · have hset : (a.setIfInBounds p .nil).getD q .nil = a.getD q .nil := by
        rw [Array.getD_eq_getD_getElem?, Array.getElem?_setIfInBounds_ne (Ne.symm hq),
          Array.getD_eq_getD_getElem?]
      simp [hq, hset]

lemma lt_of_mem_places {p : Value → Bool} {q : Nat} (hq : q ∈ (t.deadEntries mode p).places) :
    q < t.array.size := by
  unfold deadEntries at hq
  simp only at hq
  split at hq
  · obtain ⟨⟨w, r⟩, hmem, he⟩ := List.mem_filterMap.1 hq
    have hr : r < t.array.size := by simpa using (List.mem_zipIdx hmem).2.1
    split at he
    · cases he; exact hr
    · cases he
  · cases hq

/-- What a clearing finds in the hash part is not in the array part. -/
lemma WellFormed.arrayGet_of_mem_keys (h : t.WellFormed) {p : Value → Bool}
    (hk : k ∈ (t.deadEntries mode p).keys) : k.IsNormal ∧ t.arrayGet k = .nil := by
  obtain ⟨⟨k', w⟩, hmem, he⟩ := List.mem_filterMap.1 hk
  simp only at he
  split at he
  · next hd =>
    cases he
    have hget : t.hashGet k = w := h.hashGet_of_mem hmem
    have hne : t.hashGet k ≠ .nil := by
      rintro hnil
      rw [hget.symm.trans hnil, isDeadEntry_nil] at hd
      cases hd
    refine ⟨h.normal k (mem_keys_of_hashGet hne), ?_⟩
    by_contra ha
    obtain ⟨i, n, rfl, hlt, hi⟩ := exists_of_arrayGet ha
    exact hne (h.apart i (by omega) (by omega))
  · cases he

/-- Removing keys that the array part does not hold. -/
lemma WellFormed.foldl_hashSet_nil (h : t.WellFormed) (ks : List Key)
    (hks : ∀ k ∈ ks, k.IsNormal ∧ t.arrayGet k = .nil) :
    (ks.foldl (fun t k => t.hashSet k .nil) t).WellFormed ∧
      ∀ j, (ks.foldl (fun t k => t.hashSet k .nil) t).getKey j =
        if j ∈ ks then .nil else t.getKey j := by
  induction ks generalizing t with
  | nil => exact ⟨h, fun j => (if_neg List.not_mem_nil).symm⟩
  | cons k ks ih =>
    obtain ⟨hnormal, harray⟩ := hks k (by simp)
    have hw : (t.hashSet k .nil).WellFormed := h.hashSet hnormal fun _ _ _ _ => rfl
    have hks' : ∀ j ∈ ks, j.IsNormal ∧ (t.hashSet k .nil).arrayGet j = .nil := fun j hj => by
      rw [arrayGet_hashSet]
      exact hks j (List.mem_cons_of_mem _ hj)
    refine ⟨(ih hw hks').1, fun j => ?_⟩
    rw [List.foldl_cons, (ih hw hks').2, h.getKey_hashSet hw.toConsistent harray]
    by_cases hj : j = k <;> simp [hj]

/-- The table after the clearing of its array part. -/
def clearPlaces (t : Table) (ps : List Nat) : Table :=
  ({ t with array := ps.foldl (fun a p => a.setIfInBounds p .nil) t.array } : Table).trim

lemma WellFormed.clearPlaces (h : t.WellFormed) (ps : List Nat) : (t.clearPlaces ps).WellFormed :=
  h.withArray (Nat.le_trans (size_popWhile_le _) (size_foldl_setNil ps _).le) (back?_popWhile _)

lemma arrayGet_clearPlaces {ps : List Nat} {i : Int64} {q : Nat} (hi : i.toInt = q + 1) :
    (t.clearPlaces ps).arrayGet (.int i) = if q ∈ ps then .nil else t.arrayGet (.int i) := by
  rw [clearPlaces, arrayGet_trim, arrayGet_of_toInt hi, arrayGet_of_toInt hi]
  exact getD_foldl_setNil ps t.array q

lemma arrayGet_clearPlaces_of_nil {ps : List Nat} (hk : t.arrayGet k = .nil) :
    (t.clearPlaces ps).arrayGet k = .nil := by
  by_contra hne
  obtain ⟨i, q, rfl, -, hi⟩ := exists_of_arrayGet hne
  rw [arrayGet_clearPlaces hi, hk, ite_self] at hne
  exact hne rfl

lemma WellFormed.mem_map_placeKey (h : t.WellFormed) {ps : List Nat} {i : Int64} {q : Nat}
    (hps : ∀ p ∈ ps, p < t.array.size) (hi : i.toInt = q + 1) :
    Key.int i ∈ ps.map placeKey ↔ q ∈ ps := by
  rw [List.mem_map, ← placeKey_eq hi]
  constructor
  · rintro ⟨p, hp, he⟩
    have hsize := h.size_le
    have hlt := hps p hp
    have hle := i.toInt_le
    rwa [← placeKey_inj (by omega) (by omega) he]
  · exact fun hq => ⟨q, hq, rfl⟩

lemma WellFormed.getKey_clearPlaces (h : t.WellFormed) {ps : List Nat}
    (hps : ∀ p ∈ ps, p < t.array.size) (k : Key) :
    (t.clearPlaces ps).getKey k = if k ∈ ps.map placeKey then .nil else t.getKey k := by
  have hhash : (t.clearPlaces ps).hashGet k = t.hashGet k := rfl
  rw [(h.clearPlaces ps).getKey_eq, hhash, h.getKey_eq]
  by_cases ha : t.arrayGet k = .nil
  · rw [arrayGet_clearPlaces_of_nil ha, if_pos rfl, if_pos ha]
    split
    · next hk =>
      obtain ⟨p, hp, rfl⟩ := List.mem_map.1 hk
      have hsize := h.size_le
      have hlt := hps p hp
      have hi : (Int64.ofNat (p + 1)).toInt = p + 1 := toInt_ofNat_place (by omega)
      exact h.apart _ (by omega) (by omega)
    · rfl
  · obtain ⟨i, q, rfl, hlt, hi⟩ := exists_of_arrayGet ha
    rw [if_neg ha, arrayGet_clearPlaces hi, h.apart i (by omega) (by omega)]
    simp only [h.mem_map_placeKey hps hi]
    split <;> simp

/-- The keys of the entries that a clearing removes, in both parts. -/
def deadKeys (d : DeadEntries) : List Key := d.places.map placeKey ++ d.keys

/-- A clearing finds the slots whose entries have a dead weak side. -/
lemma deadKeys_eq (t : Table) (mode : WeakMode) (p : ObjectTest) :
    deadKeys (t.deadEntries mode p.test) =
      ((t.slots t.array.size).filter fun e => isDeadEntry mode p.test e.1 e.2).map Prod.fst := by
  have hvalue : ∀ q v, isDeadEntry mode p.test (placeKey q) v = (mode.values && p.test v) := by
    intro q v
    by_cases hv : v = .nil
    · rw [hv, isDeadEntry_nil, p.eq_false rfl, Bool.and_false]
    · exact isDeadEntry_int p hv
  rw [slots, List.filter_append, List.map_append, deadKeys]
  congr 1
  · rw [← List.filterMap_eq_map (f := Prod.fst), List.filterMap_filter, List.filterMap_map,
      deadEntries]
    simp only [zipIdx_array, Function.comp_def, hvalue]
    split
    · next hm =>
      rw [← List.filterMap_eq_map, List.filterMap_filterMap, List.filterMap_map]
      refine List.filterMap_congr fun q _ => ?_
      simp only [Function.comp_def, hm, Bool.true_and]
      split <;> rfl
    · next hm => simp [hm]
  · rw [← List.filterMap_eq_map, List.filterMap_filter]
    rfl

/-- A clearing finds exactly the keys whose entries have a dead weak side. -/
lemma WellFormed.mem_deadKeys_iff (h : t.WellFormed) (mode : WeakMode) (p : ObjectTest) :
    k ∈ deadKeys (t.deadEntries mode p.test) ↔ isDeadEntry mode p.test k (t.getKey k) = true := by
  simp only [deadKeys_eq, List.mem_map, List.mem_filter, Prod.exists, exists_and_right,
    exists_eq_right]
  constructor
  · rintro ⟨w, hmem, hd⟩
    have hw : w ≠ .nil := by
      rintro rfl
      cases hd
    rwa [(h.mem_slots_iff hw).1 hmem]
  · intro hd
    have hne : t.getKey k ≠ .nil := by
      intro hnil
      rw [hnil] at hd
      cases hd
    exact ⟨_, (h.mem_slots_iff hne).2 rfl, hd⟩

/-- No key is found twice. -/
lemma WellFormed.nodup_deadKeys (h : t.WellFormed) (mode : WeakMode) (p : ObjectTest) :
    (deadKeys (t.deadEntries mode p.test)).Nodup := by
  rw [deadKeys_eq]
  refine h.nodup_live_slots.sublist (List.Sublist.map Prod.fst ?_)
  refine List.monotone_filter_right _ fun e hd => ?_
  by_contra hnil
  simp only [Bool.not_eq_true', Bool.not_eq_false, Value.isNil_iff] at hnil
  rw [hnil] at hd
  cases hd

/-- A clearing keeps the invariant, and takes away what it has found. -/
lemma WellFormed.removeDead (h : t.WellFormed) (mode : WeakMode) (p : Value → Bool) :
    (t.removeDead (t.deadEntries mode p)).WellFormed ∧
      ∀ k, (t.removeDead (t.deadEntries mode p)).getKey k =
        if k ∈ deadKeys (t.deadEntries mode p) then .nil else t.getKey k := by
  have hc := h.clearPlaces (t.deadEntries mode p).places
  obtain ⟨hw, hget⟩ := hc.foldl_hashSet_nil (t.deadEntries mode p).keys fun _ hk =>
    ⟨(h.arrayGet_of_mem_keys hk).1, arrayGet_clearPlaces_of_nil (h.arrayGet_of_mem_keys hk).2⟩
  refine ⟨hw, fun k => (hget k).trans ?_⟩
  rw [h.getKey_clearPlaces fun _ => lt_of_mem_places, deadKeys]
  by_cases hk : k ∈ (t.deadEntries mode p).keys <;> simp only [hk, List.mem_append, or_true,
    or_false, if_true, if_false]

/-- A clearing that finds nothing changes nothing. -/
lemma Consistent.removeDead_eq_self (h : t.Consistent) {d : DeadEntries} (hd : d.size = 0) :
    t.removeDead d = t := by
  obtain ⟨places, keys⟩ := d
  obtain ⟨hplaces, hkeys⟩ := Nat.add_eq_zero_iff.1 hd
  obtain rfl := List.length_eq_zero_iff.1 hplaces
  obtain rfl := List.length_eq_zero_iff.1 hkeys
  show t.trim = t
  rw [trim, popWhile_eq_self h.ends]

lemma metatable_removeDead (d : DeadEntries) : (t.removeDead d).metatable = t.metatable := by
  have hfold : ∀ (ks : List Key) (t : Table),
      (ks.foldl (fun t k => t.hashSet k .nil) t).metatable = t.metatable := by
    intro ks
    induction ks with
    | nil => exact fun t => rfl
    | cons k ks ih => exact fun t => (ih _).trans (metatable_hashSet ..)
  exact hfold d.keys _

/-- **A clearing takes away exactly the entries with a dead weak side.** -/
theorem WellFormed.getKey_removeDead (h : t.WellFormed) (mode : WeakMode) (p : ObjectTest)
    (k : Key) :
    (t.removeDead (t.deadEntries mode p.test)).getKey k =
      if isDeadEntry mode p.test k (t.getKey k) then .nil else t.getKey k := by
  rw [(h.removeDead mode p.test).2]
  simp only [h.mem_deadKeys_iff]

end Table

end LuaCore
