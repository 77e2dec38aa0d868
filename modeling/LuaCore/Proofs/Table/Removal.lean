import LuaCore.Proofs.Table.FiniteMap
import LuaCore.Proofs.Table.Traversal

/-!
Tables from which keys have been removed.

Assigning nil under a key makes its slots hold nil, and moves no other slot: a key of the hash part
leaves a tombstone, and where the array part becomes shorter, the places behind its end hold nil.
-/

namespace LuaCore

namespace Table

variable {t u : Table} {i : Int64} {j k : Key} {v : Value} {R : List Key} {n p q : Nat}

/-! ### Removing keys -/

/-- A slot after the removal of keys. -/
def blank (R : List Key) (e : Key × Value) : Key × Value := if e.1 ∈ R then (e.1, .nil) else e

@[simp] lemma fst_blank (R : List Key) (e : Key × Value) : (blank R e).1 = e.1 := by
  unfold blank
  split <;> rfl

lemma blank_blank (R S : List Key) (e : Key × Value) : blank S (blank R e) = blank (R ++ S) e := by
  unfold blank
  by_cases hR : e.1 ∈ R <;> by_cases hS : e.1 ∈ S <;> simp [hR, hS]

lemma blank_eq_of_nil {e : Key × Value} (he : e.2 = .nil) : blank R e = e := by
  unfold blank
  split
  · exact Prod.ext rfl he.symm
  · rfl

/-- What has a value after a removal had it before, and was not removed. -/
lemma blank_eq_iff {e f : Key × Value} (hf : f.2 ≠ .nil) : blank R e = f ↔ e = f ∧ f.1 ∉ R := by
  unfold blank
  split
  · next he =>
    constructor
    · rintro rfl
      exact absurd rfl hf
    · rintro ⟨rfl, hn⟩
      exact absurd he hn
  · next he =>
    constructor
    · rintro rfl
      exact ⟨rfl, he⟩
    · exact And.left

/-- Removing a key that is not among the slots. -/
lemma map_blank_of_nil {l : List (Key × Value)} (h : ∀ e ∈ l, e.1 = k → e.2 = .nil) :
    l.map (blank [k]) = l := by
  refine (List.map_congr_left fun e he => ?_).trans (List.map_id l)
  by_cases hk : e.1 = k
  · exact blank_eq_of_nil (h e he hk)
  · simp [blank, hk]

lemma entries_hashSet_nil : (t.hashSet k .nil).hash.entries = t.hash.entries.map (blank [k]) := by
  unfold hashSet
  split
  · next old hold =>
    rw [OrderedMap.entries_insert_of_mem (OrderedMap.mem_keys_of_find? hold)]
    refine List.map_congr_left fun e _ => ?_
    simp [blank]
  · next hnone =>
    refine (map_blank_of_nil fun e he hk => ?_).symm
    exact absurd (List.mem_map.2 ⟨e, he, hk⟩) (OrderedMap.find?_eq_none_iff.1 hnone)

/-- What removing a key does to the parts of a table. -/
lemma WellFormed.setKey_nil (h : t.WellFormed) (k : Key) :
    (t.setKey k .nil).array.size ≤ t.array.size ∧
      (∀ j, (t.setKey k .nil).arrayGet j = if j = k then .nil else t.arrayGet j) ∧
      (t.setKey k .nil).hash.entries = t.hash.entries.map (blank [k]) := by
  -- outside of the array part the hash part is left with a tombstone
  have hhash : t.arrayGet k = .nil →
      (t.hashSet k .nil).array.size ≤ t.array.size ∧
      (∀ j, (t.hashSet k .nil).arrayGet j = if j = k then .nil else t.arrayGet j) ∧
      (t.hashSet k .nil).hash.entries = t.hash.entries.map (blank [k]) := by
    intro hk
    refine ⟨by rw [array_hashSet], fun j => ?_, entries_hashSet_nil⟩
    rw [arrayGet_hashSet]
    split
    · next hj => rw [hj, hk]
    · rfl
  cases k with
  | int i =>
    rw [Table.setKey, Table.setAt]
    split
    · next n hn =>
      obtain ⟨hlt, hi⟩ := arrayIndex?_eq_some_iff.1 hn
      refine ⟨?_, fun j => arrayGet_setPlace hlt hi, ?_⟩
      · split
        · exact Nat.le_trans (size_popWhile_le _) (by simp)
        · simp
      · have hnil := h.apart i (by omega) (by omega)
        refine Eq.trans ?_ (map_blank_of_nil fun e he hk => ?_).symm
        · split <;> rfl
        · rw [← hnil, ← hk]
          exact (h.hashGet_of_mem he).symm
    · next hn =>
      rw [if_neg (by simp [Value.isNil])]
      refine hhash ?_
      by_contra hne
      obtain ⟨_, n, he, hlt, hi⟩ := exists_of_arrayGet hne
      cases he
      exact arrayIndex?_eq_none_iff.1 hn ⟨by omega, by omega⟩
  | _ => exact hhash rfl

lemma slots_eq_arrayGet (hn : (n : Int) ≤ Int64.maxValue.toInt) :
    t.slots n = (List.range n).map (fun p => (placeKey p, t.arrayGet (placeKey p))) ++
      t.hash.entries := by
  rw [slots]
  congr 1
  refine List.map_congr_left fun p hp => ?_
  rw [List.mem_range] at hp
  rw [placeKey, arrayGet_of_toInt (toInt_ofNat_place (by omega))]

/-- If removals make the keys hold nil in both parts, they make their slots hold nil. -/
lemma slots_of_parts (hn : (n : Int) ≤ Int64.maxValue.toInt)
    (harray : ∀ j, u.arrayGet j = if j ∈ R then .nil else t.arrayGet j)
    (hhash : u.hash.entries = t.hash.entries.map (blank R)) :
    u.slots n = (t.slots n).map (blank R) := by
  rw [slots_eq_arrayGet hn, slots_eq_arrayGet hn, List.map_append, hhash, List.map_map]
  congr 1
  refine List.map_congr_left fun p _ => ?_
  rw [harray]
  by_cases hk : placeKey p ∈ R <;> simp [blank, hk]

/-- Removing a key makes its slots hold nil. -/
lemma WellFormed.slots_setKey_nil (h : t.WellFormed) (hn : (n : Int) ≤ Int64.maxValue.toInt) :
    (t.setKey k .nil).slots n = (t.slots n).map (blank [k]) := by
  obtain ⟨-, harray, hhash⟩ := h.setKey_nil k
  refine slots_of_parts hn (fun j => ?_) hhash
  simp only [harray, List.mem_singleton]

/-- **A table from which keys have been removed**: the slots of the keys hold nil, and all others are
as they were. -/
structure Thinned (t : Table) (R : List Key) (u : Table) : Prop where
  wellFormed : u.WellFormed
  size_le : u.array.size ≤ t.array.size
  slots_eq : u.slots t.array.size = (t.slots t.array.size).map (blank R)

lemma WellFormed.thinned (h : t.WellFormed) : t.Thinned [] t := by
  refine ⟨h, Nat.le_refl _, ?_⟩
  rw [show blank [] = id from funext fun e => by simp [blank], List.map_id]

lemma Thinned.setKey_nil (ht : t.WellFormed) (h : t.Thinned R u) (hk : k.IsNormal) :
    t.Thinned (R ++ [k]) (u.setKey k .nil) := by
  refine ⟨h.wellFormed.setKey hk, ?_, ?_⟩
  · exact Nat.le_trans (h.wellFormed.setKey_nil k).1 h.size_le
  · rw [h.wellFormed.slots_setKey_nil ht.size_le, h.slots_eq, List.map_map]
    exact List.map_congr_left fun e _ => blank_blank R [k] e

/-- Assigns nil under values one after the other; what is no key is refused. -/
def removeAll (t : Table) (xs : List Value) : Table := (t.run (xs.map fun x => .set x .nil)).1

/-- The keys that values are. -/
def keysOf (xs : List Value) : List Key := xs.filterMap Key.ofValue?

lemma keysOf_append (xs ys : List Value) : keysOf (xs ++ ys) = keysOf xs ++ keysOf ys :=
  List.filterMap_append

lemma mem_keysOf {xs : List Value} : k ∈ keysOf xs ↔ ∃ y ∈ xs, Key.ofValue? y = some k :=
  List.mem_filterMap

lemma Thinned.removeAll (ht : t.WellFormed) (h : t.Thinned R u) (xs : List Value) :
    t.Thinned (R ++ keysOf xs) (u.removeAll xs) := by
  induction xs generalizing R u with
  | nil => simpa [Table.removeAll, Table.run, keysOf] using h
  | cons x xs ih =>
    cases hx : Key.ofValue? x with
    | none =>
      have hsame : u.removeAll (x :: xs) = u.removeAll xs := by
        simp [Table.removeAll, Table.run, Table.step, Table.set, hx]
      rw [hsame, keysOf, List.filterMap_cons_none hx]
      exact ih h
    | some k =>
      have hset : u.removeAll (x :: xs) = (u.setKey k .nil).removeAll xs := by
        simp [Table.removeAll, Table.run, Table.step, Table.set, hx]
      rw [hset, keysOf, List.filterMap_cons_some hx, List.append_cons]
      exact ih (h.setKey_nil ht (Key.isNormal_of_ofValue? hx))

/-- The slots of the table and of what is left of it. -/
lemma Thinned.getElem?_slots (h : t.Thinned R u) (p : Nat) :
    (u.slots t.array.size)[p]? = (t.slots t.array.size)[p]?.map (blank R) := by
  rw [h.slots_eq, List.getElem?_map]

lemma Thinned.keys_eq (h : t.Thinned R u) : u.hash.keys = t.hash.keys := by
  have hdrop := congrArg (List.drop t.array.size) h.slots_eq
  rw [slots, slots, ← List.map_drop, List.drop_left' (by simp), List.drop_left' (by simp)] at hdrop
  rw [OrderedMap.keys, hdrop, List.map_map]
  exact List.map_congr_left fun e _ => fst_blank R e

lemma Thinned.indexOf?_eq (ht : t.WellFormed) (h : t.Thinned R u) (k : Key) :
    u.hash.indexOf? k = t.hash.indexOf? k := by
  ext q
  rw [OrderedMap.indexOf?_eq_some_iff h.wellFormed.nodup, OrderedMap.indexOf?_eq_some_iff ht.nodup,
    h.keys_eq]

/-- A slot whose key has not been removed holds what it held. -/
lemma Thinned.getElem?_of_not_mem (h : t.Thinned R u) (hslot : (t.slots t.array.size)[p]? = some (k, v))
    (hk : k ∉ R) : (u.slots t.array.size)[p]? = some (k, v) := by
  rw [h.getElem?_slots, hslot, Option.map_some, blank, if_neg hk]

/-- The array part ends before the places that have all been removed. -/
lemma Thinned.size_le_of_removed (h : t.Thinned R u)
    (hR : ∀ j, p ≤ j → j < t.array.size → placeKey j ∈ R) : u.array.size ≤ p := by
  by_contra hlt
  have hsize := h.size_le
  -- its last place would hold nil
  have hlast := h.getElem?_slots (u.array.size - 1)
  rw [getElem?_slots_place (by omega), getElem?_slots_place (by omega), Option.map_some,
    Option.some_inj, blank, if_pos (hR _ (by omega) (by omega))] at hlast
  refine h.wellFormed.ends ?_
  rw [Array.back?_eq_getElem?, Array.getElem?_eq_getElem (by omega), Option.some_inj]
  simpa [Array.getD_eq_getD_getElem?, show u.array.size - 1 < u.array.size by omega]
    using (Prod.mk.inj hlast).2

/-! ### Clearing weak entries -/

/-- Removing keys from the hash part leaves their tombstones. -/
lemma foldl_hashSet_nil_parts (t : Table) (ks : List Key) :
    (ks.foldl (fun t k => t.hashSet k .nil) t).array = t.array ∧
      (ks.foldl (fun t k => t.hashSet k .nil) t).weakMode = t.weakMode ∧
      (ks.foldl (fun t k => t.hashSet k .nil) t).hash.entries = t.hash.entries.map (blank ks) := by
  induction ks generalizing t with
  | nil => exact ⟨rfl, rfl, by simp [show blank [] = id from funext fun e => by simp [blank]]⟩
  | cons k ks ih =>
    obtain ⟨harray, hmode, hhash⟩ := ih (t.hashSet k .nil)
    refine ⟨harray.trans (array_hashSet ..), hmode.trans (weakMode_hashSet ..), ?_⟩
    rw [List.foldl_cons, hhash, entries_hashSet_nil, List.map_map]
    exact List.map_congr_left fun e _ => blank_blank [k] ks e

/-- **A clearing removes the keys that it has found.** -/
lemma WellFormed.thinned_removeDead (h : t.WellFormed) (mode : WeakMode) (p : Value → Bool) :
    t.Thinned (deadKeys (t.deadEntries mode p)) (t.removeDead (t.deadEntries mode p)) := by
  obtain ⟨harray, -, hhash⟩ := foldl_hashSet_nil_parts
    (t.clearPlaces (t.deadEntries mode p).places) (t.deadEntries mode p).keys
  refine ⟨(h.removeDead mode p).1, ?_, slots_of_parts h.size_le (fun j => ?_) ?_⟩
  · refine Nat.le_trans (Nat.le_of_eq (congrArg Array.size harray)) ?_
    exact Nat.le_trans (size_popWhile_le _) (size_foldl_setNil _ _).le
  · have hsame : (t.removeDead (t.deadEntries mode p)).arrayGet j =
        (t.clearPlaces (t.deadEntries mode p).places).arrayGet j :=
      congrArg (fun a => ({ t with array := a } : Table).arrayGet j) harray
    rw [hsame]
    by_cases hj : t.arrayGet j = .nil
    · rw [arrayGet_clearPlaces_of_nil hj, hj, ite_self]
    · -- a key of the array part is only found at its place
      obtain ⟨i, q, rfl, -, hi⟩ := exists_of_arrayGet hj
      have hkeys : Key.int i ∉ (t.deadEntries mode p).keys :=
        fun hk => hj (h.arrayGet_of_mem_keys hk).2
      simp only [arrayGet_clearPlaces hi, deadKeys, List.mem_append, hkeys, or_false,
        h.mem_map_placeKey (fun _ => lt_of_mem_places) hi]
  · refine hhash.trans (List.map_congr_left fun e he => ?_)
    rw [deadKeys, ← blank_blank]
    congr 1
    symm
    -- the tombstones of keys that are in the array part hold nil already
    by_cases hp : e.1 ∈ (t.deadEntries mode p).places.map placeKey
    · refine blank_eq_of_nil ?_
      obtain ⟨q, hq, hqe⟩ := List.mem_map.1 hp
      have hsize := h.size_le
      have hlt := lt_of_mem_places hq
      have hi : (Int64.ofNat (q + 1)).toInt = q + 1 := toInt_ofNat_place (by omega)
      have hnil := h.apart (Int64.ofNat (q + 1)) (by omega) (by omega)
      rw [← hnil]
      show e.2 = t.hashGet (placeKey q)
      rw [hqe]
      exact (h.hashGet_of_mem he).symm
    · rw [blank, if_neg hp]

/-- The entries after a removal, in their order. -/
lemma Thinned.entries_eq_filter (h : t.Thinned R u) {q : Value × Value → Bool}
    (hq : ∀ k v, (k, v) ∈ t.slots t.array.size → v ≠ .nil →
      (q (k.toValue, v) = true ↔ k ∉ R)) : u.entries = t.entries.filter q := by
  rw [entries_eq h.size_le, h.slots_eq, entries_eq (Nat.le_refl _), List.filterMap_map,
    List.filter_filterMap]
  refine List.filterMap_congr fun ⟨k, v⟩ he => ?_
  by_cases hv : v = .nil
  · subst hv
    simp [blank_eq_of_nil, entryOf?, Value.isNil]
  · by_cases hk : k ∈ R
    · have hfalse : q (k.toValue, v) = false := by
        by_contra hne
        exact (hq k v he hv).1 (by simpa using hne) hk
      simp [blank, hk, entryOf?, hfalse, Value.isNil, Option.filter]
    · have htrue := (hq k v he hv).2 hk
      simp [blank, hk, entryOf?, hv, htrue, Option.filter]

/-- **What a clearing leaves**: the entries without a dead weak side, in their order. -/
theorem WellFormed.entries_removeDead (h : t.WellFormed) (mode : WeakMode) (p : ObjectTest) :
    (t.removeDead (t.deadEntries mode p.test)).entries =
      t.entries.filter fun e => !(mode.keys && p.test e.1 || mode.values && p.test e.2) := by
  refine (h.thinned_removeDead mode p.test).entries_eq_filter fun k v hslot hv => ?_
  have hdead : isDeadEntry mode p.test k v =
      (mode.keys && p.test k.toValue || mode.values && p.test v) := by
    simp [isDeadEntry, hv]
  rw [h.mem_deadKeys_iff, (h.mem_slots_iff hv).1 hslot, hdead, Bool.not_eq_true', Bool.not_eq_true]

lemma weakMode_removeDead (d : DeadEntries) : (t.removeDead d).weakMode = t.weakMode :=
  (foldl_hashSet_nil_parts _ d.keys).2.1

end Table

end LuaCore
