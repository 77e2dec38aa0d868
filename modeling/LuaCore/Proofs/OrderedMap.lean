import LuaCore.OrderedMap
import Mathlib.Data.List.Nodup
import Mathlib.Tactic.Lemma

/-!
Laws of ordered maps: what a key is bound to after each operation, and what the operation does to the
list of keys.
-/

namespace LuaCore.OrderedMap

variable {κ ν : Type} {m : OrderedMap κ ν} {j k : κ} {v : ν}

/-- The keys, oldest first. -/
def keys (m : OrderedMap κ ν) : List κ := m.entries.map Prod.fst

lemma keys_filterValues_sublist (p : ν → Bool) : (m.filterValues p).keys.Sublist m.keys :=
  List.filter_sublist.map Prod.fst

lemma nodup_keys_filterValues (p : ν → Bool) (hm : m.keys.Nodup) :
    (m.filterValues p).keys.Nodup :=
  hm.sublist (keys_filterValues_sublist p)

variable [DecidableEq κ]

/-! ### Finding -/

lemma find?_eq_none_iff : m.find? k = none ↔ k ∉ m.keys := by
  simp only [find?, keys, List.lookup_eq_none_iff, List.mem_map, not_exists, not_and]
  constructor
  · intro h e he hk
    simpa [hk] using h e he
  · intro h e he
    simpa using fun hk => h e he (Eq.symm hk)

lemma contains_iff : m.contains k = true ↔ k ∈ m.keys := by
  rw [contains, Option.isSome_iff_ne_none, ne_eq, find?_eq_none_iff, not_not]

lemma mem_entries_of_find? (h : m.find? k = some v) : (k, v) ∈ m.entries := by
  obtain ⟨l₁, l₂, he, -⟩ := List.lookup_eq_some_iff.1 h
  simp [he]

lemma mem_keys_of_find? (h : m.find? k = some v) : k ∈ m.keys :=
  List.mem_map_of_mem (f := Prod.fst) (mem_entries_of_find? h)

lemma find?_eq_some_iff (hm : m.keys.Nodup) : m.find? k = some v ↔ (k, v) ∈ m.entries := by
  refine ⟨mem_entries_of_find?, fun h => ?_⟩
  obtain ⟨l₁, l₂, he⟩ := List.append_of_mem h
  refine List.lookup_eq_some_iff.2 ⟨l₁, l₂, he, fun e hl => ?_⟩
  rw [keys, he, List.map_append, List.map_cons, List.nodup_append] at hm
  have hne := hm.2.2 e.1 (List.mem_map_of_mem hl) k (by simp)
  simpa using Ne.symm hne

lemma find?_empty : (empty : OrderedMap κ ν).find? k = none := rfl

/-! ### Binding a key -/

lemma entries_insert_of_mem (h : k ∈ m.keys) :
    (m.insert k v).entries = m.entries.map fun e => if e.1 = k then (e.1, v) else e := by
  rw [insert, if_pos (contains_iff.2 h)]

lemma entries_insert_of_not_mem (h : k ∉ m.keys) :
    (m.insert k v).entries = m.entries ++ [(k, v)] := by
  rw [insert, if_neg (mt contains_iff.1 h)]

lemma keys_insert_of_mem (h : k ∈ m.keys) : (m.insert k v).keys = m.keys := by
  rw [keys, entries_insert_of_mem h, List.map_map, keys]
  refine List.map_congr_left fun e _ => ?_
  simp only [Function.comp]
  split <;> rfl

lemma keys_insert_of_not_mem (h : k ∉ m.keys) : (m.insert k v).keys = m.keys ++ [k] := by
  rw [keys, entries_insert_of_not_mem h, List.map_append]
  rfl

lemma nodup_keys_insert (hm : m.keys.Nodup) : (m.insert k v).keys.Nodup := by
  by_cases h : k ∈ m.keys
  · rwa [keys_insert_of_mem h]
  · rw [keys_insert_of_not_mem h]
    exact List.nodup_append.2 ⟨hm, by simp, by rintro a ha b hb rfl; simp_all⟩

lemma mem_keys_insert : j ∈ (m.insert k v).keys ↔ j = k ∨ j ∈ m.keys := by
  by_cases h : k ∈ m.keys
  · rw [keys_insert_of_mem h]
    exact ⟨Or.inr, by rintro (rfl | hj) <;> assumption⟩
  · rw [keys_insert_of_not_mem h, List.mem_append, List.mem_singleton, or_comm]

/-- Replacing the value of a key in a list of bindings. -/
lemma lookup_map_replace (l : List (κ × ν)) :
    (l.map fun e => if e.1 = k then (e.1, v) else e).lookup j =
      if j = k then (l.lookup j).map fun _ => v else l.lookup j := by
  induction l with
  | nil => simp
  | cons e l ih =>
    obtain ⟨a, b⟩ := e
    rw [List.map_cons, List.lookup_cons]
    by_cases hj : j = a
    · subst hj
      by_cases hk : j = k <;> simp [hk]
    · have hja : (j == a) = false := by simpa using hj
      by_cases hk : a = k
      · simp only [hk, if_true, List.lookup_cons, hk ▸ hja, ih]
      · simp only [hk, if_false, List.lookup_cons, hja, ih]

lemma find?_insert : (m.insert k v).find? j = if j = k then some v else m.find? j := by
  by_cases h : k ∈ m.keys
  · rw [find?, entries_insert_of_mem h, lookup_map_replace]
    split
    · next hj =>
      obtain ⟨w, hw⟩ := Option.isSome_iff_exists.1 (contains_iff.2 h)
      rw [hj, show m.entries.lookup k = some w from hw]
      rfl
    · rfl
  · rw [find?, entries_insert_of_not_mem h, List.lookup_append, List.lookup_cons, List.lookup_nil]
    by_cases hj : j = k
    · subst hj
      have hn : m.entries.lookup j = none := find?_eq_none_iff.2 h
      simp [hn]
    · have hjk : (j == k) = false := by simpa using hj
      simp [hjk, hj, find?]

/-! ### Removing bindings -/

lemma keys_erase : (m.erase k).keys = m.keys.filter fun j => j ≠ k := by
  simp only [keys, erase, List.filter_map]
  rfl

lemma nodup_keys_erase (hm : m.keys.Nodup) : (m.erase k).keys.Nodup := by
  rw [keys_erase]
  exact hm.filter _

lemma find?_erase : (m.erase k).find? j = if j = k then none else m.find? j := by
  split
  · next hj =>
    rw [find?_eq_none_iff, keys_erase, hj]
    simp
  · next hj =>
    obtain ⟨l⟩ := m
    simp only [find?, erase]
    induction l with
    | nil => rfl
    | cons e l ih =>
      obtain ⟨a, b⟩ := e
      by_cases ha : a = k
      · have hja : (j == k) = false := by simpa using hj
        simp only [ha, ne_eq, not_true, decide_false, Bool.false_eq_true, not_false_eq_true,
          List.filter_cons_of_neg, List.lookup_cons, hja, ih]
      · simp only [ne_eq, ha, not_false_eq_true, decide_true, List.filter_cons_of_pos,
          List.lookup_cons, ih]

lemma find?_filterValues (p : ν → Bool) (hm : m.keys.Nodup) :
    (m.filterValues p).find? k = (m.find? k).filter p := by
  ext v
  rw [find?_eq_some_iff (nodup_keys_filterValues p hm), Option.filter_eq_some_iff,
    find?_eq_some_iff hm, filterValues, List.mem_filter]

/-! ### The place of a key -/

/-- The place of a key is where the list of bindings holds it. -/
lemma indexOf?_eq_some_iff (hm : m.keys.Nodup) {p : Nat} :
    m.indexOf? k = some p ↔ m.keys[p]? = some k := by
  constructor
  · intro h
    obtain ⟨hp, hk, -⟩ := List.findIdx?_eq_some_iff_getElem.1 h
    rw [keys, List.getElem?_map, List.getElem?_eq_getElem hp]
    simpa using hk
  · intro h
    obtain ⟨hp, hk⟩ := List.getElem?_eq_some_iff.1 h
    have hp' : p < m.entries.length := by simpa [keys] using hp
    refine List.findIdx?_eq_some_iff_getElem.2 ⟨hp', ?_, fun q hq => ?_⟩
    · simpa [keys] using hk
    · have hq' : q < m.keys.length := Nat.lt_trans hq hp
      have hne : m.keys[q] ≠ k := fun he =>
        Nat.ne_of_lt hq ((hm.getElem_inj_iff).1 (he.trans hk.symm))
      simpa [keys] using hne

end LuaCore.OrderedMap
