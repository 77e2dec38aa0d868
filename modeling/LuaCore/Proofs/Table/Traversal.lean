import LuaCore.Proofs.Table.Entries

/-!
A traversal as a position among the slots.

The slots of a table are counted through, first those of the array part and then those of the hash
part.  The array part may be given more places than it has; the ones behind its end hold nil.  What
`next` gives for a key is then the first entry from a certain slot on: from the slot behind the one of
the key, unless the key has fallen off the end of the array part and has a slot in the hash part too.
-/

namespace LuaCore

namespace Table

variable {t : Table} {k : Key} {v y : Value} {l : List (Key × Value)} {n p q r s : Nat}

/-! ### The first entry from a slot on -/

/-- The first entry among the slots from `r` on. -/
def firstFrom (l : List (Key × Value)) (r : Nat) : Option (Value × Value) :=
  (l.drop r).findSome? entryOf?

lemma firstFrom_eq_none_iff :
    firstFrom l r = none ↔ ∀ j e, r ≤ j → l[j]? = some e → e.2 = .nil := by
  rw [firstFrom, List.findSome?_eq_none_iff]
  constructor
  · intro h j e hj he
    refine entryOf?_eq_none_iff.1 (h e ?_)
    obtain ⟨d, rfl⟩ := Nat.exists_eq_add_of_le hj
    exact List.mem_of_getElem? (by rw [List.getElem?_drop]; exact he)
  · intro h e he
    obtain ⟨d, hd⟩ := List.getElem?_of_mem he
    rw [List.getElem?_drop] at hd
    exact entryOf?_eq_none_iff.2 (h (r + d) e (by omega) hd)

/-- The slot in which the first entry is found. -/
lemma exists_of_firstFrom (h : firstFrom l r = some (y, v)) :
    ∃ s k, r ≤ s ∧ l[s]? = some (k, v) ∧ v ≠ .nil ∧ y = k.toValue ∧
      ∀ j e, r ≤ j → j < s → l[j]? = some e → e.2 = .nil := by
  obtain ⟨l₁, e, l₂, hl, he, hnone⟩ := List.findSome?_eq_some_iff.1 h
  obtain ⟨hv, he⟩ := entryOf?_eq_some_iff.1 he
  obtain ⟨rfl, rfl⟩ := Prod.mk.inj he
  refine ⟨r + l₁.length, e.1, by omega, ?_, hv, rfl, fun j e' hj hlt he' => ?_⟩
  · rw [← List.getElem?_drop, hl]
    simp
  · obtain ⟨d, rfl⟩ := Nat.exists_eq_add_of_le hj
    rw [← List.getElem?_drop, hl, List.getElem?_append_left (by omega)] at he'
    exact entryOf?_eq_none_iff.1 (hnone e' (List.mem_of_getElem? he'))

/-- Slots that hold nil may be passed over. -/
lemma firstFrom_skip (hrs : r ≤ s) (hgap : ∀ j e, r ≤ j → j < s → l[j]? = some e → e.2 = .nil) :
    firstFrom l r = firstFrom l s := by
  induction s, hrs using Nat.le_induction with
  | base => rfl
  | succ s hrs ih =>
    rw [ih fun j e hj hlt => hgap j e hj (by omega)]
    unfold firstFrom
    cases hs : l[s]? with
    | none =>
      have hlen := List.getElem?_eq_none_iff.1 hs
      rw [List.drop_eq_nil_of_le hlen, List.drop_eq_nil_of_le (by omega)]
    | some e =>
      obtain ⟨hlt, rfl⟩ := List.getElem?_eq_some_iff.1 hs
      rw [List.drop_eq_getElem_cons hlt, List.findSome?_cons,
        entryOf?_eq_none_iff.2 (hgap s _ hrs (by omega) hs)]

/-! ### Slots by their numbers -/

lemma getElem?_slots_place (hp : p < n) :
    (t.slots n)[p]? = some (placeKey p, t.array.getD p .nil) := by
  rw [slots, List.getElem?_append_left (by simpa using hp)]
  simp [hp]

lemma getElem?_slots_hash : (t.slots n)[n + q]? = t.hash.entries[q]? := by
  rw [slots, List.getElem?_append_right (by simp)]
  simp

/-- Places behind the end of the array part hold nil. -/
lemma slots_nil_of_le {e : Key × Value} (hp : t.array.size ≤ p) (hn : p < n)
    (he : (t.slots n)[p]? = some e) : e.2 = .nil := by
  rw [getElem?_slots_place hn] at he
  cases he
  exact getD_eq_nil_of_le hp

lemma nextFromHash_eq (n q : Nat) : t.nextFromHash q = firstFrom (t.slots n) (n + q) := by
  rw [firstFrom, slots, List.drop_append, List.drop_eq_nil_of_le (by simp)]
  simp only [List.length_map, List.length_range, Nat.add_sub_cancel_left, List.nil_append]
  rfl

lemma nextFromArray_eq (hn : t.array.size ≤ n) (hp : p ≤ n) :
    t.nextFromArray p = firstFrom (t.slots n) p := by
  obtain ⟨d, rfl⟩ := Nat.exists_eq_add_of_le hn
  have hbeyond : ∀ j, ((((List.range d).map (t.array.size + ·)).map
      fun p => (placeKey p, t.array.getD p .nil)).drop j).findSome? entryOf? = none := by
    intro j
    rw [List.findSome?_eq_none_iff]
    intro e he
    have he := List.mem_of_mem_drop he
    rw [List.map_map, List.mem_map] at he
    obtain ⟨c, -, rfl⟩ := he
    exact entryOf?_eq_none_iff.2 (getD_eq_nil_of_le (Nat.le_add_right _ _))
  rw [firstFrom, slots, List.drop_append_of_le_length (by simpa using hp), List.findSome?_append,
    List.range_add, List.map_append, List.drop_append, List.findSome?_append, hbeyond,
    Option.or_none, nextFromArray, zipIdx_array, ← List.map_drop, ← List.map_drop,
    List.findSome?_map, List.findSome?_map]
  rfl

/-! ### The entry behind a key -/

lemma next_nil (hn : t.array.size ≤ n) : t.next .nil = .ok (firstFrom (t.slots n) 0) :=
  congrArg Except.ok (nextFromArray_eq hn (Nat.zero_le n))

lemma next_int (i : Int64) :
    t.next (Key.int i).toValue =
      match t.arrayIndex? i with
      | some j => .ok (t.nextFromArray (j + 1))
      | none => t.nextInHash (.int i) := rfl

/-- Behind a place of the array part. -/
lemma next_place (hn : t.array.size ≤ n) (hmax : (n : Int) ≤ Int64.maxValue.toInt)
    (hp : p < t.array.size) :
    t.next (placeKey p).toValue = .ok (firstFrom (t.slots n) (p + 1)) := by
  have hi : (Int64.ofNat (p + 1)).toInt = p + 1 := toInt_ofNat_place (by omega)
  have hindex : t.arrayIndex? (Int64.ofNat (p + 1)) = some p := arrayIndex?_eq_some_iff.2 ⟨hp, hi⟩
  rw [← nextFromArray_eq hn (by omega), placeKey, next_int, hindex]

/-- Behind a key that the array part does not hold and the hash part does. -/
lemma next_hash (n : Nat) (hk : k.IsNormal) (harray : ∀ i, k = .int i → t.arrayIndex? i = none)
    (hq : t.hash.indexOf? k = some q) :
    t.next k.toValue = .ok (firstFrom (t.slots n) (n + q + 1)) := by
  have hin : t.nextInHash k = .ok (firstFrom (t.slots n) (n + q + 1)) := by
    rw [nextInHash, hq, Nat.add_assoc, ← nextFromHash_eq]
  rw [next, hk]
  cases k with
  | int i => simp only [harray i rfl, hin]
  | _ => exact hin

/-- Behind a key that has fallen off the end of the array part. -/
lemma next_fallen (hmax : (n : Int) ≤ Int64.maxValue.toInt) (hp : t.array.size ≤ p) (hn : p < n)
    (hnone : t.hash.indexOf? (placeKey p) = none) :
    t.next (placeKey p).toValue = .ok (firstFrom (t.slots n) (p + 1)) := by
  have hi : (Int64.ofNat (p + 1)).toInt = p + 1 := toInt_ofNat_place (by omega)
  have hindex : t.arrayIndex? (Int64.ofNat (p + 1)) = none :=
    arrayIndex?_eq_none_iff.2 (by omega)
  have hlike : isArrayLike (placeKey p) = true := by
    rw [placeKey, isArrayLike, hi]
    simp only [decide_eq_true_eq]
    omega
  -- the places from here to the hash part hold nil
  have hskip : firstFrom (t.slots n) (p + 1) = t.nextFromHash 0 := by
    rw [nextFromHash_eq n]
    exact firstFrom_skip (by omega) fun j e hj hlt he => slots_nil_of_le (by omega) hlt he
  rw [placeKey, next_int, hindex]
  rw [placeKey] at hnone hlike
  simp only [nextInHash, hnone, hlike, hskip, if_true]

/-! ### What a step gives -/

lemma mem_entries_of_nextFromHash {e : Value × Value} (h : t.nextFromHash p = some e) :
    e ∈ t.entries := by
  obtain ⟨f, hf, he⟩ := List.exists_of_findSome?_eq_some h
  exact List.mem_append_right _ (List.mem_filterMap.2 ⟨f, List.mem_of_mem_drop hf, he⟩)

lemma mem_entries_of_nextFromArray {e : Value × Value} (h : t.nextFromArray p = some e) :
    e ∈ t.entries := by
  rcases Option.or_eq_some_iff.1 h with h | ⟨-, h⟩
  · obtain ⟨f, hf, he⟩ := List.exists_of_findSome?_eq_some h
    exact List.mem_append_left _ (List.mem_filterMap.2 ⟨f, List.mem_of_mem_drop hf, he⟩)
  · exact mem_entries_of_nextFromHash h

lemma mem_entries_of_nextInHash {e : Value × Value} (h : t.nextInHash k = .ok (some e)) :
    e ∈ t.entries := by
  unfold nextInHash at h
  split at h
  · exact mem_entries_of_nextFromHash (Except.ok.inj h)
  · split at h
    · exact mem_entries_of_nextFromHash (Except.ok.inj h)
    · simp at h

lemma mem_entries_of_next {x : Value} {e : Value × Value} (h : t.next x = .ok (some e)) :
    e ∈ t.entries := by
  unfold next at h
  split at h
  · split at h
    · exact mem_entries_of_nextFromArray (Except.ok.inj h)
    · simp at h
  · split at h
    · exact mem_entries_of_nextFromArray (Except.ok.inj h)
    · exact mem_entries_of_nextInHash h
  · exact mem_entries_of_nextInHash h

lemma snd_of_nextAt {i : Int64} {e : Int64 × Value} (h : t.nextAt i = some e) :
    e.2 = t.getAt e.1 := by
  unfold nextAt at h
  split at h
  · simp at h
  · dsimp only at h
    split at h
    · simp at h
    · cases h
      rfl

end Table

end LuaCore
