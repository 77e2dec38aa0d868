import LuaCore.Arena
import Mathlib.Data.Set.Card

/-!
What each operation of an arena does to what its handles give.

`get?` and `isMarked` say all there is to know about a handle.  Marks are independent of the objects:
two arenas that are the same without their marks give the same objects.  An arena is well formed if
its free list holds the empty slots, each once; then a new object leaves the others alone.
-/

namespace LuaCore

namespace Arena

variable {α : Type} {a b : Arena α} {h j : Handle} {v : α}

/-! ### Reading by the slot -/

lemma slot?_eq_some_iff {s : Slot α} :
    a.slot? h = some s ↔
      a.slots[h.index]? = some s ∧ s.generation = h.generation ∧ s.value.isSome := by
  simp [slot?, Option.filter_eq_some_iff]

lemma get?_eq (a : Arena α) (h : Handle) :
    a.get? h = a.slots[h.index]?.bind fun s =>
      if s.generation = h.generation then s.value else none := by
  unfold get? slot?
  rcases a.slots[h.index]? with _ | ⟨g, m, o⟩
  · rfl
  · by_cases hg : g = h.generation <;> cases o <;> simp [Option.filter, hg]

lemma isMarked_eq (a : Arena α) (h : Handle) :
    a.isMarked h = a.slots[h.index]?.any fun s =>
      s.generation == h.generation && s.value.isSome && s.marked := by
  unfold isMarked slot?
  rcases a.slots[h.index]? with _ | ⟨g, m, o⟩
  · rfl
  · by_cases hg : g = h.generation <;> cases o <;> simp [Option.filter, hg]

lemma contains_eq (a : Arena α) (h : Handle) : a.contains h = (a.get? h).isSome := by
  unfold contains get?
  rcases hs : a.slot? h with _ | s
  · rfl
  · simp [(slot?_eq_some_iff.1 hs).2.2]

lemma contains_iff : a.contains h = true ↔ ∃ v, a.get? h = some v := by
  rw [contains_eq, Option.isSome_iff_exists]

lemma contains_of_get? (hv : a.get? h = some v) : a.contains h = true := contains_iff.2 ⟨v, hv⟩

lemma contains_of_isMarked (hm : a.isMarked h = true) : a.contains h = true := by
  unfold isMarked at hm
  unfold contains
  split at hm
  · next hs => rw [hs]; rfl
  · simp at hm

/-- The slot of a good handle. -/
lemma exists_slot (hc : a.contains h = true) : ∃ s, a.slot? h = some s :=
  Option.isSome_iff_exists.1 hc

/-! ### Changing objects -/

@[simp] lemma get?_map (f : α → α) : (a.map f).get? h = (a.get? h).map f := by
  simp only [get?_eq, map, Array.getElem?_map]
  rcases a.slots[h.index]? with _ | s
  · rfl
  · by_cases hg : s.generation = h.generation <;> simp [hg]

@[simp] lemma contains_map (f : α → α) : (a.map f).contains h = a.contains h := by
  simp [contains_eq]

@[simp] lemma get?_modify (f : α → α) :
    (a.modify h f).get? j = if j = h then (a.get? j).map f else a.get? j := by
  unfold modify
  split
  · next hc =>
    obtain ⟨s, hs⟩ := exists_slot hc
    obtain ⟨hs, hsg, -⟩ := slot?_eq_some_iff.1 hs
    simp only [get?_eq, Array.getElem?_modify]
    by_cases hi : h.index = j.index
    · rw [if_pos hi, ← hi, hs]
      by_cases hg : s.generation = j.generation
      · have hjh : j = h := by cases h; cases j; simp_all
        simp [hg, hjh]
      · have hjh : j ≠ h := fun he => hg (he ▸ hsg)
        simp [hg, hjh]
    · have hjh : j ≠ h := fun he => hi (he ▸ rfl)
      rw [if_neg hi, if_neg hjh]
  · next hc =>
    split
    · next hjh =>
      subst hjh
      rw [contains_eq, Option.isSome_iff_ne_none] at hc
      rw [not_not.1 hc]
      rfl
    · rfl

@[simp] lemma contains_modify (f : α → α) : (a.modify h f).contains j = a.contains j := by
  rw [contains_eq, contains_eq, get?_modify]
  split <;> simp

/-- An object is known by its slot. -/
lemma get?_of_slot {i : Nat} {s : Slot α} (hs : a.slots[i]? = some s) :
    a.get? ⟨i, s.generation⟩ = s.value := by
  simp [get?_eq, hs]

/-- Where every object stays, nothing changes. -/
lemma map_eq_self {f : α → α} (hf : ∀ h v, a.get? h = some v → f v = v) : a.map f = a := by
  have hslots : a.slots.map (fun s => { s with value := s.value.map f }) = a.slots := by
    refine Array.ext_getElem? fun i => ?_
    rw [Array.getElem?_map]
    cases hs : a.slots[i]? with
    | none => rfl
    | some s =>
      have hvalue : s.value.map f = s.value := by
        cases hv : s.value with
        | none => rfl
        | some v => rw [Option.map_some, hf _ v ((get?_of_slot hs).trans hv)]
      rw [Option.map_some, hvalue]
  rw [map, hslots]

lemma modify_eq_self {f : α → α} (hf : ∀ v, a.get? h = some v → f v = v) : a.modify h f = a := by
  unfold modify
  split
  · next hc =>
    obtain ⟨s, hs⟩ := exists_slot hc
    obtain ⟨hget, hgen, hval⟩ := slot?_eq_some_iff.1 hs
    obtain ⟨v, hv⟩ := Option.isSome_iff_exists.1 hval
    have hfv : f v = v := hf v (by simp [get?_eq, hget, hgen, hv])
    have hslots : a.slots.modify h.index (fun s => { s with value := s.value.map f }) = a.slots := by
      refine Array.ext_getElem? fun i => ?_
      rw [Array.getElem?_modify]
      split
      · next hi =>
        rw [← hi, hget, Option.map_some, hv, Option.map_some, hfv, ← hv]
      · rfl
    rw [hslots]
  · rfl

lemma get?_put (hc : a.contains h = true) (v : α) :
    (a.put h v).get? j = if j = h then some v else a.get? j := by
  rw [put, get?_modify]
  split
  · next hj =>
    obtain ⟨w, hw⟩ := contains_iff.1 hc
    rw [hj, hw]
    rfl
  · rfl

/-- Where one object is changed or new, the good handles stay good. -/
lemma contains_of_get?_eq (hb : ∀ j, b.get? j = if j = h then some v else a.get? j)
    (hj : a.contains j = true ∨ j = h) : b.contains j = true := by
  rw [contains_eq] at hj ⊢
  rw [hb]
  split
  · rfl
  · next hne => exact hj.resolve_right hne

@[simp] lemma isMarked_modify (f : α → α) : (a.modify h f).isMarked j = a.isMarked j := by
  unfold modify
  split
  · simp only [isMarked_eq, Array.getElem?_modify]
    split
    · rcases a.slots[j.index]? with _ | s <;> simp
    · rfl
  · rfl

/-! ### Marks -/

@[simp] lemma get?_clearMarks : a.clearMarks.get? h = a.get? h := by
  simp only [get?_eq, clearMarks, Array.getElem?_map]
  rcases a.slots[h.index]? with _ | s <;> simp

@[simp] lemma isMarked_clearMarks : a.clearMarks.isMarked h = false := by
  simp only [isMarked_eq, clearMarks, Array.getElem?_map]
  rcases a.slots[h.index]? with _ | s <;> simp

@[simp] lemma contains_clearMarks : a.clearMarks.contains h = a.contains h := by
  simp [contains_eq]

@[simp] lemma clearMarks_clearMarks : a.clearMarks.clearMarks = a.clearMarks := by
  simp [clearMarks, Function.comp_def]

lemma map_clearMarks (f : α → α) : a.clearMarks.map f = (a.map f).clearMarks := by
  simp [clearMarks, map, Function.comp_def]

/-- Arenas that are the same without their marks have the same objects. -/
lemma get?_eq_of_clearMarks (hab : b.clearMarks = a.clearMarks) (h : Handle) :
    b.get? h = a.get? h := by
  rw [← get?_clearMarks, hab, get?_clearMarks]

lemma contains_eq_of_clearMarks (hab : b.clearMarks = a.clearMarks) (h : Handle) :
    b.contains h = a.contains h := by
  rw [contains_eq, contains_eq, get?_eq_of_clearMarks hab]

lemma mark?_eq_none_iff : a.mark? h = none ↔ a.contains h = false ∨ a.isMarked h = true := by
  unfold mark? contains isMarked
  rcases a.slot? h with _ | s
  · simp
  · cases hm : s.marked <;> simp [hm]

/-- **Marking an object**: it was there without a mark, has one now, and nothing else is different. -/
lemma mark?_eq_some (hm : a.mark? h = some b) :
    a.contains h = true ∧ a.isMarked h = false ∧ b.clearMarks = a.clearMarks ∧
      ∀ j, b.isMarked j = (decide (j = h) || a.isMarked j) := by
  unfold mark? at hm
  split at hm
  case h_2 => simp at hm
  case h_1 s hs =>
    obtain ⟨hget, hgen, hval⟩ := slot?_eq_some_iff.1 hs
    obtain ⟨hlt, -⟩ := Array.getElem?_eq_some_iff.1 hget
    split at hm
    · simp at hm
    · next hfresh =>
      cases hm
      refine ⟨by simp [contains, hs], by simpa [isMarked, hs] using hfresh, ?_, fun j => ?_⟩
      · simp only [clearMarks, mk.injEq, and_true]
        refine Array.ext_getElem? fun i => ?_
        simp only [Array.getElem?_map, Array.getElem?_setIfInBounds]
        split
        · next hi => rw [← hi, hget]; rfl
        · rfl
      · simp only [isMarked_eq, Array.getElem?_setIfInBounds]
        by_cases hi : h.index = j.index
        · rw [if_pos hi, if_pos hlt, ← hi, hget]
          by_cases hg : s.generation = j.generation
          · have hjh : j = h := by cases h; cases j; simp_all
            simp [hjh, hgen, hval]
          · have hjh : j ≠ h := fun he => hg (he ▸ hgen)
            simp [hg, hjh]
        · have hjh : j ≠ h := fun he => hi (he ▸ rfl)
          simp [hi, hjh]

/-! ### Listing and freeing -/

lemma mem_entries_iff : (h, v) ∈ a.entries ↔ a.get? h = some v := by
  simp only [entries, List.mem_filterMap, Prod.exists, Option.map_eq_some_iff, Prod.mk.injEq]
  constructor
  · rintro ⟨s, i, hs, w, hw, rfl, rfl⟩
    have hget : a.slots[i]? = some s := by simpa [List.mem_zipIdx_iff_getElem?] using hs
    simp [get?_eq, hget, hw]
  · intro hv
    rw [get?_eq, Option.bind_eq_some_iff] at hv
    obtain ⟨s, hs, hv⟩ := hv
    split at hv
    · next hg =>
      refine ⟨s, h.index, ?_, v, hv, ?_, rfl⟩
      · simpa [List.mem_zipIdx_iff_getElem?] using hs
      · rw [hg]
    · simp at hv

/-- The entries come by their slots, so no slot is listed twice. -/
lemma nodup_index_entries (a : Arena α) : (a.entries.map fun e => e.1.index).Nodup := by
  have hidx : (a.slots.toList.zipIdx.map Prod.snd).Nodup := by
    rw [List.zipIdx_map_snd]
    exact List.nodup_range'
  rw [List.Nodup, List.pairwise_map] at hidx ⊢
  refine List.Pairwise.filterMap _ ?_ hidx
  rintro ⟨s, i⟩ ⟨u, k⟩ hne e hs e' hu
  obtain ⟨v, -, rfl⟩ := Option.map_eq_some_iff.1 hs
  obtain ⟨w, -, rfl⟩ := Option.map_eq_some_iff.1 hu
  exact hne

lemma mem_garbage_iff : (h, v) ∈ a.garbage ↔ a.get? h = some v ∧ a.isMarked h = false := by
  simp [garbage, mem_entries_iff]

lemma nodup_index_garbage (a : Arena α) : (a.garbage.map fun e => e.1.index).Nodup :=
  (List.filter_sublist.map _).nodup a.nodup_index_entries

lemma nodup_garbage (a : Arena α) : (a.garbage.map Prod.fst).Nodup := by
  refine List.Nodup.of_map Handle.index ?_
  rw [List.map_map]
  exact a.nodup_index_garbage

lemma mem_handles_garbage_iff :
    h ∈ a.garbage.map Prod.fst ↔ a.contains h = true ∧ a.isMarked h = false := by
  simp only [List.mem_map, Prod.exists, exists_and_right, exists_eq_right, mem_garbage_iff,
    contains_iff]

/-- As many objects are freed as there are handles of objects without a mark. -/
lemma length_garbage (a : Arena α) :
    a.garbage.length = {h | a.contains h = true ∧ a.isMarked h = false}.ncard := by
  have hset : {h | a.contains h = true ∧ a.isMarked h = false} =
      ((a.garbage.map Prod.fst).toFinset : Set Handle) := by
    ext h
    simp only [Set.mem_ofPred_eq, List.coe_toFinset, mem_handles_garbage_iff]
  rw [hset, Set.ncard_coe_finset, List.toFinset_card_of_nodup a.nodup_garbage, List.length_map]

@[simp] lemma get?_sweep : a.sweep.get? h = if a.isMarked h then a.get? h else none := by
  simp only [get?_eq, isMarked_eq, sweep, Array.getElem?_map]
  rcases a.slots[h.index]? with _ | ⟨g, m, o⟩
  · rfl
  · by_cases hg : g = h.generation <;> cases o <;> cases m <;> simp [Slot.swept, hg]

@[simp] lemma contains_sweep : a.sweep.contains h = a.isMarked h := by
  rw [contains_eq, get?_sweep]
  split
  · next hm => rw [← contains_eq, contains_of_isMarked hm, hm]
  · next hm => simpa using hm

/-! ### The free list -/

/-- A slot without an object. -/
def Vacant (a : Arena α) (i : Nat) : Prop := ∃ s, a.slots[i]? = some s ∧ s.value = none

/-- **A well formed arena**: the free list holds the empty slots, each once. -/
structure WellFormed (a : Arena α) : Prop where
  nodup : a.free.Nodup
  mem_free : ∀ i, i ∈ a.free ↔ a.Vacant i

lemma get?_empty (h : Handle) : (empty : Arena α).get? h = none := rfl

lemma wellFormed_empty : (empty : Arena α).WellFormed :=
  ⟨List.nodup_nil, fun i => by simp [Vacant, empty]⟩

/-- Where no slot is filled or emptied, the free list stays right. -/
lemma WellFormed.of_vacant (ha : a.WellFormed) (hfree : b.free = a.free)
    (hvacant : ∀ i, b.Vacant i ↔ a.Vacant i) : b.WellFormed :=
  ⟨hfree ▸ ha.nodup, fun i => by rw [hfree, ha.mem_free, hvacant]⟩

lemma WellFormed.map (ha : a.WellFormed) (f : α → α) : (a.map f).WellFormed := by
  refine ha.of_vacant rfl fun i => ?_
  simp only [Vacant, Arena.map, Array.getElem?_map]
  rcases a.slots[i]? with _ | s <;> simp

lemma WellFormed.modify (ha : a.WellFormed) (h : Handle) (f : α → α) :
    (a.modify h f).WellFormed := by
  unfold Arena.modify
  split
  · refine ha.of_vacant rfl fun i => ?_
    simp only [Vacant, Array.getElem?_modify]
    rcases a.slots[i]? with _ | s
    · simp
    · by_cases hi : h.index = i <;> simp [hi]
  · exact ha

lemma vacant_clearMarks {i : Nat} : a.clearMarks.Vacant i ↔ a.Vacant i := by
  simp only [Vacant, clearMarks, Array.getElem?_map]
  rcases a.slots[i]? with _ | s <;> simp

/-- Marks have nothing to do with the free list. -/
lemma WellFormed.of_clearMarks (ha : a.WellFormed) (hab : b.clearMarks = a.clearMarks) :
    b.WellFormed := by
  refine ha.of_vacant (show b.clearMarks.free = a.clearMarks.free by rw [hab]) fun i => ?_
  rw [← vacant_clearMarks, hab, vacant_clearMarks]

lemma mem_index_garbage {i : Nat} :
    i ∈ a.garbage.map (fun e => e.1.index) ↔
      ∃ s, a.slots[i]? = some s ∧ s.value.isSome = true ∧ s.marked = false := by
  rw [List.mem_map]
  constructor
  · rintro ⟨⟨h, v⟩, he, rfl⟩
    obtain ⟨hv, hm⟩ := mem_garbage_iff.1 he
    obtain ⟨s, hs⟩ := exists_slot (contains_of_get? hv)
    obtain ⟨hget, -, hval⟩ := slot?_eq_some_iff.1 hs
    exact ⟨s, hget, hval, by simpa [isMarked, hs] using hm⟩
  · rintro ⟨s, hs, hval, hm⟩
    obtain ⟨v, hv⟩ := Option.isSome_iff_exists.1 hval
    refine ⟨(⟨i, s.generation⟩, v), mem_garbage_iff.2 ⟨?_, ?_⟩, rfl⟩
    · simp [get?_eq, hs, hv]
    · simp [isMarked_eq, hs, hm]

/-- A sweep that frees nothing changes nothing. -/
lemma sweep_eq_self (hg : a.garbage = []) : a.sweep = a := by
  have hslots : a.slots.map Slot.swept = a.slots := by
    refine Array.ext_getElem? fun i => ?_
    rw [Array.getElem?_map]
    cases hs : a.slots[i]? with
    | none => rfl
    | some s =>
      have hkept : ¬ (s.value.isSome = true ∧ s.marked = false) := by
        intro hfree
        have hmem := mem_index_garbage.2 ⟨s, hs, hfree⟩
        rw [hg] at hmem
        exact List.not_mem_nil hmem
      have hswept : Slot.swept s = s := by
        unfold Slot.swept
        rw [if_pos]
        cases hm : s.marked <;> cases hv : s.value <;> simp_all
      rw [Option.map_some, hswept]
  rw [sweep, hslots, hg]
  rfl

lemma WellFormed.sweep (ha : a.WellFormed) : a.sweep.WellFormed := by
  refine ⟨?_, fun i => ?_⟩
  · -- what is freed was not empty, so it was not in the free list
    refine List.nodup_append'.2 ⟨List.nodup_reverse.2 a.nodup_index_garbage, ha.nodup, ?_⟩
    intro i hi hfree
    obtain ⟨s, hs, hval, -⟩ := mem_index_garbage.1 (List.mem_reverse.1 hi)
    obtain ⟨u, hu, hnone⟩ := (ha.mem_free i).1 hfree
    rw [hs] at hu
    cases hu
    simp [hnone] at hval
  · simp only [Arena.sweep, List.mem_append, List.mem_reverse, ha.mem_free]
    rw [mem_index_garbage]
    simp only [Vacant, Array.getElem?_map]
    rcases a.slots[i]? with _ | ⟨g, m, o⟩
    · simp
    · cases m <;> cases o <;> simp [Slot.swept]

/-- **A new object**: its handle gives it, and all others give what they gave. -/
lemma WellFormed.get?_alloc (ha : a.WellFormed) (v : α) (j : Handle) :
    (a.alloc v).1.get? j = if j = (a.alloc v).2 then some v else a.get? j := by
  obtain ⟨k, g⟩ := j
  unfold alloc
  split
  · next i rest hfree =>
    obtain ⟨s, hs, hnone⟩ := (ha.mem_free i).1 (hfree ▸ List.mem_cons_self)
    obtain ⟨hlt, -⟩ := Array.getElem?_eq_some_iff.1 hs
    simp only [get?_eq, hs, Array.getElem?_setIfInBounds]
    by_cases hi : i = k
    · subst hi
      rw [if_pos rfl, if_pos hlt, hs]
      by_cases hg : s.generation = g
      · simp [hg]
      · simp [hg, Ne.symm hg]
    · simp [hi, Ne.symm hi]
  · simp only [get?_eq, Array.getElem?_push]
    by_cases hi : k = a.slots.size
    · by_cases hg : 0 = g
      · simp [hi, ← hg]
      · simp [hi, hg, Ne.symm hg]
    · simp [hi]

/-- The handle of a new object was not good before. -/
lemma WellFormed.get?_alloc_fresh (ha : a.WellFormed) (v : α) : a.get? (a.alloc v).2 = none := by
  unfold Arena.alloc
  split
  · next i rest hfree =>
    obtain ⟨s, hs, hnone⟩ := (ha.mem_free i).1 (hfree ▸ List.mem_cons_self)
    simp [get?_eq, hs, hnone]
  · simp [get?_eq]

lemma WellFormed.alloc (ha : a.WellFormed) (v : α) : (a.alloc v).1.WellFormed := by
  unfold Arena.alloc
  split
  · next i rest hfree =>
    obtain ⟨s, hs, hnone⟩ := (ha.mem_free i).1 (hfree ▸ List.mem_cons_self)
    obtain ⟨hlt, -⟩ := Array.getElem?_eq_some_iff.1 hs
    obtain ⟨hi, hrest⟩ := List.nodup_cons.1 (hfree ▸ ha.nodup)
    refine ⟨hrest, fun k => ?_⟩
    have hk := ha.mem_free k
    rw [hfree, List.mem_cons] at hk
    simp only [Vacant, Array.getElem?_setIfInBounds] at hk ⊢
    by_cases hik : i = k
    · subst hik
      simp [hi, hlt]
    · rw [if_neg hik, ← hk]
      simp [Ne.symm hik]
  · next hfree =>
    refine ⟨List.nodup_nil, fun k => ?_⟩
    have hk := ha.mem_free k
    rw [hfree] at hk
    simp only [Vacant, Array.getElem?_push] at hk ⊢
    by_cases hik : k = a.slots.size
    · simp [hik]
    · rw [if_neg hik, ← hk]

end Arena

end LuaCore
