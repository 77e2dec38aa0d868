import LuaCore.Proofs.Arena

/-!
Handles over the life of an arena.

An arena is used through operations, and each leaves an event in its history.  The history alone says
what a handle stands for: the object that it was returned for, as changed through that handle, from the
event that put it into the arena up to the sweep that finds it without a mark.  Main statement: as long
as no slot is freed so often that its generations start again, no handle is returned twice, and what
the arena has under a handle is what the history says.
-/

namespace LuaCore

namespace Arena

variable {α : Type} {a b : Arena α} {h j : Handle} {v : α}

/-! ### Operations and their history -/

/-- What may be asked of an arena. -/
inductive Op (α : Type) where
  | alloc (v : α)
  | modify (h : Handle) (f : α → α)
  | mark (h : Handle)
  | clearMarks
  | sweep

/-- What has happened to an arena, with the handle of a new object and the report of a sweep. -/
inductive Event (α : Type) where
  | allocated (h : Handle) (v : α)
  | modified (h : Handle) (f : α → α)
  | marked (h : Handle)
  | cleared
  | swept (report : List (Handle × α))

/-- One operation, and its event. -/
def step (a : Arena α) : Op α → Arena α × Event α
  | .alloc v => ((a.alloc v).1, .allocated (a.alloc v).2 v)
  | .modify h f => (a.modify h f, .modified h f)
  | .mark h => ((a.mark h).1, .marked h)
  | .clearMarks => (a.clearMarks, .cleared)
  | .sweep => (a.sweep, .swept a.garbage)

/-- The events so far, the last one in front. -/
abbrev History (α : Type) := List (Event α)

namespace History

/-- The handles returned so far. -/
def issued : History α → List Handle
  | [] => []
  | .allocated h _ :: es => h :: issued es
  | _ :: es => issued es

/-- Whether a handle has been marked since it was returned and since all marks were cleared. -/
def isMarked (h : Handle) : History α → Bool
  | [] => false
  | .allocated j _ :: es => j != h && isMarked h es
  | .marked j :: es => j == h || isMarked h es
  | .cleared :: _ => false
  | _ :: es => isMarked h es

/-- What the object of a handle holds: what was put there when the handle was returned, as changed
through this handle, until a sweep finds it without a mark. -/
def content (h : Handle) : History α → Option α
  | [] => none
  | .allocated j v :: es => if j = h then some v else content h es
  | .modified j f :: es => if j = h then (content h es).map f else content h es
  | .swept _ :: es => if isMarked h es then content h es else none
  | _ :: es => content h es

/-- The objects reported as freed so far, with their handles. -/
def freed : History α → List (Handle × α)
  | [] => []
  | .swept report :: es => report ++ freed es
  | _ :: es => freed es

/-- How often a slot has been freed. -/
def frees (es : History α) (i : Nat) : Nat := (es.freed.map fun e => e.1.index).count i

lemma mem_issued_of_content {es : History α} (hv : es.content h = some v) : h ∈ es.issued := by
  induction es generalizing v with
  | nil => simp [content] at hv
  | cons e es ih =>
    cases e with
    | allocated j w =>
      simp only [content] at hv
      split at hv
      · next hj => simp [issued, hj]
      · exact List.mem_cons_of_mem _ (ih hv)
    | modified j f =>
      simp only [content] at hv
      split at hv
      · obtain ⟨w, hw, -⟩ := Option.map_eq_some_iff.1 hv
        exact ih hw
      · exact ih hv
    | marked j => exact ih hv
    | cleared => exact ih hv
    | swept report =>
      simp only [content] at hv
      split at hv
      · exact ih hv
      · simp at hv

end History

/-- An arena with its history. -/
structure Life (α : Type) where
  arena : Arena α
  history : History α

namespace Life

/-- An empty arena, to which nothing has happened. -/
def start : Life α := ⟨.empty, []⟩

def step (l : Life α) (op : Op α) : Life α :=
  ⟨(l.arena.step op).1, (l.arena.step op).2 :: l.history⟩

/-- Operations one after the other. -/
def run (l : Life α) (ops : List (Op α)) : Life α := ops.foldl step l

end Life

/-! ### Generations -/

/-- The generation of a slot. -/
def generation? (a : Arena α) (i : Nat) : Option UInt32 := a.slots[i]?.map Slot.generation

lemma generation?_of_contains (hc : a.contains h = true) :
    a.generation? h.index = some h.generation := by
  obtain ⟨s, hs⟩ := exists_slot hc
  obtain ⟨hget, hgen, -⟩ := slot?_eq_some_iff.1 hs
  rw [generation?, hget, ← hgen]
  rfl

lemma lt_size_of_contains (hc : a.contains h = true) : h.index < a.slots.size := by
  obtain ⟨s, hs⟩ := exists_slot hc
  exact (Array.getElem?_eq_some_iff.1 (slot?_eq_some_iff.1 hs).1).1

/-- **Where a new object goes**: into an empty slot, under the generation that the slot has, or into a
new slot. -/
lemma WellFormed.alloc_cases (ha : a.WellFormed) (v : α) :
    (∀ i, (a.alloc v).1.generation? i =
      if i = (a.alloc v).2.index then some (a.alloc v).2.generation else a.generation? i) ∧
    ((a.generation? (a.alloc v).2.index = some (a.alloc v).2.generation ∧
        (a.alloc v).1.slots.size = a.slots.size) ∨
      ((a.alloc v).2 = ⟨a.slots.size, 0⟩ ∧ (a.alloc v).1.slots.size = a.slots.size + 1)) := by
  unfold Arena.alloc
  split
  · next i rest hfree =>
    obtain ⟨s, hs, -⟩ := (ha.mem_free i).1 (hfree ▸ List.mem_cons_self)
    obtain ⟨hlt, -⟩ := Array.getElem?_eq_some_iff.1 hs
    refine ⟨fun k => ?_, Or.inl ⟨?_, by simp⟩⟩
    · simp only [generation?, Array.getElem?_setIfInBounds, hs]
      by_cases hk : i = k
      · subst hk
        simp [hlt]
      · simp [hk, Ne.symm hk]
    · simp [generation?, hs]
  · refine ⟨fun k => ?_, Or.inr ⟨rfl, by simp⟩⟩
    simp only [generation?, Array.getElem?_push]
    split <;> simp

/-- A new object has no mark, and the others keep theirs. -/
lemma WellFormed.isMarked_alloc (ha : a.WellFormed) (v : α) (j : Handle) :
    (a.alloc v).1.isMarked j = (j != (a.alloc v).2 && a.isMarked j) := by
  obtain ⟨k, g⟩ := j
  unfold Arena.alloc
  split
  · next i rest hfree =>
    obtain ⟨s, hs, hnone⟩ := (ha.mem_free i).1 (hfree ▸ List.mem_cons_self)
    obtain ⟨hlt, -⟩ := Array.getElem?_eq_some_iff.1 hs
    simp only [isMarked_eq, hs, Array.getElem?_setIfInBounds]
    by_cases hi : i = k
    · subst hi
      rw [if_pos rfl, if_pos hlt, hs]
      simp [hnone]
    · simp [hi, Ne.symm hi, bne]
  · simp only [isMarked_eq, Array.getElem?_push]
    by_cases hi : k = a.slots.size
    · simp [hi]
    · simp [hi, bne]

lemma generation?_clearMarks (i : Nat) : a.clearMarks.generation? i = a.generation? i := by
  simp only [generation?, clearMarks, Array.getElem?_map]
  rcases a.slots[i]? with _ | s <;> rfl

lemma generation?_modify (f : α → α) (i : Nat) :
    (a.modify h f).generation? i = a.generation? i := by
  unfold modify
  split
  · simp only [generation?, Array.getElem?_modify]
    split
    · rcases a.slots[i]? with _ | s <;> rfl
    · rfl
  · rfl

lemma size_modify (f : α → α) : (a.modify h f).slots.size = a.slots.size := by
  unfold modify
  split <;> simp

/-- A sweep moves the slots that it empties to the next generation. -/
lemma generation?_sweep (i : Nat) :
    a.sweep.generation? i = (a.generation? i).map fun g =>
      if i ∈ a.garbage.map (fun e => e.1.index) then g + 1 else g := by
  simp only [mem_index_garbage, generation?, sweep, Array.getElem?_map]
  rcases a.slots[i]? with _ | ⟨g, m, o⟩
  · rfl
  · cases m <;> cases o <;> simp [Slot.swept]

/-! ### Marks -/

/-- What is left after a sweep keeps its mark. -/
lemma isMarked_sweep : a.sweep.isMarked h = a.isMarked h := by
  simp only [isMarked_eq, sweep, Array.getElem?_map]
  rcases a.slots[h.index]? with _ | ⟨g, m, o⟩
  · rfl
  · cases m <;> cases o <;> simp [Slot.swept]

lemma clearMarks_mark : (a.mark h).1.clearMarks = a.clearMarks := by
  unfold mark
  split
  · next b hb => exact (mark?_eq_some hb).2.2.1
  · rfl

lemma generation?_mark (i : Nat) : (a.mark h).1.generation? i = a.generation? i := by
  rw [← generation?_clearMarks, clearMarks_mark, generation?_clearMarks]

lemma size_mark : (a.mark h).1.slots.size = a.slots.size := by
  have hsize : ∀ c : Arena α, c.clearMarks.slots.size = c.slots.size := by
    intro c
    simp [clearMarks]
  rw [← hsize, clearMarks_mark, hsize]

lemma isMarked_mark : (a.mark h).1.isMarked j = (decide (j = h) && a.contains h || a.isMarked j) := by
  unfold mark
  split
  · next b hb =>
    obtain ⟨hc, -, -, hmarks⟩ := mark?_eq_some hb
    rw [hmarks, hc, Bool.and_true]
  · next hnone =>
    by_cases hj : j = h
    · subst hj
      rcases mark?_eq_none_iff.1 hnone with hc | hm
      · simp [hc]
      · simp [hm]
    · simp [hj]

/-! ### Counting -/

lemma mem_handles_iff : h ∈ a.handles ↔ a.contains h = true := by
  simp only [handles, List.mem_map, Prod.exists, exists_and_right, exists_eq_right, mem_entries_iff,
    contains_iff]

lemma nodup_handles (a : Arena α) : a.handles.Nodup := by
  refine List.Nodup.of_map Handle.index ?_
  rw [handles, List.map_map]
  exact a.nodup_index_entries

/-- Where the same handles are good, as many are listed. -/
lemma length_handles_congr (hab : ∀ h, b.contains h = a.contains h) :
    b.handles.length = a.handles.length := by
  refine List.Perm.length_eq ((List.perm_ext_iff_of_nodup b.nodup_handles a.nodup_handles).2 ?_)
  intro h
  rw [mem_handles_iff, mem_handles_iff, hab]

lemma WellFormed.length_handles_alloc (ha : a.WellFormed) (v : α) :
    (a.alloc v).1.handles.length = a.handles.length + 1 := by
  have hfresh : (a.alloc v).2 ∉ a.handles := by
    rw [mem_handles_iff, contains_eq, ha.get?_alloc_fresh]
    simp
  have hperm : (a.alloc v).1.handles.Perm ((a.alloc v).2 :: a.handles) := by
    refine (List.perm_ext_iff_of_nodup (nodup_handles _)
      (List.nodup_cons.2 ⟨hfresh, a.nodup_handles⟩)).2 fun j => ?_
    rw [List.mem_cons, mem_handles_iff, mem_handles_iff, contains_eq, contains_eq, ha.get?_alloc]
    split
    · next hj => simp [hj]
    · next hj => simp [hj]
  rw [hperm.length_eq, List.length_cons]

lemma length_handles_sweep (a : Arena α) :
    a.sweep.handles.length + a.garbage.length = a.handles.length := by
  have hgarbage : a.garbage.length = (a.handles.filter fun h => !a.isMarked h).length := by
    rw [handles, List.filter_map, List.length_map]
    rfl
  have hperm : a.sweep.handles.Perm (a.handles.filter fun h => a.isMarked h) := by
    refine (List.perm_ext_iff_of_nodup (nodup_handles _) (a.nodup_handles.filter _)).2 fun j => ?_
    rw [mem_handles_iff, contains_sweep, List.mem_filter, mem_handles_iff]
    exact ⟨fun hm => ⟨contains_of_isMarked hm, hm⟩, And.right⟩
  rw [hgarbage, hperm.length_eq, ← List.length_eq_length_filter_add]

/-! ### The invariant -/

namespace Life

variable {l : Life α}

/-- **What holds all through the life of an arena.**  The generation of a slot counts how often it has
been freed, so a handle of it that is no longer good is of an earlier generation. -/
structure Invariant (l : Life α) : Prop where
  wellFormed : l.arena.WellFormed
  get?_eq : ∀ h, l.arena.get? h = l.history.content h
  isMarked_eq : ∀ h, l.arena.contains h = true → l.arena.isMarked h = l.history.isMarked h
  live_eq : l.arena.live = l.arena.handles.length
  generation : ∀ i g, l.arena.generation? i = some g → g.toNat = l.history.frees i
  nodup_issued : l.history.issued.Nodup
  index_lt : ∀ h ∈ l.history.issued, h.index < l.arena.slots.size
  earlier : ∀ h ∈ l.history.issued, l.arena.contains h = false →
    h.generation.toNat < l.history.frees h.index
  mem_freed : ∀ h, h ∈ l.history.freed.map Prod.fst ↔
    h ∈ l.history.issued ∧ l.arena.contains h = false

lemma invariant_start : (start : Life α).Invariant where
  wellFormed := wellFormed_empty
  get?_eq _ := rfl
  isMarked_eq _ hc := by simp [start, contains_eq, get?_empty] at hc
  live_eq := rfl
  generation i g hg := by simp [start, generation?, Arena.empty] at hg
  nodup_issued := List.nodup_nil
  index_lt _ hh := by simp [start, History.issued] at hh
  earlier _ hh := by simp [start, History.issued] at hh
  mem_freed _ := by simp [start, History.issued, History.freed]

namespace Invariant

lemma mem_issued (hl : l.Invariant) (hc : l.arena.contains h = true) : h ∈ l.history.issued := by
  obtain ⟨v, hv⟩ := Arena.contains_iff.1 hc
  rw [hl.get?_eq] at hv
  exact History.mem_issued_of_content hv

/-- A slot that is not there yet has never been freed. -/
lemma frees_eq_zero (hl : l.Invariant) {i : Nat} (hi : l.arena.slots.size ≤ i) :
    l.history.frees i = 0 := by
  refine List.count_eq_zero.2 fun hmem => ?_
  obtain ⟨e, he, rfl⟩ := List.mem_map.1 hmem
  have hissued := ((hl.mem_freed e.1).1 (List.mem_map_of_mem he)).1
  have := hl.index_lt e.1 hissued
  omega

/-- **The handle of a new object has never been returned before**: an old handle of the slot that is
used again is of an earlier generation. -/
lemma alloc_not_mem_issued (hl : l.Invariant) (v : α) :
    (l.arena.alloc v).2 ∉ l.history.issued := by
  intro hmem
  have hfresh : l.arena.contains (l.arena.alloc v).2 = false := by
    rw [contains_eq, hl.wellFormed.get?_alloc_fresh]
    rfl
  have hearlier := hl.earlier _ hmem hfresh
  rcases (hl.wellFormed.alloc_cases v).2 with ⟨hgen, -⟩ | ⟨hnew, -⟩
  · have := hl.generation _ _ hgen
    omega
  · have hlt := hl.index_lt _ hmem
    rw [hnew] at hlt
    exact Nat.lt_irrefl _ hlt

/-- A new object. -/
lemma alloc (hl : l.Invariant) (v : α) :
    (⟨(l.arena.alloc v).1, .allocated (l.arena.alloc v).2 v :: l.history⟩ : Life α).Invariant := by
  have hwf := hl.wellFormed
  have hnew := hl.alloc_not_mem_issued v
  obtain ⟨hgens, hcases⟩ := hwf.alloc_cases v
  have hcontains : ∀ j, (l.arena.alloc v).1.contains j =
      (decide (j = (l.arena.alloc v).2) || l.arena.contains j) := by
    intro j
    rw [contains_eq, contains_eq, hwf.get?_alloc]
    split
    · next hj => simp [hj]
    · next hj => simp [hj]
  refine ⟨hwf.alloc v, fun j => ?_, fun j hc => ?_, ?_, fun i g hg => ?_, ?_, fun j hj => ?_,
    fun j hj hc => ?_, fun j => ?_⟩
  · simp only [hwf.get?_alloc, hl.get?_eq, History.content, eq_comm]
  · simp only [hcontains, Bool.or_eq_true, decide_eq_true_eq] at hc
    simp only [hwf.isMarked_alloc, History.isMarked]
    rcases hc with rfl | hc
    · simp
    · rw [hl.isMarked_eq j hc, bne_comm]
  · have hlive : (l.arena.alloc v).1.live = l.arena.live + 1 := by
      unfold Arena.alloc
      split <;> rfl
    simp only [hlive, hwf.length_handles_alloc, hl.live_eq]
  · simp only [hgens] at hg
    show g.toNat = l.history.frees i
    split at hg
    · next hi =>
      cases hg
      rcases hcases with ⟨hgen, -⟩ | ⟨hlast, -⟩
      · rw [hi]
        exact hl.generation _ _ hgen
      · rw [hi, hlast]
        exact (hl.frees_eq_zero (Nat.le_refl _)).symm
    · exact hl.generation i g hg
  · exact List.nodup_cons.2 ⟨hnew, hl.nodup_issued⟩
  · rcases List.mem_cons.1 hj with rfl | hj
    · exact lt_size_of_contains (by simp [hcontains])
    · have hlt := hl.index_lt j hj
      show j.index < (l.arena.alloc v).1.slots.size
      rcases hcases with ⟨-, hsize⟩ | ⟨-, hsize⟩ <;> omega
  · simp only [hcontains, Bool.or_eq_false_iff, decide_eq_false_iff_not] at hc
    rcases List.mem_cons.1 hj with hj | hj
    · exact absurd hj hc.1
    · exact hl.earlier j hj hc.2
  · simp only [History.freed, History.issued, hl.mem_freed, hcontains, Bool.or_eq_false_iff,
      decide_eq_false_iff_not, List.mem_cons]
    constructor
    · rintro ⟨hj, hc⟩
      exact ⟨Or.inr hj, fun he => hnew (he ▸ hj), hc⟩
    · rintro ⟨hj, hne, hc⟩
      exact ⟨hj.resolve_left hne, hc⟩

/-- An operation that neither puts an object into the arena nor takes one out. -/
lemma of_same_handles (hl : l.Invariant) {e : Event α} (hb : b.WellFormed)
    (hissued : History.issued (e :: l.history) = l.history.issued)
    (hfreed : History.freed (e :: l.history) = l.history.freed)
    (hcontains : ∀ h, b.contains h = l.arena.contains h)
    (hgens : ∀ i, b.generation? i = l.arena.generation? i)
    (hsize : b.slots.size = l.arena.slots.size) (hlive : b.live = l.arena.live)
    (hget : ∀ h, b.get? h = History.content h (e :: l.history))
    (hmarked : ∀ h, l.arena.contains h = true → b.isMarked h = History.isMarked h (e :: l.history)) :
    (⟨b, e :: l.history⟩ : Life α).Invariant where
  wellFormed := hb
  get?_eq := hget
  isMarked_eq h hc := hmarked h (hcontains h ▸ hc)
  live_eq := by rw [hlive, hl.live_eq, length_handles_congr hcontains]
  generation i g hg := by
    rw [History.frees, hfreed]
    exact hl.generation i g (hgens i ▸ hg)
  nodup_issued := hissued ▸ hl.nodup_issued
  index_lt h hh := by
    rw [hsize]
    exact hl.index_lt h (hissued ▸ hh)
  earlier h hh hc := by
    rw [History.frees, hfreed]
    exact hl.earlier h (hissued ▸ hh) (hcontains h ▸ hc)
  mem_freed h := by rw [hfreed, hissued, hcontains, hl.mem_freed]

lemma modify (hl : l.Invariant) (h : Handle) (f : α → α) :
    (⟨l.arena.modify h f, .modified h f :: l.history⟩ : Life α).Invariant := by
  have hlive : (l.arena.modify h f).live = l.arena.live := by
    unfold Arena.modify
    split <;> rfl
  refine hl.of_same_handles (hl.wellFormed.modify h f) rfl rfl (fun _ => contains_modify f)
    (generation?_modify f) (size_modify f) hlive (fun j => ?_) fun j hc => ?_
  · rw [get?_modify, hl.get?_eq]
    simp only [History.content, eq_comm]
  · rw [isMarked_modify, hl.isMarked_eq j hc]
    rfl

lemma mark (hl : l.Invariant) (h : Handle) :
    (⟨(l.arena.mark h).1, .marked h :: l.history⟩ : Life α).Invariant := by
  have hsame := clearMarks_mark (a := l.arena) (h := h)
  have hlive : (l.arena.mark h).1.clearMarks.live = l.arena.clearMarks.live := by rw [hsame]
  refine hl.of_same_handles (hl.wellFormed.of_clearMarks hsame) rfl rfl
    (contains_eq_of_clearMarks hsame) generation?_mark size_mark hlive (fun j => ?_) fun j hc => ?_
  · rw [get?_eq_of_clearMarks hsame, hl.get?_eq]
    rfl
  · rw [isMarked_mark, hl.isMarked_eq j hc, History.isMarked]
    by_cases hj : j = h
    · subst hj
      simp [hc]
    · simp [hj, Ne.symm hj]

lemma clearMarks (hl : l.Invariant) :
    (⟨l.arena.clearMarks, .cleared :: l.history⟩ : Life α).Invariant := by
  refine hl.of_same_handles (hl.wellFormed.of_clearMarks clearMarks_clearMarks) rfl rfl
    (fun _ => contains_clearMarks) generation?_clearMarks (by simp [Arena.clearMarks]) rfl
    (fun j => ?_) fun j _ => ?_
  · rw [get?_clearMarks, hl.get?_eq]
    rfl
  · rw [isMarked_clearMarks]
    rfl

/-- A sweep, as long as no slot has been freed so often that its generations start again. -/
lemma sweep (hl : l.Invariant)
    (hlimit : ∀ i, History.frees (.swept l.arena.garbage :: l.history) i < UInt32.size) :
    (⟨l.arena.sweep, .swept l.arena.garbage :: l.history⟩ : Life α).Invariant := by
  have hfrees : ∀ i, History.frees (.swept l.arena.garbage :: l.history) i =
      (if i ∈ l.arena.garbage.map (fun e => e.1.index) then 1 else 0) + l.history.frees i := by
    intro i
    simp only [History.frees, History.freed, List.map_append, List.count_append,
      l.arena.nodup_index_garbage.count]
  have hgarbage : ∀ j, j ∈ l.arena.garbage.map Prod.fst →
      j.index ∈ l.arena.garbage.map fun e => e.1.index := by
    intro j hj
    obtain ⟨e, he, rfl⟩ := List.mem_map.1 hj
    exact List.mem_map_of_mem he
  refine ⟨hl.wellFormed.sweep, fun j => ?_, fun j hc => ?_, ?_, fun i g hg => ?_, hl.nodup_issued,
    fun j hj => ?_, fun j hj hc => ?_, fun j => ?_⟩
  · rw [get?_sweep, History.content, ← hl.get?_eq]
    by_cases hc : l.arena.contains j = true
    · rw [hl.isMarked_eq j hc]
    · rw [contains_eq, Bool.not_eq_true, Option.isSome_eq_false_iff, Option.isNone_iff_eq_none] at hc
      simp [hc]
  · have hm : l.arena.isMarked j = true := by simpa using hc
    rw [isMarked_sweep, hl.isMarked_eq j (contains_of_isMarked hm)]
    rfl
  · have hlength := length_handles_sweep l.arena
    show l.arena.live - (l.arena.garbage.map fun e => e.1.index).length = l.arena.sweep.handles.length
    rw [List.length_map, hl.live_eq]
    omega
  · simp only [generation?_sweep, Option.map_eq_some_iff] at hg
    obtain ⟨g₀, hg₀, rfl⟩ := hg
    have hgen := hl.generation i g₀ hg₀
    have hlt := hlimit i
    rw [hfrees] at hlt
    show _ = History.frees (.swept l.arena.garbage :: l.history) i
    rw [hfrees]
    split
    · -- the generation does not start again
      next hi =>
      rw [if_pos hi] at hlt
      rw [UInt32.toNat_add, hgen, UInt32.toNat_one, Nat.mod_eq_of_lt (by simpa [Nat.add_comm] using hlt),
        Nat.add_comm]
    · rw [hgen, Nat.zero_add]
  · show j.index < (l.arena.slots.map Slot.swept).size
    rw [Array.size_map]
    exact hl.index_lt j hj
  · have hm : l.arena.isMarked j = false := by simpa using hc
    show j.generation.toNat < History.frees (.swept l.arena.garbage :: l.history) j.index
    rw [hfrees]
    by_cases hold : l.arena.contains j = true
    · -- it is freed now, from the generation that the slot has
      have hgen := hl.generation _ _ (generation?_of_contains hold)
      rw [if_pos (hgarbage j (mem_handles_garbage_iff.2 ⟨hold, hm⟩))]
      omega
    · have := hl.earlier j hj (by simpa using hold)
      omega
  · simp only [History.freed, History.issued, List.map_append, List.mem_append, contains_sweep,
      mem_handles_garbage_iff, hl.mem_freed]
    by_cases hold : l.arena.contains j = true
    · simp [hold, hl.mem_issued hold]
    · have hm : l.arena.isMarked j = false := by
        by_contra hne
        exact hold (contains_of_isMarked (by simpa using hne))
      simp [hold, hm]

end Invariant

lemma frees_le_step (l : Life α) (op : Op α) (i : Nat) :
    l.history.frees i ≤ (l.step op).history.frees i := by
  cases op with
  | sweep =>
    simp only [step, Arena.step, History.frees, History.freed, List.map_append, List.count_append]
    omega
  | _ => exact Nat.le_refl _

lemma frees_le_run (l : Life α) (ops : List (Op α)) (i : Nat) :
    l.history.frees i ≤ (l.run ops).history.frees i := by
  induction ops generalizing l with
  | nil => exact Nat.le_refl _
  | cons op ops ih => exact Nat.le_trans (l.frees_le_step op i) (ih (l.step op))

/-- One operation keeps the invariant. -/
theorem Invariant.step (hl : l.Invariant) (op : Op α)
    (hlimit : ∀ i, (l.step op).history.frees i < UInt32.size) : (l.step op).Invariant := by
  cases op with
  | alloc v => exact hl.alloc v
  | modify h f => exact hl.modify h f
  | mark h => exact hl.mark h
  | clearMarks => exact hl.clearMarks
  | sweep => exact hl.sweep hlimit

/-- Whole runs keep the invariant: a slot is freed less often on the way than in the end. -/
theorem Invariant.run (hl : l.Invariant) (ops : List (Op α))
    (hlimit : ∀ i, (l.run ops).history.frees i < UInt32.size) : (l.run ops).Invariant := by
  induction ops generalizing l with
  | nil => exact hl
  | cons op ops ih =>
    have hstep : ∀ i, (l.step op).history.frees i < UInt32.size := by
      intro i
      exact Nat.lt_of_le_of_lt ((l.step op).frees_le_run ops i) (hlimit i)
    exact ih (hl.step op hstep) hlimit

/-- Fewer slots than there are 32-bit indices, and no slot freed as often as there are generations. -/
structure WithinLimits (l : Life α) : Prop where
  slots : l.arena.slots.size < UInt32.size
  frees : ∀ i, l.history.frees i < UInt32.size

/-- **What handles stand for.** -/
structure Faithful (l : Life α) : Prop where
  /-- No handle has been returned twice. -/
  nodup_issued : l.history.issued.Nodup
  /-- The index of a handle fits into 32 bits. -/
  index_lt : ∀ h ∈ l.history.issued, h.index < UInt32.size
  /-- A handle gives the object that it was returned for, as changed through it. -/
  get?_eq : ∀ h, l.arena.get? h = l.history.content h
  /-- A handle is good from its return until its object is freed. -/
  contains_iff : ∀ h, l.arena.contains h = true ↔
    h ∈ l.history.issued ∧ h ∉ l.history.freed.map Prod.fst
  /-- The free list holds the empty slots, each once. -/
  nodup_free : l.arena.free.Nodup
  mem_free_iff : ∀ i, i ∈ l.arena.free ↔ l.arena.Vacant i
  /-- The good handles are listed, each once, and counted. -/
  nodup_handles : l.arena.handles.Nodup
  mem_handles_iff : ∀ h, h ∈ l.arena.handles ↔ l.arena.contains h = true
  size_eq : l.arena.size = l.arena.handles.length
  /-- A sweep reports the objects that have not been marked since they came and since the last clearing
  of marks, each once and with its handle. -/
  nodup_garbage : (l.arena.garbage.map Prod.fst).Nodup
  mem_garbage_iff : ∀ h v, (h, v) ∈ l.arena.garbage ↔
    l.history.content h = some v ∧ l.history.isMarked h = false
  /-- What a sweep frees is what it reports. -/
  contains_sweep_iff : ∀ h, l.arena.sweep.contains h = true ↔
    l.arena.contains h = true ∧ h ∉ l.arena.garbage.map Prod.fst

/-- **Handles are never mistaken for one another**, whatever operations an arena has gone through. -/
theorem faithful_run (ops : List (Op α)) (hlimits : ((start : Life α).run ops).WithinLimits) :
    ((start : Life α).run ops).Faithful := by
  have hl := invariant_start.run ops hlimits.frees
  generalize (start : Life α).run ops = l at hl hlimits
  refine ⟨hl.nodup_issued, fun h hh => ?_, hl.get?_eq, fun h => ?_, hl.wellFormed.nodup,
    hl.wellFormed.mem_free, l.arena.nodup_handles, fun h => Arena.mem_handles_iff, hl.live_eq,
    l.arena.nodup_garbage, fun h v => ?_, fun h => ?_⟩
  · exact Nat.lt_trans (hl.index_lt h hh) hlimits.slots
  · rw [hl.mem_freed]
    constructor
    · intro hc
      exact ⟨hl.mem_issued hc, by simp [hc]⟩
    · rintro ⟨hissued, hnot⟩
      simpa [hissued] using hnot
  · rw [Arena.mem_garbage_iff, hl.get?_eq]
    refine and_congr_right fun hv => ?_
    rw [hl.isMarked_eq h (contains_of_get? ((hl.get?_eq h).trans hv))]
  · rw [contains_sweep, mem_handles_garbage_iff]
    constructor
    · intro hm
      exact ⟨contains_of_isMarked hm, by simp [hm]⟩
    · rintro ⟨hc, hnot⟩
      simpa [hc] using hnot

/-- A slot is freed and used again; its old handle is tried on the new object. -/
def reuse : List (Op Nat) :=
  [.alloc 1, .alloc 2, .mark ⟨0, 0⟩, .sweep, .alloc 3, .modify ⟨1, 0⟩ (· + 10), .mark ⟨1, 1⟩,
    .clearMarks, .mark ⟨0, 0⟩, .sweep, .alloc 4]

theorem faithful_run_reuse :
    ((start : Life Nat).run reuse).WithinLimits ∧ ((start : Life Nat).run reuse).Faithful := by
  have hlimits : ((start : Life Nat).run reuse).WithinLimits := by
    refine ⟨by decide +kernel, fun i => Nat.lt_of_le_of_lt List.count_le_length ?_⟩
    decide +kernel
  exact ⟨hlimits, faithful_run reuse hlimits⟩

end Life

end Arena

end LuaCore
