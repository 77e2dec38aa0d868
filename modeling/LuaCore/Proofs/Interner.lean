import LuaCore.Interner
import LuaCore.Proofs.Arena

/-!
The interner under its operations: what its handles give, and what is found by content.
-/

namespace LuaCore

namespace Interner

variable {t u : Interner} {h j : Handle} {b : Bytes}

lemma contains_eq (t : Interner) (h : Handle) : t.contains h = (t.get? h).isSome := by
  rw [get?, Option.isSome_map]
  exact t.arena.contains_eq h

lemma contains_iff : t.contains h = true ↔ ∃ b, t.get? h = some b := by
  rw [contains_eq, Option.isSome_iff_exists]

/-- What is found by content has that content. -/
lemma get?_of_find? (hf : t.find? b = some h) : t.get? h = some b := by
  simpa using List.find?_some hf

/-! ### Marks -/

@[simp] lemma get?_clearMarks : t.clearMarks.get? h = t.get? h :=
  congrArg (Option.map Packed.bytes) Arena.get?_clearMarks

@[simp] lemma contains_clearMarks : t.clearMarks.contains h = t.contains h :=
  Arena.contains_clearMarks

@[simp] lemma isMarked_clearMarks : t.clearMarks.isMarked h = false := Arena.isMarked_clearMarks

@[simp] lemma clearMarks_clearMarks : t.clearMarks.clearMarks = t.clearMarks := by
  simp [clearMarks]

@[simp] lemma find?_clearMarks : t.clearMarks.find? b = t.find? b := by
  simp only [find?, get?_clearMarks]
  rfl

lemma arena_clearMarks (htu : u.clearMarks = t.clearMarks) :
    u.arena.clearMarks = t.arena.clearMarks :=
  congrArg arena htu

lemma get?_eq_of_clearMarks (htu : u.clearMarks = t.clearMarks) (h : Handle) :
    u.get? h = t.get? h :=
  congrArg (Option.map Packed.bytes) (Arena.get?_eq_of_clearMarks (arena_clearMarks htu) h)

lemma contains_eq_of_clearMarks (htu : u.clearMarks = t.clearMarks) (h : Handle) :
    u.contains h = t.contains h :=
  Arena.contains_eq_of_clearMarks (arena_clearMarks htu) h

lemma mark?_eq_none_iff : t.mark? h = none ↔ t.contains h = false ∨ t.isMarked h = true := by
  simp [mark?, Arena.mark?_eq_none_iff, contains, isMarked]

/-- Marking a string: it was there without a mark, has one now, and nothing else is different. -/
lemma mark?_eq_some (hm : t.mark? h = some u) :
    t.contains h = true ∧ t.isMarked h = false ∧ u.clearMarks = t.clearMarks ∧
      ∀ j, u.isMarked j = (decide (j = h) || t.isMarked j) := by
  obtain ⟨a, ha, rfl⟩ := Option.map_eq_some_iff.1 hm
  obtain ⟨hc, hfresh, hsame, hmarks⟩ := Arena.mark?_eq_some ha
  exact ⟨hc, hfresh, by simp [clearMarks, hsame], hmarks⟩

@[simp] lemma contains_sweep : t.sweep.contains h = t.isMarked h := Arena.contains_sweep

lemma sweep_eq_self (hg : t.arena.garbage = []) : t.sweep = t := by
  rw [sweep, Arena.sweep_eq_self hg, hg]
  rfl

/-! ### Interning -/

lemma get?_intern (ht : t.arena.WellFormed) (b : Bytes) (j : Handle) :
    (t.intern b).1.get? j = if j = (t.intern b).2 then some b else t.get? j := by
  unfold intern
  split
  · next h hf =>
    split
    · next hj => rw [hj]; exact get?_of_find? hf
    · rfl
  · simp only [get?, ht.get?_alloc]
    split <;> simp

lemma wellFormed_intern (ht : t.arena.WellFormed) (b : Bytes) :
    (t.intern b).1.arena.WellFormed := by
  unfold intern
  split
  · exact ht
  · exact ht.alloc _

lemma contains_intern (ht : t.arena.WellFormed) (b : Bytes)
    (hj : t.contains j = true ∨ j = (t.intern b).2) : (t.intern b).1.contains j = true := by
  rw [contains_eq] at hj ⊢
  rw [get?_intern ht]
  split
  · rfl
  · next hne => exact hj.resolve_right hne

end Interner

end LuaCore
