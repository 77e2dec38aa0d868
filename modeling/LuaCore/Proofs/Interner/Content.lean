import LuaCore.Proofs.Interner
import Std.Data.HashMap.Lemmas

/-!
Interning is content identity.

The strings of an interner lie in an arena, whose slots are used again, and their handles lie in
buckets by the hash of the content.  The invariant `WellFormed` says how the two fit together: the
buckets hold the handles of the strings there are, each once and where its content is looked for, and
no content is there twice.  Contents with the same hash share a bucket.  Main statement: after any
operations handles are equal exactly when their contents are.
-/

namespace LuaCore

namespace Interner

variable {t u : Interner} {h j : Handle} {b c : Bytes} {n : UInt32}

/-- **The invariant of interners.** -/
structure WellFormed (t : Interner) : Prop where
  arena : t.arena.WellFormed
  /-- The hash that is kept is the hash of the content. -/
  hash_eq : ∀ h s, t.arena.get? h = some s → s.hash = s.bytes.hash
  nodup_bucket : ∀ n, (t.bucket n).Nodup
  /-- A bucket holds the strings whose contents have its hash. -/
  mem_bucket_iff : ∀ n h, h ∈ t.bucket n ↔ ∃ b, t.get? h = some b ∧ b.hash = n
  /-- No two strings have the same content. -/
  eq_of_get? : ∀ h j b, t.get? h = some b → t.get? j = some b → h = j

lemma wellFormed_empty : empty.WellFormed where
  arena := Arena.wellFormed_empty
  hash_eq h s hs := by simp [empty, Arena.get?_empty] at hs
  nodup_bucket n := by simp [bucket, empty]
  mem_bucket_iff n h := by simp [bucket, get?, empty, Arena.get?_empty]
  eq_of_get? h j b hb := by simp [get?, empty, Arena.get?_empty] at hb

/-- **Looking for a content finds the string that has it.** -/
lemma WellFormed.find?_eq_some_iff (ht : t.WellFormed) :
    t.find? b = some h ↔ t.get? h = some b := by
  constructor
  · exact get?_of_find?
  · intro hb
    have hmem : h ∈ t.bucket b.hash := (ht.mem_bucket_iff _ h).2 ⟨b, hb, rfl⟩
    have hsome : (t.find? b).isSome = true := by
      rw [find?, List.find?_isSome]
      exact ⟨h, hmem, by simp [hb]⟩
    obtain ⟨j, hj⟩ := Option.isSome_iff_exists.1 hsome
    rw [hj, ht.eq_of_get? j h b (get?_of_find? hj) hb]

lemma WellFormed.find?_eq_none_iff (ht : t.WellFormed) :
    t.find? b = none ↔ ∀ h, t.get? h ≠ some b := by
  simp only [Option.eq_none_iff_forall_ne_some, ne_eq, ht.find?_eq_some_iff]

/-! ### Marks -/

/-- Marks have nothing to do with contents and buckets. -/
lemma WellFormed.of_clearMarks (ht : t.WellFormed) (htu : u.clearMarks = t.clearMarks) :
    u.WellFormed := by
  have harena := arena_clearMarks htu
  have hbuckets : u.clearMarks.buckets = t.clearMarks.buckets := by rw [htu]
  have hbucket : ∀ n, u.bucket n = t.bucket n := by
    intro n
    exact congrArg (fun m => m.getD n []) hbuckets
  refine ⟨ht.arena.of_clearMarks harena, fun h s hs => ?_, fun n => ?_, fun n h => ?_,
    fun h j b hh hj => ?_⟩
  · rw [Arena.get?_eq_of_clearMarks harena] at hs
    exact ht.hash_eq h s hs
  · rw [hbucket]
    exact ht.nodup_bucket n
  · rw [hbucket, ht.mem_bucket_iff, get?_eq_of_clearMarks htu]
  · rw [get?_eq_of_clearMarks htu] at hh hj
    exact ht.eq_of_get? h j b hh hj

/-! ### Interning -/

lemma bucket_insert (a : Arena Packed) (n : UInt32) (l : List Handle) (k : UInt32) :
    (⟨a, t.buckets.insert n l⟩ : Interner).bucket k = if n = k then l else t.bucket k := by
  simp [bucket, Std.HashMap.getD_insert]

/-- A content that is not there takes a slot of the arena. -/
lemma WellFormed.arena_intern (ht : t.WellFormed) (hb : ∀ h, t.get? h ≠ some b) :
    (t.intern b).1.arena = (t.arena.alloc (.ofBytes b b.hash)).1 := by
  rw [Interner.intern, ht.find?_eq_none_iff.2 hb]

/-- A content that is not there is stored under a handle that was not good before. -/
lemma WellFormed.intern (ht : t.WellFormed) (b : Bytes) : (t.intern b).1.WellFormed := by
  have harena := wellFormed_intern ht.arena b
  have hget := get?_intern ht.arena b
  unfold Interner.intern at harena hget ⊢
  split at harena
  · exact ht
  · next hnone =>
    simp only [hnone] at hget ⊢
    generalize hs : Packed.ofBytes b b.hash = s at *
    have hfresh : t.get? (t.arena.alloc s).2 = none := by
      rw [get?, ht.arena.get?_alloc_fresh]
      rfl
    have hnot : ∀ n, (t.arena.alloc s).2 ∉ t.bucket n := by
      intro n hmem
      obtain ⟨c, hc, -⟩ := (ht.mem_bucket_iff n _).1 hmem
      rw [hfresh] at hc
      simp at hc
    have hnew : ∀ h, t.get? h ≠ some b := ht.find?_eq_none_iff.1 hnone
    refine ⟨harena, fun h r hr => ?_, fun n => ?_, fun n h => ?_, fun h j c hh hj => ?_⟩
    · rw [ht.arena.get?_alloc] at hr
      split at hr
      · cases hr
        rw [← hs, Packed.hash_ofBytes, Packed.bytes_ofBytes]
      · exact ht.hash_eq h r hr
    · rw [bucket_insert]
      split
      · exact List.nodup_append'.2 ⟨ht.nodup_bucket _, List.nodup_singleton _, by simp [hnot]⟩
      · exact ht.nodup_bucket n
    · rw [bucket_insert, hget]
      by_cases hh : h = (t.arena.alloc s).2
      · subst hh
        by_cases hn : b.hash = n
        · simp [hn]
        · simp [hn, hnot]
      · simp only [hh, if_false]
        split
        · next hn => simp [hh, hn, ht.mem_bucket_iff]
        · exact ht.mem_bucket_iff n h
    · rw [hget] at hh hj
      split at hh
      · split at hj
        · simp_all
        · cases hh
          exact absurd hj (hnew j)
      · split at hj
        · cases hj
          exact absurd hh (hnew h)
        · exact ht.eq_of_get? h j c hh hj

/-! ### Sweeping -/

lemma get?_sweep : t.sweep.get? h = if t.isMarked h then t.get? h else none := by
  rw [get?, sweep, Arena.get?_sweep, apply_ite (Option.map Packed.bytes), Option.map_none]
  rfl

lemma getD_forget (m : Std.HashMap UInt32 (List Handle)) (n : UInt32) (h : Handle) (k : UInt32) :
    (forget m n h).getD k [] = if n = k then (m.getD k []).filter (· != h) else m.getD k [] := by
  unfold forget
  split
  · next hnil =>
    rw [Std.HashMap.getD_erase]
    by_cases hn : n = k
    · subst hn
      simp [hnil]
    · simp [hn]
  · rw [Std.HashMap.getD_insert]
    by_cases hn : n = k
    · subst hn
      simp
    · simp [hn]

/-- What is left in the buckets when strings are removed from them, by the hashes that they keep. -/
lemma getD_foldl_forget (l : List (Handle × Packed)) (m : Std.HashMap UInt32 (List Handle))
    (n : UInt32) :
    (l.foldl (fun m (h, s) => forget m s.hash h) m).getD n [] =
      (m.getD n []).filter fun h => l.all fun e => e.1 != h || e.2.hash != n := by
  induction l generalizing m with
  | nil => simp
  | cons e l ih =>
    rw [List.foldl_cons, ih, getD_forget]
    split
    · next hn =>
      rw [List.filter_filter]
      refine List.filter_congr fun h _ => ?_
      simp [hn, bne_comm, Bool.and_comm]
    · next hn =>
      refine List.filter_congr fun h _ => ?_
      simp [hn]

/-- A sweep leaves in the buckets what it leaves in the arena. -/
lemma WellFormed.mem_bucket_sweep (ht : t.WellFormed) :
    h ∈ t.sweep.bucket n ↔ h ∈ t.bucket n ∧ t.isMarked h = true := by
  rw [bucket, sweep, getD_foldl_forget, List.mem_filter]
  refine and_congr_right fun hmem => ?_
  obtain ⟨b, hb, hn⟩ := (ht.mem_bucket_iff n h).1 hmem
  obtain ⟨s, hs, rfl⟩ := Option.map_eq_some_iff.1 hb
  have hhash : s.hash = n := (ht.hash_eq h s hs).trans hn
  rw [List.all_eq_true]
  constructor
  · intro hall
    by_contra hm
    have hgarbage : (h, s) ∈ t.arena.garbage :=
      Arena.mem_garbage_iff.2 ⟨hs, (Bool.not_eq_true _).mp hm⟩
    simpa [hhash] using hall _ hgarbage
  · rintro hm ⟨j, r⟩ he
    have hj := (Arena.mem_garbage_iff.1 he).2
    have hne : j ≠ h := by
      rintro rfl
      rw [show t.arena.isMarked j = true from hm] at hj
      simp at hj
    simp [hne]

lemma WellFormed.sweep (ht : t.WellFormed) : t.sweep.WellFormed := by
  have hkept : ∀ h b, t.sweep.get? h = some b → t.get? h = some b := by
    intro h b hb
    rw [get?_sweep] at hb
    split at hb
    · exact hb
    · simp at hb
  refine ⟨ht.arena.sweep, fun h s hs => ?_, fun n => ?_, fun n h => ?_, fun h j b hh hj => ?_⟩
  · have hs' : t.arena.sweep.get? h = some s := hs
    rw [Arena.get?_sweep] at hs'
    split at hs'
    · exact ht.hash_eq h s hs'
    · simp at hs'
  · rw [bucket, Interner.sweep, getD_foldl_forget]
    exact (ht.nodup_bucket n).filter _
  · rw [ht.mem_bucket_sweep, ht.mem_bucket_iff, get?_sweep]
    by_cases hm : t.isMarked h = true <;> simp [hm]
  · exact ht.eq_of_get? h j b (hkept h b hh) (hkept j b hj)

/-! ### Runs -/

/-- What may be asked of an interner. -/
inductive Op where
  | intern (b : Bytes)
  | find (b : Bytes)
  | mark (h : Handle)
  | clearMarks
  | sweep

/-- One operation. -/
def step (t : Interner) : Op → Interner
  | .intern b => (t.intern b).1
  | .find _ => t
  | .mark h => (t.mark? h).getD t
  | .clearMarks => t.clearMarks
  | .sweep => t.sweep

/-- Operations one after the other. -/
def run (t : Interner) (ops : List Op) : Interner := ops.foldl step t

/-- One operation keeps the invariant. -/
theorem WellFormed.step (ht : t.WellFormed) (op : Op) : (t.step op).WellFormed := by
  cases op with
  | intern b => exact ht.intern b
  | find b => exact ht
  | mark h =>
    cases hm : t.mark? h with
    | none => simpa [Interner.step, hm] using ht
    | some u => simpa [Interner.step, hm] using ht.of_clearMarks (mark?_eq_some hm).2.2.1
  | clearMarks => exact ht.of_clearMarks clearMarks_clearMarks
  | sweep => exact ht.sweep

theorem WellFormed.run (ht : t.WellFormed) (ops : List Op) : (t.run ops).WellFormed := by
  induction ops generalizing t with
  | nil => exact ht
  | cons op ops ih => exact ih (ht.step op)

/-- **Interning is content identity.**  After any operations every string is in one bucket, that of
its content, and once; what is in a bucket is live, so looking through it never meets a string that has
been freed.  Handles are equal exactly when their contents are, whatever is interned has its content,
and looking for a content finds the string that has it.  A sweep makes what it frees unknown and leaves
the rest as it was. -/
theorem run_content_identity (ops : List Op) :
    let t := empty.run ops
    (∀ h b, t.get? h = some b → ∀ n, (t.bucket n).count h = if n = b.hash then 1 else 0) ∧
    (∀ n, ∀ h ∈ t.bucket n, t.contains h = true) ∧
    (∀ h j b c, t.get? h = some b → t.get? j = some c → (h = j ↔ b = c)) ∧
    (∀ b, (t.intern b).1.get? (t.intern b).2 = some b) ∧
    (∀ b h, t.find? b = some h ↔ t.get? h = some b) ∧
    (∀ b, t.find? b = none ↔ ∀ h, t.get? h ≠ some b) ∧
    ∀ h b, t.get? h = some b →
      t.sweep.find? b = if t.isMarked h then some h else none := by
  intro t
  have ht : t.WellFormed := wellFormed_empty.run ops
  refine ⟨fun h b hb n => ?_, fun n h hh => ?_, fun h j b c hb hc => ?_, fun b => ?_,
    fun b h => ht.find?_eq_some_iff, fun b => ht.find?_eq_none_iff, fun h b hb => ?_⟩
  · rw [(ht.nodup_bucket n).count]
    simp only [ht.mem_bucket_iff, hb, Option.some_inj, exists_eq_left', eq_comm]
  · obtain ⟨b, hb, -⟩ := (ht.mem_bucket_iff n h).1 hh
    exact contains_iff.2 ⟨b, hb⟩
  · constructor
    · rintro rfl
      exact Option.some_inj.1 (hb.symm.trans hc)
    · rintro rfl
      exact ht.eq_of_get? h j b hb hc
  · rw [get?_intern ht.arena, if_pos rfl]
  · split
    · next hm => rw [ht.sweep.find?_eq_some_iff, get?_sweep, if_pos hm, hb]
    · next hm =>
      refine ht.sweep.find?_eq_none_iff.2 fun j hj => hm ?_
      rw [get?_sweep] at hj
      split at hj
      · next hmj => rwa [ht.eq_of_get? h j b hb hj]
      · simp at hj

end Interner

end LuaCore
