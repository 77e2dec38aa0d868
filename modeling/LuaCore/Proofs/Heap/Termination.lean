import LuaCore.Proofs.Heap.Collect
import Mathlib.Logic.Function.Iterate

/-!
When a collection ends.

A heap need not be closed: a host may store the handle of an object that has been freed.  Most such
handles do no harm, since there is nothing to mark behind them.  Under weak keys they do: the rounds
over these tables are repeated as long as one finds a value without a mark behind a key that is
reached, and a value whose object has been freed never gets a mark.  Main statement: on any heap a
collection ends exactly if it can read the mode strings and no such value is stored.
-/

namespace LuaCore

namespace Marking

variable {β : Type} {m m' : Marking β}

/-! ### Rounds without an end -/

lemma gray_propagate (m : Marking β) : m.propagate.gray = [] := by
  fun_induction propagate m with
  | case1 m hg => exact hg
  | case2 m v rest hg hrest hnone ih => exact ih
  | case3 m v rest hg hrest heap' strings' hsome hfewer ih => exact ih

/-- If nothing that waits can be marked, it is only taken from the list. -/
lemma propagate_eq_of_none (hnone : ∀ v ∈ m.gray, m.heap.mark? m.strings v = none) :
    m.propagate = { m with gray := [] } := by
  fun_induction propagate m with
  | case1 m hg => rw [← hg]
  | case2 m v rest hg hrest hv ih =>
    refine ih fun w hw => hnone w ?_
    rw [hg]
    exact List.mem_cons_of_mem _ hw
  | case3 m v rest hg hrest heap' strings' hsome hfewer ih =>
    have hv := hnone v (by simp [hg])
    rw [hv] at hsome
    simp at hsome

/-- **A round that marks nothing changes nothing**, so the next one finds the same. -/
lemma round_eq_self (hg : m.gray = []) (hless : ¬ m.round.unmarked < m.unmarked) : m.round = m := by
  have hnone : ∀ v ∈ (m.push m.found).gray,
      (m.push m.found).heap.mark? (m.push m.found).strings v = none := by
    intro v hv
    by_contra hmark
    exact hless (unmarked_propagate_lt (m := m.push m.found) hv hmark)
  rw [round, propagate_eq_of_none hnone]
  simp only [push, ← hg]

/-- Where the rounds are given up, each of them finds something. -/
lemma found_ne_nil_of_settle (hg : m.gray = []) (hnone : m.settle = none) (n : Nat) :
    (round^[n] m).found ≠ [] := by
  fun_induction settle m generalizing n with
  | case1 m hfound => simp at hnone
  | case2 m hfound hless ih =>
    cases n with
    | zero => simpa using hfound
    | succ n => exact ih (gray_propagate _) hnone n
  | case3 m hfound hless =>
    rw [Function.iterate_fixed (round_eq_self hg hless)]
    simpa using hfound

/-- Where the rounds end, one of them finds nothing. -/
lemma exists_iterate_of_settle (hsome : m.settle = some m') :
    ∃ n, round^[n] m = m' ∧ m'.found = [] := by
  fun_induction settle m with
  | case1 m hfound =>
    cases hsome
    exact ⟨0, rfl, List.isEmpty_iff.1 hfound⟩
  | case2 m hfound hless ih =>
    obtain ⟨n, hn, hfound⟩ := ih hsome
    exact ⟨n + 1, hn, hfound⟩
  | case3 m hfound hless => simp at hsome

lemma settle_eq_none_iff (hg : m.gray = []) :
    m.settle = none ↔ ∀ n, (round^[n] m).found ≠ [] := by
  refine ⟨found_ne_nil_of_settle hg, fun hall => ?_⟩
  cases hs : m.settle with
  | none => rfl
  | some m' =>
    obtain ⟨n, rfl, hfound⟩ := exists_iterate_of_settle hs
    exact absurd hfound (hall n)

lemma gray_iterate (hg : m.gray = []) (n : Nat) : (round^[n] m).gray = [] := by
  induction n generalizing m with
  | zero => exact hg
  | succ n ih => exact ih (gray_propagate _)

/-- Once a round has found nothing, no later one does, and nothing changes. -/
lemma iterate_eq_of_found (hg : m.gray = []) {n k : Nat} (hn : (round^[n] m).found = [])
    (hk : (round^[k] m).found = []) : round^[n] m = round^[k] m := by
  have hfixed : ∀ {i}, (round^[i] m).found = [] → (round^[i] m).round = round^[i] m := by
    intro i hi
    refine round_eq_self (gray_iterate hg i) ?_
    have hgray := gray_iterate hg i
    rw [round, hi, propagate_eq_of_none (by simp [push, hgray])]
    exact Nat.lt_irrefl _
  have hlater : ∀ {i} (d : Nat), (round^[i] m).found = [] → round^[d + i] m = round^[i] m := by
    intro i d hi
    rw [Function.iterate_add_apply]
    exact Function.iterate_fixed (hfixed hi) d
  rcases Nat.le_total n k with hnk | hnk
  · rw [← Nat.sub_add_cancel hnk, hlater _ hn]
  · rw [← Nat.sub_add_cancel hnk, hlater _ hk]

lemma settle_eq_some_iff (hg : m.gray = []) :
    m.settle = some m' ↔ ∃ n, (round^[n] m).found = [] ∧ round^[n] m = m' := by
  constructor
  · intro hs
    obtain ⟨n, rfl, hfound⟩ := exists_iterate_of_settle hs
    exact ⟨n, hfound, rfl⟩
  · rintro ⟨n, hfound, rfl⟩
    cases hs : m.settle with
    | none => exact absurd hfound (found_ne_nil_of_settle hg hs n)
    | some m' =>
      obtain ⟨k, rfl, hk⟩ := exists_iterate_of_settle hs
      rw [iterate_eq_of_found hg hk hfound]

end Marking

/-! ### What is reached on any heap -/

namespace Heap

variable {β : Type} {heap : Heap β} {strings : Interner} {roots : List Value} {v w : Value}
  {h : Handle}

/-- **What the roots reach where handles may be stale**: everything on the way is live. -/
inductive Reaches (heap : Heap β) (strings : Interner) (roots : List Value) : Value → Prop where
  | root {v : Value} : v ∈ roots → heap.isLive strings v = true → Reaches heap strings roots v
  | reference {v w : Value} :
      Reaches heap strings roots v → w ∈ (heap.withModes strings).references v →
      heap.isLive strings w = true → Reaches heap strings roots w
  /-- A value behind a weak key that is reached. -/
  | behindKey {h : Handle} {t : Table} {k v : Value} :
      Reaches heap strings roots (.table h) → heap.tables.get? h = some t →
      (heap.modeOf strings t).keys = true → (k, v) ∈ t.entries → Reaches heap strings roots k →
      (heap.modeOf strings t).values = false ∨ v.isCollectable = false →
      heap.isLive strings v = true → Reaches heap strings roots v

/-- **An entry that no round gets done with**: its table is reached and has weak keys, its key is
reached or no object, and its value, which its table keeps, has been freed. -/
structure StuckEntry (heap : Heap β) (strings : Interner) (roots : List Value) (h : Handle)
    (t : Table) (k v : Value) : Prop where
  reached : heap.Reaches strings roots (.table h)
  get? : heap.tables.get? h = some t
  weakKeys : (heap.modeOf strings t).keys = true
  entry : (k, v) ∈ t.entries
  key : k.isCollectable = false ∨ heap.Reaches strings roots k
  kept : (heap.modeOf strings t).values = false ∨ v.isCollectable = false
  freed : heap.isLive strings v = false

end Heap

namespace Marking

variable {β : Type} {m : Marking β} {heap : Heap β} {strings : Interner} {roots : List Value}
  {v w : Value} {h : Handle}

/-- What has a mark is reached, and so is what waits and is live. -/
structure Grounded (m : Marking β) (heap : Heap β) (strings : Interner) (roots : List Value) :
    Prop where
  marked : ∀ v, v.isReference = true → m.isMarked v = true → heap.Reaches strings roots v
  waiting : ∀ v ∈ m.gray, heap.isLive strings v = true → heap.Reaches strings roots v

namespace Grounded

lemma start (heap : Heap β) (strings : Interner) (roots : List Value) :
    ({ heap := (heap.withModes strings).clearMarks, strings := strings.clearMarks,
       gray := roots.reverse } : Marking β).Grounded heap strings roots where
  marked v hv hmarked := by simp [isMarked, Heap.isMarked_clearMarks hv] at hmarked
  waiting v hv hlive := .root (List.mem_reverse.1 hv) hlive

/-- Marking a value that waits, and looking through its object. -/
lemma scan (hs : m.Grounded heap strings roots) (hm : m.Invariant heap strings roots)
    {rest : List Value} (hg : m.gray = v :: rest) {heap' : Heap β} {strings' : Interner}
    (hsome : m.heap.mark? m.strings v = some (heap', strings')) :
    (Marking.scan { m with heap := heap', strings := strings', gray := rest } v).Grounded
      heap strings roots := by
  obtain ⟨-, hlive, -, hheap, -, hmarks⟩ := Heap.mark?_eq_some hsome
  rw [hm.isLive_eq] at hlive
  have hreach : heap.Reaches strings roots v := hs.waiting v (by simp [hg]) hlive
  refine ⟨fun w hw hmarked => ?_, fun w hw hl => ?_⟩
  · rw [isMarked_scan] at hmarked
    simp only [isMarked, hmarks, Bool.or_eq_true, decide_eq_true_eq] at hmarked
    rcases hmarked with rfl | hmarked
    · exact hreach
    · exact hs.marked w hw hmarked
  · rw [gray_scan, List.mem_append, List.mem_reverse] at hw
    rcases hw with hw | hw
    · rw [Heap.references_eq_of_clearMarks hheap, hm.references_eq] at hw
      exact hreach.reference hw hl
    · exact hs.waiting w (by rw [hg]; exact List.mem_cons_of_mem _ hw) hl

lemma propagate (hs : m.Grounded heap strings roots) (hm : m.Invariant heap strings roots) :
    m.propagate.Grounded heap strings roots := by
  fun_induction Marking.propagate m with
  | case1 m hg => exact hs
  | case2 m v rest hg hrest hnone ih =>
    refine ih ⟨hs.marked, fun w hw => hs.waiting w ?_⟩ (hm.drop hg hnone)
    rw [hg]
    exact List.mem_cons_of_mem _ hw
  | case3 m v rest hg hrest heap' strings' hsome hfewer ih =>
    exact ih (hs.scan hm hg hsome) (hm.scan hg hsome)

/-- A round finds what is reached behind a weak key, as far as it is live. -/
lemma round (hs : m.Grounded heap strings roots) (hm : m.Invariant heap strings roots) :
    m.round.Grounded heap strings roots := by
  have hpush : (m.push m.found).Grounded heap strings roots := by
    refine ⟨hs.marked, fun v hv hlive => ?_⟩
    simp only [push, List.mem_append, List.mem_reverse] at hv
    rcases hv with hv | hv
    · obtain ⟨h, hh, t, ht, k, hkv, hdead, -, hval⟩ := mem_found.1 hv
      obtain ⟨hmarked, t', ht', hkeys⟩ := (hm.ephemerons h).1 hh
      obtain rfl : t = t' := Option.some.inj (ht.symm.trans ht')
      have htable := hs.marked _ rfl hmarked
      rw [hm.get?_eq] at ht
      by_cases hk : k.isCollectable = true
      · have hreached : heap.Reaches strings roots k := by
          refine hs.marked k (Value.isReference_of_isCollectable hk) ?_
          simpa [isDead_eq, hk] using hdead
        rw [Heap.get?_tables_withModes, Option.map_eq_some_iff] at ht
        obtain ⟨t, ht, rfl⟩ := ht
        exact htable.behindKey ht hkeys hkv hreached hval hlive
      · refine htable.reference ?_ hlive
        simp only [Heap.references, ht, Option.map_some, Option.getD_some]
        exact Heap.mem_tableReferences.2
          (Or.inr ⟨k, v, hkv, Or.inr (by simpa using hk), Or.inr ⟨rfl, hval⟩⟩)
    · exact hs.waiting v hv hlive
  exact hpush.propagate (hm.push_found)

/-- **When a round finds nothing live, the marks are on what is reached.** -/
lemma isMarked_iff (hs : m.Grounded heap strings roots) (hm : m.Invariant heap strings roots)
    (hg : m.gray = []) (hstale : ∀ v ∈ m.found, heap.isLive strings v = false)
    (hv : v.isReference = true) : m.isMarked v = true ↔ heap.Reaches strings roots v := by
  refine ⟨hs.marked v hv, fun hreach => ?_⟩
  clear hv
  induction hreach with
  | root hmem hlive => simpa [hg] using hm.root _ hmem hlive
  | @reference v w _ hw hlive ih =>
    rw [← hm.references_eq] at hw
    by_cases hv : v.isReference = true
    · simpa [hg] using hm.reference v hv ih w hw hlive
    · cases v <;> simp_all [Value.isReference, Value.isCollectable, Heap.references]
  | @behindKey h t k v _ ht hkeys hkv _ hval hlive ih ihk =>
    have hget := hm.get?_of_get? ht
    by_contra hmarked
    have hfound : v ∈ m.found := by
      refine mem_found.2 ⟨h, (hm.ephemerons h).2 ⟨ih, _, hget, hkeys⟩, _, hget, k, hkv, ?_, ?_, hval⟩
      · simp [isDead_eq, ihk]
      · simpa using hmarked
    rw [hstale v hfound] at hlive
    exact Bool.false_ne_true hlive

/-- **Then what a round finds are the values of the stuck entries.** -/
lemma mem_found_iff (hs : m.Grounded heap strings roots) (hm : m.Invariant heap strings roots)
    (hg : m.gray = []) (hstale : ∀ v ∈ m.found, heap.isLive strings v = false) :
    v ∈ m.found ↔ ∃ h t k, heap.StuckEntry strings roots h t k v := by
  have hmarks := fun u hu => hs.isMarked_iff (v := u) hm hg hstale hu
  constructor
  · intro hv
    obtain ⟨h, hh, t, ht, k, hkv, hdead, -, hval⟩ := mem_found.1 hv
    obtain ⟨hmarked, t', ht', hkeys⟩ := (hm.ephemerons h).1 hh
    obtain rfl : t = t' := Option.some.inj (ht.symm.trans ht')
    rw [hm.get?_eq_some_iff] at ht
    obtain ⟨t, ht, rfl⟩ := ht
    refine ⟨h, t, k, (hmarks _ rfl).1 hmarked, ht, hkeys, hkv, ?_, hval, hstale v hv⟩
    by_cases hk : k.isCollectable = true
    · refine Or.inr ((hmarks k (Value.isReference_of_isCollectable hk)).1 ?_)
      simpa [isDead_eq, hk] using hdead
    · exact Or.inl (by simpa using hk)
  · rintro ⟨h, t, k, hstuck⟩
    have hget := hm.get?_of_get? hstuck.get?
    have htable := (hmarks (.table h) rfl).2 hstuck.reached
    refine mem_found.2 ⟨h, (hm.ephemerons h).2 ⟨htable, _, hget, hstuck.weakKeys⟩, _, hget, k,
      hstuck.entry, ?_, ?_, hstuck.kept⟩
    · rw [isDead_eq]
      rcases hstuck.key with hk | hk
      · simp [hk]
      · by_cases hc : k.isCollectable = true
        · simp [(hmarks k (Value.isReference_of_isCollectable hc)).2 hk]
        · simp [hc]
    · by_contra hmarked
      have hlive := Heap.isLive_of_isMarked (by simpa using hmarked : m.isMarked v = true)
      rw [hm.isLive_eq, hstuck.freed] at hlive
      exact Bool.false_ne_true hlive

/-- **The rounds are given up exactly if an entry is stuck.** -/
theorem settle_eq_none_iff_stuck (hs : m.Grounded heap strings roots)
    (hm : m.Invariant heap strings roots) (hg : m.gray = []) :
    m.settle = none ↔ ∃ h t k v, heap.StuckEntry strings roots h t k v := by
  fun_induction Marking.settle m with
  | case1 m hfound =>
    have hnil := List.isEmpty_iff.1 hfound
    constructor
    · intro hnone
      simp at hnone
    · rintro ⟨h, t, k, v, hstuck⟩
      have hv := (hs.mem_found_iff hm hg (by simp [hnil])).2 ⟨h, t, k, hstuck⟩
      simp [hnil] at hv
  | case2 m hfound hless ih => exact ih (hs.round hm) hm.round.1 hm.round.2
  | case3 m hfound hless =>
    have hstale : ∀ v ∈ m.found, heap.isLive strings v = false := by
      intro v hv
      by_contra hlive
      exact hless (hm.unmarked_round_of_live hv (by simpa using hlive))
    obtain ⟨v, hv⟩ := List.exists_mem_of_ne_nil m.found (by simpa using hfound)
    obtain ⟨h, t, k, hstuck⟩ := (hs.mem_found_iff hm hg hstale).1 hv
    exact ⟨fun _ => ⟨h, t, k, v, hstuck⟩, fun _ => rfl⟩

end Grounded

end Marking

/-! ### The collection -/

namespace Heap

variable {β : Type} {heap : Heap β} {strings : Interner} {roots : List Value}

/-- The marking of what the roots reach by themselves, after `n` rounds over the weak keys. -/
def afterRounds (heap : Heap β) (strings : Interner) (roots : List Value) (n : Nat) : Marking β :=
  Marking.round^[n] (Marking.propagate
    { heap := (heap.withModes strings).clearMarks, strings := strings.clearMarks,
      gray := roots.reverse })

lemma collect_eq_freed (hfreed : heap.FreedMode strings) :
    heap.collect strings roots = .error (.freed .string) := by
  have hmodes := refreshModes_eq_error (freedMode_clearMarks.2 hfreed)
  simp only [collect, markFrom, hmodes]
  rfl

/-- Where the mode strings can be read, the rounds decide. -/
lemma collect_eq_settle (hfreed : ¬ heap.FreedMode strings) :
    heap.collect strings roots = match (heap.afterRounds strings roots 0).settle with
      | some m => .ok (reclaim m)
      | none => .error .endless := by
  have hmodes := refreshModes_eq_ok (mt freedMode_clearMarks.1 hfreed)
  simp only [collect, markFrom, hmodes, clearMarks_withModes]
  rw [← show (heap.afterRounds strings roots 0) = Marking.propagate _ from rfl]
  cases (heap.afterRounds strings roots 0).settle <;> rfl

/-- A collection that ends leaves what some marking of the heap leaves. -/
lemma exists_of_collect_eq_ok {result : Heap β × Interner × CollectStats}
    (h : heap.collect strings roots = .ok result) :
    ∃ m, reclaim m = result ∧ m.Invariant heap strings roots ∧ m.gray = [] := by
  by_cases hfreed : heap.FreedMode strings
  · rw [collect_eq_freed hfreed] at h
    cases h
  · rw [collect_eq_settle hfreed] at h
    obtain ⟨hstart, hgray⟩ := (Marking.Invariant.start heap strings roots).propagate
    cases hsettle : (heap.afterRounds strings roots 0).settle with
    | none =>
      rw [hsettle] at h
      cases h
    | some m =>
      rw [hsettle] at h
      cases h
      exact ⟨m, rfl, hstart.of_settle hgray hsettle⟩

/-- **When a collection ends.**  On any heap, with any roots: if a mode string has been freed, the
collection stops at once.  Otherwise it is a repetition of rounds, which has no end if and only if an
entry is stuck; and if a round finds nothing, the result is what its marking leaves. -/
theorem collect_ends_iff (heap : Heap β) (strings : Interner) (roots : List Value) :
    (heap.collect strings roots = .error (.freed .string) ↔ heap.FreedMode strings) ∧
    (heap.collect strings roots = .error .endless ↔
      ¬ heap.FreedMode strings ∧ ∀ n, (heap.afterRounds strings roots n).found ≠ []) ∧
    (∀ result, heap.collect strings roots = .ok result ↔
      ¬ heap.FreedMode strings ∧ ∃ n, (heap.afterRounds strings roots n).found = [] ∧
        reclaim (heap.afterRounds strings roots n) = result) ∧
    ((∀ n, (heap.afterRounds strings roots n).found ≠ []) ↔
      ∃ h t k v, heap.StuckEntry strings roots h t k v) := by
  have hstart := Marking.Invariant.start heap strings roots
  have hground := (Marking.Grounded.start heap strings roots).propagate hstart
  have hgray : (heap.afterRounds strings roots 0).gray = [] := Marking.gray_propagate _
  have hnone : (heap.afterRounds strings roots 0).settle = none ↔
      ∀ n, (heap.afterRounds strings roots n).found ≠ [] := Marking.settle_eq_none_iff hgray
  have hstuck := hground.settle_eq_none_iff_stuck hstart.propagate.1 hgray
  have hsome : ∀ m, (heap.afterRounds strings roots 0).settle = some m ↔
      ∃ n, (heap.afterRounds strings roots n).found = [] ∧ heap.afterRounds strings roots n = m :=
    fun m => Marking.settle_eq_some_iff hgray
  rw [← hnone]
  by_cases hfreed : heap.FreedMode strings
  · refine ⟨?_, ?_, fun result => ?_, hstuck⟩
    all_goals simp [collect_eq_freed hfreed, hfreed]
  · rw [collect_eq_settle hfreed]
    cases hsettle : (heap.afterRounds strings roots 0).settle with
    | none =>
      have hall := hnone.1 hsettle
      refine ⟨by simp [hfreed], by simp [hfreed], fun result => ?_, hsettle ▸ hstuck⟩
      simp only [reduceCtorEq, false_iff, not_and, not_exists]
      exact fun _ n hn => absurd hn (hall n)
    | some m =>
      obtain ⟨n, hn, rfl⟩ := (hsome m).1 hsettle
      refine ⟨by simp [hfreed], by simp, fun result => ?_, hsettle ▸ hstuck⟩
      simp only [Except.ok.injEq, hfreed, not_false_eq_true, true_and]
      refine ⟨fun hr => ⟨n, hn, hr⟩, ?_⟩
      rintro ⟨k, hk, rfl⟩
      have hsame := (hsome _).2 ⟨k, hk, rfl⟩
      rw [hsettle, Option.some_inj] at hsame
      rw [hsame]

end Heap

end LuaCore
