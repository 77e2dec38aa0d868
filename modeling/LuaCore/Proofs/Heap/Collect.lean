import LuaCore.Proofs.Arena.History
import LuaCore.Proofs.Heap.Marking
import LuaCore.Proofs.Interner.Content
import LuaCore.Proofs.Table.Entries

/-!
A collection keeps exactly what the roots reach.
-/

namespace LuaCore

namespace Heap

variable {β : Type} {heap : Heap β} {strings : Interner} {roots : List Value} {v : Value}

/-! ### Modes -/

lemma Closed.clearMarks (hclosed : heap.Closed strings) :
    heap.clearMarks.Closed strings.clearMarks := by
  intro v w hw
  rw [stored_clearMarks] at hw
  rw [isLive_clearMarks]
  exact hclosed v w hw

lemma clearMarks_withModes :
    heap.clearMarks.withModes strings.clearMarks = (heap.withModes strings).clearMarks := by
  simp only [withModes, modeOf_clearMarks]
  simp only [clearMarks, Arena.map_clearMarks]

/-- A mode string is stored in the metatable, so on a closed heap it can be read. -/
lemma Closed.contains_modeString (hclosed : heap.Closed strings) {name s : Handle} {t : Table}
    (hs : heap.modeString? name t = some s) : strings.contains s = true := by
  unfold modeString? at hs
  split at hs
  · next mt hmt =>
    obtain ⟨h, -, hmt⟩ := Option.bind_eq_some_iff.1 hmt
    split at hs
    · next hname =>
      cases hs
      have hentry := Table.mem_entries_of_hashGet hname (by simp)
      refine hclosed (.table h) (.string s) ?_
      rw [stored, hmt]
      exact mem_stored_table.2 (Or.inr ⟨_, _, hentry, Or.inr rfl⟩)
    · simp at hs
  · simp at hs

/-- A metatable declares a mode in a string that has been freed. -/
def FreedMode (heap : Heap β) (strings : Interner) : Prop :=
  ∃ name h t s, strings.find? (Bytes.ofString "__mode") = some name ∧
    heap.tables.get? h = some t ∧ heap.modeString? name t = some s ∧ strings.contains s = false

lemma freedMode_clearMarks :
    heap.clearMarks.FreedMode strings.clearMarks ↔ heap.FreedMode strings := by
  simp [FreedMode, modeString?, clearMarks]

lemma refreshModes_eq_error (hfreed : heap.FreedMode strings) :
    heap.refreshModes strings = .error (.freed .string) := by
  obtain ⟨name, h, t, s, hname, ht, hs, hc⟩ := hfreed
  simp only [refreshModes, hname]
  rw [if_pos]
  refine List.any_eq_true.2 ⟨(h, t), Arena.mem_entries_iff.2 ht, ?_⟩
  simp [hs, hc]

lemma refreshModes_eq_ok (hfreed : ¬ heap.FreedMode strings) :
    heap.refreshModes strings = .ok (heap.withModes strings) := by
  unfold refreshModes withModes
  split
  · next hnone =>
    have hstrong : ∀ t, heap.modeOf strings t = .strong := fun t =>
      modeOf_eq_strong (by rw [modeText?, hnone]; rfl)
    simp only [hstrong]
  · next name hname =>
    rw [if_neg]
    · simp only [declaredMode_eq_modeOf hname]
    intro hany
    obtain ⟨⟨h, t⟩, hmem, hunread⟩ := List.any_eq_true.1 hany
    simp only at hunread
    split at hunread
    · next s hs =>
      exact hfreed ⟨name, h, t, s, hname, Arena.mem_entries_iff.1 hmem, hs, by simpa using hunread⟩
    · simp at hunread

/-- Equal strings are one string, so the name is the live string with these bytes. -/
lemma modeText?_eq_some_iff_get? {t : Table} {b : Bytes} (hs : strings.WellFormed) :
    heap.modeText? strings t = some b ↔
      ∃ name s, strings.get? name = some (Bytes.ofString "__mode") ∧
        heap.modeString? name t = some s ∧ strings.get? s = some b := by
  simp only [modeText?_eq_some_iff, hs.find?_eq_some_iff]

/-- The mode of a table whose metatable declares one. -/
lemma modeOf_eq {t : Table} {name s : Handle} {b : Bytes} (hs : strings.WellFormed)
    (hname : strings.get? name = some (Bytes.ofString "__mode"))
    (hmode : heap.modeString? name t = some s) (hb : strings.get? s = some b) :
    heap.modeOf strings t = .ofBytes b := by
  have htext := (modeText?_eq_some_iff_get? hs).2 ⟨name, s, hname, hmode, hb⟩
  rw [modeOf, htext]
  rfl

lemma modeOf_of_metatable_none {t : Table} (ht : t.metatable = none) :
    heap.modeOf strings t = .strong := by
  refine modeOf_eq_strong (Option.eq_none_iff_forall_ne_some.2 fun b hb => ?_)
  obtain ⟨name, s, -, hs, -⟩ := modeText?_eq_some_iff.1 hb
  simp [modeString?, ht] at hs

lemma Closed.not_freedMode (hclosed : heap.Closed strings) : ¬ heap.FreedMode strings := by
  rintro ⟨name, h, t, s, -, -, hs, hfreed⟩
  rw [hclosed.contains_modeString hs] at hfreed
  exact Bool.false_ne_true hfreed.symm

/-- **On a closed heap marking succeeds, and the marks are on what the roots reach.** -/
theorem Closed.markFrom (hclosed : heap.Closed strings) (roots : List Value) :
    ∃ m, heap.markFrom strings roots = .ok m ∧ m.Invariant heap strings roots ∧
      m.Exact heap strings roots := by
  obtain ⟨hstart, hgray⟩ := (Marking.Invariant.start heap strings roots).propagate
  obtain ⟨m, hsettle, hm, hg, hfound⟩ := hstart.settle hgray hclosed
  refine ⟨m, ?_, hm, fun v hv => hm.isMarked_iff hg hfound hclosed hv⟩
  have hmodes := refreshModes_eq_ok hclosed.clearMarks.not_freedMode
  simp only [Heap.markFrom, hmodes, clearMarks_withModes, hsettle]

/-! ### Clearing weak tables -/

lemma isDead_clearWeak (h : Handle) (v : Value) : (heap.clearWeak h).isDead v = heap.isDead v := by
  cases v <;> simp [isDead, clearWeak]

/-- Clearing tables changes their entries and nothing else. -/
lemma foldl_clearWeak (heap : Heap β) (l : List Handle) :
    (∀ j, (l.foldl clearWeak heap).tables.contains j = heap.tables.contains j) ∧
    (∀ j, (l.foldl clearWeak heap).tables.isMarked j = heap.tables.isMarked j) ∧
    (l.foldl clearWeak heap).functions = heap.functions ∧
    (l.foldl clearWeak heap).userdata = heap.userdata ∧
    (l.foldl clearWeak heap).threads = heap.threads := by
  induction l generalizing heap with
  | nil => simp
  | cons h l ih =>
    obtain ⟨hc, hm, hf, hu, ht⟩ := ih (heap.clearWeak h)
    refine ⟨fun j => ?_, fun j => ?_, hf, hu, ht⟩
    · rw [List.foldl_cons, hc]
      exact Arena.contains_modify _
    · rw [List.foldl_cons, hm]
      exact Arena.isMarked_modify _

/-- What clearing does to the tables. -/
lemma get?_foldl_clearWeak (heap : Heap β) {l : List Handle} (hl : l.Nodup) (j : Handle) :
    (l.foldl clearWeak heap).tables.get? j =
      if j ∈ l then (heap.tables.get? j).map fun t => t.removeDead (heap.deadEntries t)
      else heap.tables.get? j := by
  induction l generalizing heap with
  | nil => simp
  | cons h l ih =>
    obtain ⟨hh, hl⟩ := List.nodup_cons.1 hl
    have hdead : (heap.clearWeak h).deadEntries = heap.deadEntries := by
      funext t
      simp only [deadEntries, funext (isDead_clearWeak h)]
    have hget : (heap.clearWeak h).tables.get? j =
        if j = h then (heap.tables.get? j).map fun t => t.removeDead (heap.deadEntries t)
        else heap.tables.get? j := Arena.get?_modify _
    rw [List.foldl_cons, ih _ hl, hdead, hget]
    by_cases hj : j = h
    · subst hj
      simp [hh]
    · simp [hj]

/-! ### The collection -/

/-- After a sweep the marked objects are left. -/
lemma isLive_reclaim (m : Marking β) (hv : v.isReference = true) :
    (reclaim m).1.isLive (reclaim m).2.1 v = m.isMarked v := by
  obtain ⟨-, hmarked, hf, hu, ht⟩ := foldl_clearWeak m.heap m.weak
  cases v <;> simp [Value.isReference, Value.isCollectable] at hv
  all_goals simp [reclaim, isLive, sweep, Marking.isMarked, isMarked, hmarked, hf, hu, ht]

/-- The numbers of objects of each kind that are live and that the roots do not reach. -/
structure CountsUnreachable (heap : Heap β) (strings : Interner) (roots : List Value)
    (stats : CollectStats) : Prop where
  tables : stats.tables =
    {h | heap.tables.contains h = true ∧ ¬ heap.Reachable strings roots (.table h)}.ncard
  functions : stats.functions =
    {h | heap.functions.contains h = true ∧ ¬ heap.Reachable strings roots (.function h)}.ncard
  userdata : stats.userdata =
    {h | heap.userdata.contains h = true ∧ ¬ heap.Reachable strings roots (.userdata h)}.ncard
  threads : stats.threads =
    {h | heap.threads.contains h = true ∧ ¬ heap.Reachable strings roots (.thread h)}.ncard
  strings : stats.strings =
    {h | strings.contains h = true ∧ ¬ heap.Reachable strings roots (.string h)}.ncard

/-- What a sweep frees of one arena: the live objects that are not reached. -/
lemma length_garbage_eq {α : Type} {a : Arena α} {live : Handle → Bool} {wrap : Handle → Value}
    (hlive : ∀ h, a.contains h = live h)
    (hmarked : ∀ h, a.isMarked h = true ↔ heap.Reachable strings roots (wrap h)) :
    a.garbage.length = {h | live h = true ∧ ¬ heap.Reachable strings roots (wrap h)}.ncard := by
  rw [a.length_garbage]
  congr 1
  ext h
  simp only [Set.mem_ofPred_eq, hlive, ← hmarked, Bool.not_eq_true]

lemma countsUnreachable_reclaim {m : Marking β} (hm : m.Invariant heap strings roots)
    (hmarks : m.Exact heap strings roots) :
    heap.CountsUnreachable strings roots (reclaim m).2.2 := by
  obtain ⟨hlive, hmarked, hf, hu, ht⟩ := foldl_clearWeak m.heap m.weak
  have hsame : ∀ v, m.heap.isLive m.strings v = heap.isLive strings v := hm.isLive_eq
  refine ⟨?_, ?_, ?_, ?_, ?_⟩
  · exact length_garbage_eq (fun h => (hlive h).trans (hsame (.table h)))
      fun h => by rw [hmarked]; exact hmarks (.table h) rfl
  · exact length_garbage_eq (fun h => by rw [hf]; exact hsame (.function h))
      fun h => by rw [hf]; exact hmarks (.function h) rfl
  · exact length_garbage_eq (fun h => by rw [hu]; exact hsame (.userdata h))
      fun h => by rw [hu]; exact hmarks (.userdata h) rfl
  · exact length_garbage_eq (fun h => by rw [ht]; exact hsame (.thread h))
      fun h => by rw [ht]; exact hmarks (.thread h) rfl
  · exact length_garbage_eq (fun h => hsame (.string h)) fun h => hmarks (.string h) rfl

/-- **A collection keeps exactly what the roots reach.**  On a closed heap it ends, whatever the
roots.  A reference is live afterwards if and only if the roots reach it, under the same handle, and
what is counted as freed is what was live and is not reached. -/
theorem collect_keeps_reachable (hclosed : heap.Closed strings) (roots : List Value) :
    ∃ heap' strings' stats, heap.collect strings roots = .ok (heap', strings', stats) ∧
      (∀ v, v.isReference = true → heap.isLive strings v = true →
        (heap'.isLive strings' v = true ↔ heap.Reachable strings roots v)) ∧
      heap.CountsUnreachable strings roots stats := by
  obtain ⟨m, hmark, hm, hmarks⟩ := hclosed.markFrom roots
  refine ⟨(reclaim m).1, (reclaim m).2.1, (reclaim m).2.2, by rw [collect, hmark]; rfl,
    fun v hv _ => ?_, countsUnreachable_reclaim hm hmarks⟩
  rw [isLive_reclaim m hv]
  exact hmarks v hv

/-! ### A cache with weak keys -/

/-- The strings by which a metatable declares weak keys. -/
def modeStrings : Interner :=
  ((Interner.empty.intern (Bytes.ofString "__mode")).1.intern (Bytes.ofString "k")).1

lemma wellFormed_modeStrings : modeStrings.WellFormed :=
  (Interner.wellFormed_empty.intern _).intern _

/-- The arena in which they are one after the other. -/
def modeArena : Arena Packed :=
  ((Arena.empty.alloc (.ofBytes (Bytes.ofString "__mode") (Bytes.ofString "__mode").hash)).1.alloc
    (.ofBytes (Bytes.ofString "k") (Bytes.ofString "k").hash)).1

lemma arena_modeStrings : modeStrings.arena = modeArena := by
  have hempty : ∀ h b, Interner.empty.get? h ≠ some b := by
    simp [Interner.get?, Interner.empty, Arena.get?_empty]
  rw [modeStrings, (Interner.wellFormed_empty.intern _).arena_intern,
    Interner.wellFormed_empty.arena_intern]
  · rfl
  · exact fun h => hempty h _
  · intro h hh
    rw [Interner.get?_intern Arena.wellFormed_empty] at hh
    split at hh
    · exact absurd hh (by decide)
    · exact hempty h _ hh

lemma get?_modeStrings (h : Handle) : modeStrings.get? h = (modeArena.get? h).map Packed.bytes := by
  rw [Interner.get?, arena_modeStrings]

lemma get?_modeStrings_name : modeStrings.get? ⟨0, 0⟩ = some (Bytes.ofString "__mode") := by
  rw [get?_modeStrings]
  rfl

lemma get?_modeStrings_mode : modeStrings.get? ⟨1, 0⟩ = some (Bytes.ofString "k") := by
  rw [get?_modeStrings]
  rfl

/-- A table with two entries and a metatable.  The key of the first one is the metatable. -/
def cacheTable : Table :=
  { (Table.empty.setKey (.table ⟨1, 0⟩) (.table ⟨3, 0⟩)).setKey (.table ⟨2, 0⟩) (.table ⟨4, 0⟩) with
    metatable := some ⟨1, 0⟩ }

/-- The cache, its metatable, which declares weak keys, and the other tables of its entries. -/
def weakCacheTables : List Table :=
  [cacheTable, Table.empty.setKey (.string ⟨0, 0⟩) (.string ⟨1, 0⟩), .empty, .empty, .empty]

/-- What holds the cache: a function holds a userdata, which holds a thread, which runs the cache. -/
def weakCache : Heap Unit where
  tables := weakCacheTables.foldl (fun a t => (a.alloc t).1) .empty
  functions := (Arena.empty.alloc { name := "get", captures := [.userdata ⟨0, 0⟩], body := () }).1
  userdata := (Arena.empty.alloc
    { payload := .int 7, metatable := some ⟨1, 0⟩, userValue := .thread ⟨0, 0⟩ }).1
  threads := (Arena.empty.alloc { body := .table ⟨0, 0⟩ }).1

/-- Which strings there are is read from the arena alone. -/
lemma isLive_of_arena {a : Arena Packed} (harena : strings.arena = a) (v : Value) :
    heap.isLive strings v = heap.isLive ⟨a, ∅⟩ v := by
  cases v with
  | string h => rw [isLive, isLive, Interner.contains, Interner.contains, harena]
  | _ => rfl

lemma closed_of_arena {a : Arena Packed} (harena : strings.arena = a)
    (hclosed : heap.Closed ⟨a, ∅⟩) : heap.Closed strings := by
  intro v w hw
  rw [isLive_of_arena harena]
  exact hclosed v w hw

lemma closed_weakCache : weakCache.Closed modeStrings :=
  closed_of_arena arena_modeStrings (by decide +kernel)

lemma mem_weakCacheTables {h : Handle} {t : Table} (ht : weakCache.tables.get? h = some t) :
    t ∈ weakCacheTables := by
  have htables : weakCache.tables.entries.map Prod.snd = weakCacheTables := rfl
  rw [← htables]
  exact List.mem_map_of_mem (f := Prod.snd) (Arena.mem_entries_iff.2 ht)

lemma modeOf_cacheTable : weakCache.modeOf modeStrings cacheTable = ⟨true, false⟩ := by
  rw [modeOf_eq wellFormed_modeStrings get?_modeStrings_name rfl get?_modeStrings_mode]
  decide

lemma entries_cacheTable :
    cacheTable.entries = [(.table ⟨1, 0⟩, .table ⟨3, 0⟩), (.table ⟨2, 0⟩, .table ⟨4, 0⟩)] := by
  rfl

/-- The entries of its tables. -/
lemma entry_weakCache {h : Handle} {t : Table} {k v : Value}
    (ht : weakCache.tables.get? h = some t) (hkv : (k, v) ∈ t.entries) :
    h = ⟨0, 0⟩ ∧ t = cacheTable ∧
        (k = .table ⟨1, 0⟩ ∧ v = .table ⟨3, 0⟩ ∨ k = .table ⟨2, 0⟩ ∧ v = .table ⟨4, 0⟩) ∨
      k = .string ⟨0, 0⟩ ∧ v = .string ⟨1, 0⟩ := by
  have htables : weakCache.tables.entries = [(⟨0, 0⟩, cacheTable),
      (⟨1, 0⟩, Table.empty.setKey (.string ⟨0, 0⟩) (.string ⟨1, 0⟩)), (⟨2, 0⟩, .empty),
      (⟨3, 0⟩, .empty), (⟨4, 0⟩, .empty)] := by rfl
  have htable := Arena.mem_entries_iff.2 ht
  simp only [htables, List.mem_cons, List.not_mem_nil, or_false, Prod.mk.injEq] at htable
  rcases htable with ⟨rfl, rfl⟩ | ⟨-, rfl⟩ | ⟨-, rfl⟩ | ⟨-, rfl⟩ | ⟨-, rfl⟩
  · simp only [entries_cacheTable, List.mem_cons, List.not_mem_nil, or_false, Prod.mk.injEq] at hkv
    exact Or.inl ⟨rfl, rfl, hkv⟩
  · have hentries : (Table.empty.setKey (.string ⟨0, 0⟩) (.string ⟨1, 0⟩)).entries =
        [(.string ⟨0, 0⟩, .string ⟨1, 0⟩)] := by rfl
    rw [hentries, List.mem_singleton, Prod.mk.injEq] at hkv
    exact Or.inr hkv
  all_goals cases hkv

/-- What the function reaches: not the key that only the cache has, and not the value behind it. -/
def cacheReached : List Value :=
  [.function ⟨0, 0⟩, .userdata ⟨0, 0⟩, .thread ⟨0, 0⟩, .table ⟨0, 0⟩, .table ⟨1, 0⟩, .string ⟨0, 0⟩,
    .string ⟨1, 0⟩, .table ⟨3, 0⟩]

lemma mem_cacheReached (hv : weakCache.Reachable modeStrings [.function ⟨0, 0⟩] v) :
    v ∈ cacheReached := by
  induction hv with
  | root hmem =>
    obtain rfl := List.mem_singleton.1 hmem
    decide
  | @metatable h mt t _ ht hmt =>
    have hall : ∀ t ∈ weakCacheTables, ∀ mt ∈ t.metatable, mt = ⟨1, 0⟩ := by decide
    rw [hall t (mem_weakCacheTables ht) mt hmt]
    decide
  | @userMetatable h mt u _ hu hmt =>
    have hall : ∀ e ∈ weakCache.userdata.entries, ∀ mt ∈ e.2.metatable, mt = ⟨1, 0⟩ := by decide
    rw [hall (h, u) (Arena.mem_entries_iff.2 hu) mt hmt]
    decide
  | @userValue h u _ hu =>
    have hall : ∀ e ∈ weakCache.userdata.entries, e.2.userValue ∈ cacheReached := by decide
    exact hall (h, u) (Arena.mem_entries_iff.2 hu)
  | @body h t _ ht =>
    have hall : ∀ e ∈ weakCache.threads.entries, e.2.body ∈ cacheReached := by decide
    exact hall (h, t) (Arena.mem_entries_iff.2 ht)
  | @capture h f v _ hf hmem =>
    have hall : ∀ e ∈ weakCache.functions.entries, ∀ v ∈ e.2.captures, v ∈ cacheReached := by decide
    exact hall (h, f) (Arena.mem_entries_iff.2 hf) v hmem
  | key _ ht hkv hk =>
    rcases entry_weakCache ht hkv with ⟨-, rfl, ⟨rfl, -⟩ | ⟨rfl, -⟩⟩ | ⟨rfl, -⟩
    · simp [modeOf_cacheTable, Value.isCollectable] at hk
    · simp [modeOf_cacheTable, Value.isCollectable] at hk
    · decide
  | value _ ht hkv hk =>
    rcases entry_weakCache ht hkv with ⟨-, rfl, ⟨rfl, -⟩ | ⟨rfl, -⟩⟩ | ⟨-, rfl⟩
    · simp [modeOf_cacheTable, Value.isCollectable] at hk
    · simp [modeOf_cacheTable, Value.isCollectable] at hk
    · decide
  | behindKey _ ht hkv _ _ _ ihk =>
    rcases entry_weakCache ht hkv with ⟨-, -, ⟨-, rfl⟩ | ⟨rfl, -⟩⟩ | ⟨-, rfl⟩
    · decide
    · exact absurd ihk (by decide)
    · decide

/-- Every kind of object is on the way, and an entry of every kind that leads on. -/
lemma reachable_of_mem_cacheReached (hv : v ∈ cacheReached) :
    weakCache.Reachable modeStrings [.function ⟨0, 0⟩] v := by
  have hfunction : weakCache.Reachable modeStrings [.function ⟨0, 0⟩] (.function ⟨0, 0⟩) :=
    .root (List.mem_singleton_self _) rfl
  have huserdata := hfunction.capture (f := _) rfl (List.mem_singleton_self _)
  have hthread := huserdata.userValue (u := _) rfl
  have hcache := hthread.body (t := _) rfl
  have hmeta := hcache.metatable (t := cacheTable) rfl rfl
  have hmode : (.string ⟨0, 0⟩, .string ⟨1, 0⟩) ∈
      (Table.empty.setKey (.string ⟨0, 0⟩) (.string ⟨1, 0⟩)).entries := by decide
  have hname := hmeta.key rfl hmode (Or.inr rfl)
  have htext := hmeta.value rfl hmode (Or.inr rfl) (Or.inr rfl)
  have hentry : (.table ⟨1, 0⟩, .table ⟨3, 0⟩) ∈ cacheTable.entries := by decide
  have hheld := hcache.behindKey rfl hentry hmeta (Or.inl (by rw [modeOf_cacheTable]))
  simp only [cacheReached, List.mem_cons, List.not_mem_nil, or_false] at hv
  rcases hv with rfl | rfl | rfl | rfl | rfl | rfl | rfl | rfl <;> assumption

lemma reachable_weakCache_iff :
    weakCache.Reachable modeStrings [.function ⟨0, 0⟩] v ↔ v ∈ cacheReached :=
  ⟨mem_cacheReached, reachable_of_mem_cacheReached⟩

lemma ncard_unreached_weakCache {α : Type} (a : Arena α) (wrap : Handle → Value) :
    {h | a.contains h = true ∧ ¬ weakCache.Reachable modeStrings [.function ⟨0, 0⟩] (wrap h)}.ncard =
      (a.handles.filter fun h => decide (wrap h ∉ cacheReached)).length := by
  rw [← List.toFinset_card_of_nodup (a.nodup_handles.filter _), ← Set.ncard_coe_finset]
  congr 1
  ext h
  simp [reachable_weakCache_iff, Arena.mem_handles_iff]

/-- From the function, the collection frees the key that only the cache has and the value behind it,
and nothing else. -/
theorem collect_keeps_reachable_weakCache :
    weakCache.Closed modeStrings ∧
    ∃ heap' strings' stats,
      weakCache.collect modeStrings [.function ⟨0, 0⟩] = .ok (heap', strings', stats) ∧
      (∀ v ∈ cacheReached, heap'.isLive strings' v = true) ∧
      heap'.isLive strings' (.table ⟨2, 0⟩) = false ∧
      heap'.isLive strings' (.table ⟨4, 0⟩) = false ∧
      stats.tables = 2 ∧ stats.functions = 0 ∧ stats.userdata = 0 ∧ stats.threads = 0 ∧
      stats.strings = 0 := by
  obtain ⟨heap', strings', stats, hcollect, hlive, hcounts⟩ :=
    collect_keeps_reachable closed_weakCache [.function ⟨0, 0⟩]
  have hkept : ∀ v, v.isReference = true → weakCache.isLive modeStrings v = true →
      (heap'.isLive strings' v = true ↔ v ∈ cacheReached) :=
    fun v hv hl => (hlive v hv hl).trans reachable_weakCache_iff
  refine ⟨closed_weakCache, heap', strings', stats, hcollect, fun v hv => ?_, ?_, ?_, ?_, ?_, ?_, ?_, ?_⟩
  · have hstart : ∀ v ∈ cacheReached,
        v.isReference = true ∧ weakCache.isLive ⟨modeArena, ∅⟩ v = true := by decide
    obtain ⟨href, hl⟩ := hstart v hv
    exact (hkept v href ((isLive_of_arena arena_modeStrings v).trans hl)).2 hv
  · exact Bool.eq_false_iff.2 fun hl => absurd ((hkept (.table ⟨2, 0⟩) rfl rfl).1 hl) (by decide)
  · exact Bool.eq_false_iff.2 fun hl => absurd ((hkept (.table ⟨4, 0⟩) rfl rfl).1 hl) (by decide)
  · exact hcounts.tables.trans (ncard_unreached_weakCache weakCache.tables .table)
  · exact hcounts.functions.trans (ncard_unreached_weakCache weakCache.functions .function)
  · exact hcounts.userdata.trans (ncard_unreached_weakCache weakCache.userdata .userdata)
  · exact hcounts.threads.trans (ncard_unreached_weakCache weakCache.threads .thread)
  · have hstrings := hcounts.strings
    simp only [Interner.contains, arena_modeStrings] at hstrings
    exact hstrings.trans (ncard_unreached_weakCache modeArena .string)

end Heap

end LuaCore
