import LuaCore.Proofs.Heap.Closed

/-!
A collection changes nothing else.

Of what is left after a collection only weak tables are different, and only by the entries that have
lost a weak side.  The clearing goes by the marks, and these are on what the roots reach, so which
entries go can be said without them.  The mode of a table is read from its metatable; both strings
that it takes to declare one are reached from the table, so it declares the same afterwards.
-/

namespace LuaCore

namespace Heap

variable {β : Type} {heap heap' : Heap β} {strings strings' : Interner} {roots : List Value}
  {m : Marking β} {t u : Table} {k v : Value} {h name : Handle}

/-! ### What a sweep leaves -/

/-- What a sweep leaves of an arena. -/
lemma get?_sweep_eq_some_iff {α : Type} {a b : Arena α} {o : α}
    (hab : a.clearMarks = b.clearMarks) :
    a.sweep.get? h = some o ↔ b.get? h = some o ∧ a.isMarked h = true := by
  rw [Arena.get?_sweep, Arena.get?_eq_of_clearMarks hab]
  by_cases hm : a.isMarked h = true <;> simp [hm]

/-- What a collection leaves of the strings. -/
lemma get?_strings_reclaim (hm : m.Invariant heap strings roots) {b : Bytes} :
    (reclaim m).2.1.get? h = some b ↔ strings.get? h = some b ∧ m.isMarked (.string h) = true := by
  have hget : m.strings.get? h = strings.get? h := Interner.get?_eq_of_clearMarks hm.strings_eq h
  rw [reclaim, Interner.get?_sweep, hget]
  show (if m.strings.isMarked h = true then _ else none) = _ ↔ _ ∧ m.strings.isMarked h = true
  by_cases hmarked : m.strings.isMarked h = true <;> simp [hmarked]

/-! ### Modes -/

/-- A metatable declares a mode by an entry of two strings. -/
lemma modeString?_eq_some_iff {s : Handle} :
    heap.modeString? name t = some s ↔ ∃ j mt, t.metatable = some j ∧
      heap.tables.get? j = some mt ∧ mt.getKey (.string name) = .string s := by
  unfold modeString?
  constructor
  · intro hs
    split at hs
    · next mt hmt =>
      obtain ⟨j, hj, hmt⟩ := Option.bind_eq_some_iff.1 hmt
      split at hs
      · next hname =>
        cases hs
        exact ⟨j, mt, hj, hmt, hname⟩
      · simp at hs
    · simp at hs
  · rintro ⟨j, mt, hj, hmt, hname⟩
    have hget : mt.getName name = .string s := hname
    simp [hj, hmt, hget]

/-- Both strings of a mode are reached from the table. -/
lemma Reachable.modeString {s : Handle} (hw : heap.WellFormed)
    (hreach : heap.Reachable strings roots (.table h)) (ht : heap.tables.get? h = some t)
    (hs : heap.modeString? name t = some s) :
    heap.Reachable strings roots (.string name) ∧ heap.Reachable strings roots (.string s) := by
  obtain ⟨j, mt, hj, hmt, hname⟩ := modeString?_eq_some_iff.1 hs
  have hentry : (.string name, .string s) ∈ mt.entries :=
    (hw.each j mt hmt).mem_entries_iff.2 ⟨.string name, rfl, hname, by simp⟩
  have hmeta := hreach.metatable ht hj
  exact ⟨hmeta.key hmt hentry (Or.inr rfl), hmeta.value hmt hentry (Or.inr rfl) (Or.inr rfl)⟩

/-- An entry of two strings is never cleared. -/
lemma Remains.getKey_string {mode : WeakMode} {s : Handle} (hu : Remains m mode t u) :
    u.getKey (.string name) = .string s ↔ t.getKey (.string name) = .string s := by
  have hkey : m.heap.isDead (Key.string name).toValue = false := rfl
  rw [hu.getKey]
  constructor
  · intro hs
    split at hs
    · simp at hs
    · exact hs
  · intro hs
    have hvalue : m.heap.isDead (.string s) = false := rfl
    rw [hs, Table.isDeadEntry, hkey, hvalue]
    simp

/-- The metatable of a table that is left declares what it did. -/
lemma modeString?_reclaim (hw : heap.WellFormed) (hm : m.Invariant heap strings roots)
    (hmarks : m.Exact heap strings roots) (ht : heap.tables.get? h = some t)
    (hreach : heap.Reachable strings roots (.table h)) (hmeta : u.metatable = t.metatable)
    (name : Handle) :
    (reclaim m).1.modeString? name u = heap.modeString? name t := by
  ext s
  rw [modeString?_eq_some_iff, modeString?_eq_some_iff, hmeta]
  constructor
  · rintro ⟨j, mt', hj, hmt', hs⟩
    obtain ⟨-, mt, hmt, hremains⟩ := remains_of_get? hw hm hmt'
    exact ⟨j, mt, hj, hmt, hremains.getKey_string.1 hs⟩
  · rintro ⟨j, mt, hj, hmt, hs⟩
    have hmarked := (hmarks (.table j) rfl).2 (hreach.metatable ht hj)
    obtain ⟨mt', hmt', hremains⟩ := exists_remains hw hm hmt hmarked
    exact ⟨j, mt', hj, hmt', hremains.getKey_string.2 hs⟩

/-- If the strings that declare a mode are kept, and no other content is new, its text is the same. -/
lemma modeText?_congr (hs : strings.WellFormed) (hs' : strings'.WellFormed)
    (hsub : ∀ h b, strings'.get? h = some b → strings.get? h = some b)
    (hmode : ∀ name, heap'.modeString? name u = heap.modeString? name t)
    (hkept : ∀ name s, heap.modeString? name t = some s →
      strings'.get? name = strings.get? name ∧ strings'.get? s = strings.get? s) :
    heap'.modeText? strings' u = heap.modeText? strings t := by
  ext b
  simp only [modeText?_eq_some_iff_get? hs, modeText?_eq_some_iff_get? hs', hmode]
  constructor
  · rintro ⟨name, s, hname, hmodeString, hb⟩
    exact ⟨name, s, hsub name _ hname, hmodeString, hsub s b hb⟩
  · rintro ⟨name, s, hname, hmodeString, hb⟩
    obtain ⟨hkeptName, hkeptMode⟩ := hkept name s hmodeString
    exact ⟨name, s, hkeptName.trans hname, hmodeString, hkeptMode.trans hb⟩

/-! ### The entries that go -/

/-- **An entry that a collection takes away**: a weak side of it is an object that is not reached. -/
def Loses (heap : Heap β) (strings : Interner) (roots : List Value) (t : Table) (k v : Value) :
    Prop :=
  (heap.modeOf strings t).values = true ∧ v.isCollectable = true ∧
      ¬ heap.Reachable strings roots v ∨
    (heap.modeOf strings t).keys = true ∧ k.isCollectable = true ∧ ¬ heap.Reachable strings roots k

/-- Where marks are what is reached, a clearing finds these entries. -/
lemma loses_iff (hmarks : m.Exact heap strings roots) :
    ((heap.modeOf strings t).keys && m.heap.isDead k ||
      (heap.modeOf strings t).values && m.heap.isDead v) = true ↔
      heap.Loses strings roots t k v := by
  have hdead : ∀ x, m.heap.isDead x = true ↔
      x.isCollectable = true ∧ ¬ heap.Reachable strings roots x := by
    intro x
    rw [Marking.isDead_eq, Bool.and_eq_true, Bool.not_eq_true']
    refine and_congr_right fun hx => ?_
    rw [← hmarks x (Value.isReference_of_isCollectable hx), Bool.not_eq_true]
  rw [Bool.or_eq_true, Bool.and_eq_true, Bool.and_eq_true, hdead, hdead, or_comm, Loses]

lemma isDead_toValue {j : Key} (hj : Key.ofValue? k = some j) :
    m.heap.isDead j.toValue = m.heap.isDead k := by
  rcases Key.toValue_of_ofValue? hj with heq | ⟨a, b, ha, hb⟩
  · rw [heq]
  · rw [ha, hb]
    rfl

/-- **A table before and after a collection.** -/
structure KeepsTable (heap : Heap β) (strings : Interner) (roots : List Value) (t u : Table) :
    Prop where
  get_of_loses : ∀ k, heap.Loses strings roots t k (t.get k) → u.get k = .nil
  get_of_not_loses : ∀ k, ¬ heap.Loses strings roots t k (t.get k) → u.get k = t.get k
  /-- The entries that are left have their order. -/
  sublist : u.entries.Sublist t.entries
  mem_entries : ∀ k v, (k, v) ∈ u.entries ↔ (k, v) ∈ t.entries ∧ ¬ heap.Loses strings roots t k v
  metatable : u.metatable = t.metatable
  weakMode : u.weakMode = heap.modeOf strings t

lemma Remains.keepsTable (hu : Remains m (heap.modeOf strings t) t u)
    (hmarks : m.Exact heap strings roots) : heap.KeepsTable strings roots t u := by
  have hget : ∀ k, u.get k = if (heap.modeOf strings t).keys && m.heap.isDead k ||
      (heap.modeOf strings t).values && m.heap.isDead (t.get k) then .nil else t.get k := by
    intro k
    unfold Table.get
    cases hk : Key.ofValue? k with
    | none => simp
    | some j =>
      simp only [hu.getKey, Table.isDeadEntry, isDead_toValue hk]
      cases hnil : (t.getKey j).isNil with
      | true => simp [Value.isNil_iff.1 hnil]
      | false => simp
  refine ⟨fun k hk => ?_, fun k hk => ?_, ?_, fun k v => ?_, hu.metatable, hu.weakMode⟩
  · rw [hget, if_pos ((loses_iff hmarks).2 hk)]
  · rw [hget, if_neg (mt (loses_iff hmarks).1 hk)]
  · rw [hu.entries]
    exact List.filter_sublist
  · rw [hu.entries, List.mem_filter, ← loses_iff hmarks, Bool.not_eq_true', Bool.not_eq_true]

/-- The entries that go of the tables that are left, by table and key. -/
def lost (heap : Heap β) (strings : Interner) (roots : List Value) : Set (Handle × Value) :=
  {p | ∃ t v, heap.tables.get? p.1 = some t ∧ heap.Reachable strings roots (.table p.1) ∧
    (p.2, v) ∈ t.entries ∧ heap.Loses strings roots t p.2 v}

/-- The entries of a table that are found dead, with its handle. -/
def lostEntries (m : Marking β) (h : Handle) : List (Handle × Value) :=
  ((m.heap.tables.get? h).map fun t =>
    (Table.deadKeys (m.heap.deadEntries t)).map fun k => (h, k.toValue)).getD []

lemma deadCount_eq (m : Marking β) (h : Handle) : m.heap.deadCount h = (lostEntries m h).length := by
  unfold deadCount lostEntries
  cases m.heap.tables.get? h with
  | none => rfl
  | some t => simp [Table.deadKeys, DeadEntries.size]

lemma foldl_deadCount (m : Marking β) (l : List Handle) (n : Nat) :
    l.foldl (fun n h => n + m.heap.deadCount h) n = n + (l.flatMap (lostEntries m)).length := by
  induction l generalizing n with
  | nil => rfl
  | cons h l ih =>
    rw [List.foldl_cons, ih, List.flatMap_cons, List.length_append, deadCount_eq]
    omega

lemma fst_of_mem_lostEntries {p : Handle × Value} (hp : p ∈ lostEntries m h) : p.1 = h := by
  unfold lostEntries at hp
  cases ht : m.heap.tables.get? h with
  | none => simp [ht] at hp
  | some t =>
    simp only [ht, Option.map_some, Option.getD_some, List.mem_map] at hp
    obtain ⟨k, -, rfl⟩ := hp
    rfl

lemma nodup_lostEntries (hw : heap.WellFormed) (hm : m.Invariant heap strings roots) :
    (m.weak.flatMap (lostEntries m)).Nodup := by
  refine List.nodup_flatMap.2 ⟨fun h hh => ?_, hm.nodup.imp fun hne p hp hp' => ?_⟩
  · unfold lostEntries
    cases ht : m.heap.tables.get? h with
    | none => exact List.nodup_nil
    | some t =>
      have hwt : t.WellFormed := (hw.withModes.of_clearMarks hm.heap_eq).each h t ht
      refine (hwt.nodup_deadKeys t.weakMode m.heap.deadTest).map fun j k hjk => ?_
      exact Key.toValue_injective (Prod.mk.inj hjk).2
  · exact hne ((fst_of_mem_lostEntries hp).symm.trans (fst_of_mem_lostEntries hp'))

lemma isDeadEntry_iff (hmarks : m.Exact heap strings roots) {j : Key} :
    Table.isDeadEntry (heap.modeOf strings t) m.heap.isDead j v = true ↔
      v ≠ .nil ∧ heap.Loses strings roots t j.toValue v := by
  rw [Table.isDeadEntry, Bool.and_eq_true, loses_iff hmarks, Bool.not_eq_true',
    Value.isNil_eq_false_iff]

/-- What is found dead of a table are the entries that go. -/
lemma mem_lostEntries (hw : heap.WellFormed) (hm : m.Invariant heap strings roots)
    (hmarks : m.Exact heap strings roots) (ht : heap.tables.get? h = some t) :
    (h, k) ∈ lostEntries m h ↔ ∃ v, (k, v) ∈ t.entries ∧ heap.Loses strings roots t k v := by
  have hget := hm.get?_of_get? ht
  have hwt := (hw.withModes.of_clearMarks hm.heap_eq).each h _ hget
  have hfound := fun j => hwt.mem_deadKeys_iff (k := j) (heap.modeOf strings t) m.heap.deadTest
  simp only [lostEntries, hget, Option.map_some, Option.getD_some, List.mem_map, Prod.mk.injEq,
    true_and]
  constructor
  · rintro ⟨j, hj, rfl⟩
    obtain ⟨hv, hloses⟩ := (isDeadEntry_iff hmarks).1 ((hfound j).1 hj)
    exact ⟨t.getKey j, (hw.each h t ht).mem_entries_iff.2 ⟨j, rfl, rfl, hv⟩, hloses⟩
  · rintro ⟨v, hkv, hloses⟩
    obtain ⟨j, rfl, rfl, hv⟩ := (hw.each h t ht).mem_entries_iff.1 hkv
    exact ⟨j, (hfound j).2 ((isDeadEntry_iff hmarks).2 ⟨hv, hloses⟩), rfl⟩

/-- The weak tables that are met are all that an entry can go of. -/
lemma mem_flatMap_lostEntries (hw : heap.WellFormed) (hm : m.Invariant heap strings roots)
    (hmarks : m.Exact heap strings roots) :
    (h, k) ∈ m.weak.flatMap (lostEntries m) ↔ (h, k) ∈ heap.lost strings roots := by
  constructor
  · intro hp
    obtain ⟨j, hj, hp⟩ := List.mem_flatMap.1 hp
    obtain rfl : h = j := fst_of_mem_lostEntries hp
    obtain ⟨hmarked, t', ht', -⟩ := (hm.weak h).1 hj
    obtain ⟨t, ht, -⟩ := hm.get?_eq_some_iff.1 ht'
    obtain ⟨v, hkv, hloses⟩ := (mem_lostEntries hw hm hmarks ht).1 hp
    exact ⟨t, v, ht, (hmarks (.table h) rfl).1 hmarked, hkv, hloses⟩
  · rintro ⟨t, v, ht, hreach, hkv, hloses⟩
    -- an entry only goes for a weak side
    have hweak : (heap.modeOf strings t).isWeak = true := by
      rcases hloses with ⟨hvalues, -⟩ | ⟨hkeys, -⟩
      · simp [WeakMode.isWeak, hvalues]
      · simp [WeakMode.isWeak, hkeys]
    have hmarked := (hmarks (.table h) rfl).2 hreach
    exact List.mem_flatMap.2 ⟨h, (hm.weak h).2 ⟨hmarked, _, hm.get?_of_get? ht, hweak⟩,
      (mem_lostEntries hw hm hmarks ht).2 ⟨v, hkv, hloses⟩⟩

/-- As many entries are counted as go. -/
lemma weakEntries_reclaim (hw : heap.WellFormed) (hm : m.Invariant heap strings roots)
    (hmarks : m.Exact heap strings roots) :
    (reclaim m).2.2.weakEntries = (heap.lost strings roots).ncard := by
  have hset : heap.lost strings roots =
      ((m.weak.flatMap (lostEntries m)).toFinset : Set (Handle × Value)) := by
    ext ⟨h, k⟩
    rw [List.coe_toFinset]
    exact (mem_flatMap_lostEntries hw hm hmarks).symm
  rw [hset, Set.ncard_coe_finset, List.toFinset_card_of_nodup (nodup_lostEntries hw hm), reclaim,
    foldl_deadCount, Nat.zero_add]

/-! ### The collection -/

/-- **What a collection leaves.**  A string, function, userdata or thread that is reached is left as it
was, a table but for the entries that go; and nothing else is left. -/
structure KeepsContents (heap : Heap β) (strings : Interner) (roots : List Value) (heap' : Heap β)
    (strings' : Interner) : Prop where
  tables : ∀ h, heap'.tables.contains h = true ↔
    heap.tables.contains h = true ∧ heap.Reachable strings roots (.table h)
  table : ∀ h t u, heap.tables.get? h = some t → heap'.tables.get? h = some u →
    heap.KeepsTable strings roots t u
  functions : ∀ h f, heap'.functions.get? h = some f ↔
    heap.functions.get? h = some f ∧ heap.Reachable strings roots (.function h)
  userdata : ∀ h u, heap'.userdata.get? h = some u ↔
    heap.userdata.get? h = some u ∧ heap.Reachable strings roots (.userdata h)
  threads : ∀ h t, heap'.threads.get? h = some t ↔
    heap.threads.get? h = some t ∧ heap.Reachable strings roots (.thread h)
  strings : ∀ h b, strings'.get? h = some b ↔
    strings.get? h = some b ∧ heap.Reachable strings roots (.string h)
  /-- Every table is under the mode that its metatable declares now. -/
  modes : ∀ h u, heap'.tables.get? h = some u → u.weakMode = heap'.modeOf strings' u

lemma keepsContents_reclaim (hw : heap.WellFormed) (hs : strings.WellFormed)
    (hm : m.Invariant heap strings roots) (hmarks : m.Exact heap strings roots) :
    heap.KeepsContents strings roots (reclaim m).1 (reclaim m).2.1 := by
  obtain ⟨-, -, hf, hu, hth⟩ := foldl_clearWeak m.heap m.weak
  have hstring : ∀ h b, (reclaim m).2.1.get? h = some b ↔
      strings.get? h = some b ∧ heap.Reachable strings roots (.string h) := by
    intro h b
    rw [get?_strings_reclaim hm, hmarks (.string h) rfl]
  have hkept : ∀ h t u, heap.tables.get? h = some t → (reclaim m).1.tables.get? h = some u →
      heap.Reachable strings roots (.table h) ∧ heap.KeepsTable strings roots t u := by
    intro h t u ht hu
    obtain ⟨hmarked, t', ht', hremains⟩ := remains_of_get? hw hm hu
    obtain rfl : t' = t := Option.some.inj (ht'.symm.trans ht)
    exact ⟨(hmarks (.table h) rfl).1 hmarked, hremains.keepsTable hmarks⟩
  refine ⟨fun h => ?_, fun h t u ht hu => (hkept h t u ht hu).2, fun h f => ?_, fun h u => ?_,
    fun h t => ?_, hstring, fun h u hu => ?_⟩
  · have hlive := isLive_reclaim m (v := .table h) rfl
    rw [← hmarks (.table h) rfl]
    refine ⟨fun hc => ?_, fun hc => hlive.trans hc.2⟩
    have hmarked := hlive.symm.trans hc
    exact ⟨(hm.isLive_eq (.table h)).symm.trans (isLive_of_isMarked hmarked), hmarked⟩
  · rw [← hmarks (.function h) rfl, reclaim, sweep, hf]
    exact get?_sweep_eq_some_iff (congrArg Heap.functions hm.heap_eq)
  · rw [← hmarks (.userdata h) rfl, reclaim, sweep, hu]
    exact get?_sweep_eq_some_iff (congrArg Heap.userdata hm.heap_eq)
  · rw [← hmarks (.thread h) rfl, reclaim, sweep, hth]
    exact get?_sweep_eq_some_iff (congrArg Heap.threads hm.heap_eq)
  · obtain ⟨-, t, ht, -⟩ := remains_of_get? hw hm hu
    obtain ⟨hreach, hkeeps⟩ := hkept h t u ht hu
    have hs' : (reclaim m).2.1.WellFormed := (hs.of_clearMarks hm.strings_eq).sweep
    rw [hkeeps.weakMode, modeOf, modeOf, modeText?_congr hs hs' (fun j b hb => ?_)
      (modeString?_reclaim hw hm hmarks ht hreach hkeeps.metatable) fun name s hmode => ?_]
    · exact ((hstring j b).1 hb).1
    · obtain ⟨hname, hmodeString⟩ := hreach.modeString hw ht hmode
      have hsame : ∀ j, heap.Reachable strings roots (.string j) →
          (reclaim m).2.1.get? j = strings.get? j := by
        intro j hj
        ext b
        rw [hstring]
        exact and_iff_left hj
      exact ⟨hsame name hname, hsame s hmodeString⟩

/-- **A collection changes nothing else.**  On a closed heap it ends, whatever the roots.  What is
reached is left as it was, but for the entries of weak tables that have lost a weak side; the number
of these is the one that is counted. -/
theorem collect_keeps_contents (hw : heap.WellFormed) (hs : strings.WellFormed)
    (hclosed : heap.Closed strings) (roots : List Value) :
    ∃ heap' strings' stats, heap.collect strings roots = .ok (heap', strings', stats) ∧
      heap.KeepsContents strings roots heap' strings' ∧
      stats.weakEntries = (heap.lost strings roots).ncard := by
  obtain ⟨m, hmark, hm, hmarks⟩ := hclosed.markFrom roots
  exact ⟨(reclaim m).1, (reclaim m).2.1, (reclaim m).2.2, by rw [collect, hmark]; rfl,
    keepsContents_reclaim hw hs hm hmarks, weakEntries_reclaim hw hm hmarks⟩

lemma wellFormed_weakCache : weakCache.WellFormed where
  tables := ((((Arena.wellFormed_empty.alloc _).alloc _).alloc _).alloc _).alloc _
  functions := Arena.wellFormed_empty.alloc _
  userdata := Arena.wellFormed_empty.alloc _
  threads := Arena.wellFormed_empty.alloc _
  each := by
    intro h t ht
    have htable := mem_weakCacheTables ht
    simp only [weakCacheTables, List.mem_cons, List.not_mem_nil, or_false] at htable
    rcases htable with rfl | rfl | rfl | rfl | rfl
    · exact ((Table.wellFormed_empty.setKey (by rfl)).setKey (by rfl)).congr rfl rfl rfl
    · exact Table.wellFormed_empty.setKey (by rfl)
    all_goals exact Table.wellFormed_empty

/-- Of the entries of the cache, the one goes whose key only the cache has. -/
lemma loses_weakCache_iff :
    weakCache.Loses modeStrings [.function ⟨0, 0⟩] cacheTable k v ↔
      k.isCollectable = true ∧ k ∉ cacheReached := by
  simp [Loses, modeOf_cacheTable, reachable_weakCache_iff]

lemma lost_weakCache :
    weakCache.lost modeStrings [.function ⟨0, 0⟩] = {(⟨0, 0⟩, .table ⟨2, 0⟩)} := by
  ext ⟨h, k⟩
  rw [Set.mem_singleton_iff, Prod.mk.injEq]
  constructor
  · rintro ⟨t, v, ht, -, hkv, hloses⟩
    rcases entry_weakCache ht hkv with ⟨rfl, rfl, ⟨rfl, -⟩ | ⟨rfl, -⟩⟩ | ⟨rfl, rfl⟩
    · exact absurd (loses_weakCache_iff.1 hloses).2 (by decide)
    · exact ⟨rfl, rfl⟩
    · rcases hloses with ⟨-, hv, -⟩ | ⟨-, hk, -⟩
      · cases hv
      · cases hk
  · rintro ⟨rfl, rfl⟩
    exact ⟨cacheTable, .table ⟨4, 0⟩, rfl, reachable_of_mem_cacheReached (by decide), by decide,
      loses_weakCache_iff.2 (by decide)⟩

/-- From the function, the cache loses the entry whose key nothing else has, and that one is counted.
The other entry is left, and so are the metatable and the mode that it declares. -/
theorem collect_keeps_contents_weakCache :
    weakCache.WellFormed ∧ modeStrings.WellFormed ∧ weakCache.Closed modeStrings ∧
    ∃ heap' strings' stats u,
      weakCache.collect modeStrings [.function ⟨0, 0⟩] = .ok (heap', strings', stats) ∧
      heap'.tables.get? ⟨0, 0⟩ = some u ∧
      u.get (.table ⟨2, 0⟩) = .nil ∧ u.get (.table ⟨1, 0⟩) = .table ⟨3, 0⟩ ∧
      (∀ k v, (k, v) ∈ u.entries ↔ k = .table ⟨1, 0⟩ ∧ v = .table ⟨3, 0⟩) ∧
      u.metatable = some ⟨1, 0⟩ ∧ u.weakMode = ⟨true, false⟩ ∧
      strings'.get? ⟨1, 0⟩ = some (Bytes.ofString "k") ∧
      heap'.userdata.get? ⟨0, 0⟩ = weakCache.userdata.get? ⟨0, 0⟩ ∧
      stats.weakEntries = 1 := by
  obtain ⟨heap', strings', stats, hcollect, hkeeps, hcount⟩ :=
    collect_keeps_contents wellFormed_weakCache wellFormed_modeStrings closed_weakCache
      [.function ⟨0, 0⟩]
  have hreached : ∀ v ∈ cacheReached, weakCache.Reachable modeStrings [.function ⟨0, 0⟩] v :=
    fun v => reachable_of_mem_cacheReached
  obtain ⟨u, hu⟩ := Arena.contains_iff.1 ((hkeeps.tables ⟨0, 0⟩).2 ⟨rfl, hreached _ (by decide)⟩)
  have hcache := hkeeps.table ⟨0, 0⟩ cacheTable u rfl hu
  refine ⟨wellFormed_weakCache, wellFormed_modeStrings, closed_weakCache, heap', strings', stats, u,
    hcollect, hu, ?_, ?_, fun k v => ?_, hcache.metatable, hcache.weakMode.trans modeOf_cacheTable,
    ?_, ?_, ?_⟩
  · exact hcache.get_of_loses _ (loses_weakCache_iff.2 (by decide))
  · exact hcache.get_of_not_loses _ (mt loses_weakCache_iff.1 (by decide))
  · rw [hcache.mem_entries, loses_weakCache_iff, entries_cacheTable]
    constructor
    · rintro ⟨hkv, hkept⟩
      simp only [List.mem_cons, List.not_mem_nil, or_false, Prod.mk.injEq] at hkv
      rcases hkv with hfirst | ⟨rfl, -⟩
      · exact hfirst
      · exact absurd hkept (by decide)
    · rintro ⟨rfl, rfl⟩
      decide
  · exact (hkeeps.strings ⟨1, 0⟩ _).2 ⟨get?_modeStrings_mode, hreached _ (by decide)⟩
  · exact (hkeeps.userdata ⟨0, 0⟩ _).2 ⟨rfl, hreached _ (by decide)⟩
  · rw [hcount, lost_weakCache, Set.ncard_singleton]

end Heap

end LuaCore
