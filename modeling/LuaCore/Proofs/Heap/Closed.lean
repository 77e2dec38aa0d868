import LuaCore.Proofs.Heap.Collect
import LuaCore.Proofs.Table.Removal

/-!
Heaps stay closed.

A change of one object leaves a closed heap closed if what the object now stores is live.  A collection
leaves a closed heap closed: what a marked object still stores after the clearing of the weak tables
has a mark itself.
-/

namespace LuaCore

lemma Table.WellFormed.congr {t u : Table} (ht : t.WellFormed) (harray : u.array = t.array)
    (hhash : u.hash = t.hash) (hcount : u.tombstones = t.tombstones) : u.WellFormed := by
  obtain ⟨a, m, n, mt, w⟩ := t
  obtain ⟨a', m', n', mt', w'⟩ := u
  cases harray
  cases hhash
  cases hcount
  exact ⟨⟨ht.nodup, ht.normal, ht.tombstones_eq, ht.size_le, ht.ends, ht.apart⟩, ht.vacant⟩

/-- The key of a number is a number; that of any other value is the value. -/
lemma Key.toValue_of_ofValue? {x : Value} {k : Key} (hk : Key.ofValue? x = some k) :
    k.toValue = x ∨ ∃ a b, k.toValue = .number a ∧ x = .number b := by
  cases x with
  | nil => simp [Key.ofValue?] at hk
  | number n =>
    refine Or.inr ?_
    cases n with
    | int i => cases hk; exact ⟨_, _, rfl, rfl⟩
    | float d =>
      simp only [Key.ofValue?, Key.ofNumber?] at hk
      split at hk
      · simp at hk
      · split at hk <;> cases hk <;> exact ⟨_, _, rfl, rfl⟩
  | _ => cases hk; exact Or.inl rfl

/-- An assignment stores its key and its value, and nothing else that is new. -/
lemma Table.mem_stored_setKey {t : Table} {k : Key} {v w : Value} (ht : t.WellFormed)
    (hk : k.IsNormal) (hw : w ∈ (t.setKey k v).stored) : w ∈ t.stored ∨ w = k.toValue ∨ w = v := by
  rcases Heap.mem_stored_table.1 hw with ⟨mt, hmt, rfl⟩ | ⟨x, y, hxy, hw⟩
  · rw [metatable_setKey] at hmt
    exact Or.inl (Heap.mem_stored_table.2 (Or.inl ⟨mt, hmt, rfl⟩))
  · obtain ⟨j, rfl, hget, hy⟩ := (ht.setKey hk).mem_entries_iff.1 hxy
    rw [ht.getKey_setKey hk] at hget
    split at hget
    · next hj =>
      subst hj
      subst hget
      exact Or.inr hw
    · refine Or.inl (Heap.mem_stored_table.2 (Or.inr ⟨_, y, ?_, hw⟩))
      exact ht.mem_entries_iff.2 ⟨j, rfl, hget, hy⟩

namespace Heap

variable {β : Type} {heap heap' : Heap β} {strings strings' : Interner} {roots : List Value}
  {v w : Value} {h : Handle}

/-- A key refers to what its value refers to. -/
lemma isLive_toValue {x : Value} {k : Key} (hk : Key.ofValue? x = some k)
    (hx : heap.isLive strings x = true) : heap.isLive strings k.toValue = true := by
  rcases Key.toValue_of_ofValue? hk with heq | ⟨a, b, ha, -⟩
  · rw [heq]
    exact hx
  · rw [ha]
    rfl

/-! ### One object -/

lemma isLive_of_not_isReference (hv : v.isReference = false) : heap.isLive strings v = true := by
  cases v <;> simp_all [Value.isReference, Value.isCollectable, isLive]

/-- **The heap with one object changed or new**: the object of `v` stores `ws`, and all other objects
store what they did. -/
structure Updates (heap heap' : Heap β) (v : Value) (ws : List Value) : Prop where
  isLive : ∀ (strings : Interner) (w : Value),
    heap.isLive strings w = true ∨ w = v → heap'.isLive strings w = true
  stored : ∀ w, heap'.stored w = if w = v then ws else heap.stored w

lemma Closed.updates {ws : List Value} (hclosed : heap.Closed strings)
    (hu : heap.Updates heap' v ws)
    (hws : ∀ w ∈ ws, heap.isLive strings w = true ∨ w = v) : heap'.Closed strings := by
  intro u w hw
  rw [hu.stored] at hw
  split at hw
  · exact hu.isLive strings w (hws w hw)
  · exact hu.isLive strings w (Or.inl (hclosed u w hw))

lemma updates_tables {a : Arena Table} {t : Table}
    (ha : ∀ j, a.get? j = if j = h then some t else heap.tables.get? j) :
    heap.Updates { heap with tables := a } (.table h) t.stored := by
  refine ⟨fun strings w hw => ?_, fun w => ?_⟩
  · cases w with
    | table j => exact Arena.contains_of_get?_eq ha (by simpa [isLive] using hw)
    | _ => exact hw.resolve_right (by simp)
  · cases w with
    | table j =>
      simp only [stored, ha, Value.table.injEq]
      split <;> rfl
    | _ => rfl

lemma updates_functions {a : Arena (Function β)} {f : Function β}
    (ha : ∀ j, a.get? j = if j = h then some f else heap.functions.get? j) :
    heap.Updates { heap with functions := a } (.function h) f.captures := by
  refine ⟨fun strings w hw => ?_, fun w => ?_⟩
  · cases w with
    | function j => exact Arena.contains_of_get?_eq ha (by simpa [isLive] using hw)
    | _ => exact hw.resolve_right (by simp)
  · cases w with
    | function j =>
      simp only [stored, ha, Value.function.injEq]
      split <;> rfl
    | _ => rfl

lemma updates_userdata {a : Arena Userdata} {u : Userdata}
    (ha : ∀ j, a.get? j = if j = h then some u else heap.userdata.get? j) :
    heap.Updates { heap with userdata := a } (.userdata h) u.stored := by
  refine ⟨fun strings w hw => ?_, fun w => ?_⟩
  · cases w with
    | userdata j => exact Arena.contains_of_get?_eq ha (by simpa [isLive] using hw)
    | _ => exact hw.resolve_right (by simp)
  · cases w with
    | userdata j =>
      simp only [stored, ha, Value.userdata.injEq]
      split <;> rfl
    | _ => rfl

lemma updates_threads {a : Arena Thread} {t : Thread}
    (ha : ∀ j, a.get? j = if j = h then some t else heap.threads.get? j) :
    heap.Updates { heap with threads := a } (.thread h) [t.body] := by
  refine ⟨fun strings w hw => ?_, fun w => ?_⟩
  · cases w with
    | thread j => exact Arena.contains_of_get?_eq ha (by simpa [isLive] using hw)
    | _ => exact hw.resolve_right (by simp)
  · cases w with
    | thread j =>
      simp only [stored, ha, Value.thread.injEq]
      split <;> rfl
    | _ => rfl

/-! ### Well formed heaps -/

/-- Every part of the heap is well formed, and so is every table. -/
structure WellFormed (heap : Heap β) : Prop where
  tables : heap.tables.WellFormed
  functions : heap.functions.WellFormed
  userdata : heap.userdata.WellFormed
  threads : heap.threads.WellFormed
  each : ∀ h t, heap.tables.get? h = some t → t.WellFormed

lemma WellFormed.withModes (hw : heap.WellFormed) : (heap.withModes strings).WellFormed where
  tables := hw.tables.map _
  functions := hw.functions
  userdata := hw.userdata
  threads := hw.threads
  each := by
    intro h t ht
    rw [get?_tables_withModes, Option.map_eq_some_iff] at ht
    obtain ⟨t, ht, rfl⟩ := ht
    exact (hw.each h t ht).congr rfl rfl rfl

lemma WellFormed.of_clearMarks (hw : heap.WellFormed) (hh : heap'.clearMarks = heap.clearMarks) :
    heap'.WellFormed where
  tables := hw.tables.of_clearMarks (congrArg Heap.tables hh)
  functions := hw.functions.of_clearMarks (congrArg Heap.functions hh)
  userdata := hw.userdata.of_clearMarks (congrArg Heap.userdata hh)
  threads := hw.threads.of_clearMarks (congrArg Heap.threads hh)
  each := by
    intro h t ht
    rw [get?_tables_eq_of_clearMarks hh] at ht
    exact hw.each h t ht

lemma WellFormed.clearWeak (hw : heap.WellFormed) (h : Handle) : (heap.clearWeak h).WellFormed where
  tables := hw.tables.modify h _
  functions := hw.functions
  userdata := hw.userdata
  threads := hw.threads
  each := by
    intro j t ht
    rw [Heap.clearWeak, Arena.get?_modify] at ht
    split at ht
    · obtain ⟨u, hu, rfl⟩ := Option.map_eq_some_iff.1 ht
      exact ((hw.each j u hu).removeDead _ _).1
    · exact hw.each j t ht

lemma WellFormed.sweep (hw : heap.WellFormed) : heap.sweep.WellFormed where
  tables := hw.tables.sweep
  functions := hw.functions.sweep
  userdata := hw.userdata.sweep
  threads := hw.threads.sweep
  each := by
    intro h t ht
    rw [Heap.sweep, Arena.get?_sweep] at ht
    split at ht
    · exact hw.each h t ht
    · simp at ht

lemma WellFormed.reclaim {m : Marking β} (hw : heap.WellFormed)
    (hm : m.Invariant heap strings roots) : (reclaim m).1.WellFormed := by
  have hcleared : ∀ (l : List Handle) (heap : Heap β), heap.WellFormed →
      (l.foldl Heap.clearWeak heap).WellFormed := by
    intro l
    induction l with
    | nil => exact fun heap hw => hw
    | cons h l ih => exact fun heap hw => ih _ (hw.clearWeak h)
  exact (hcleared m.weak m.heap (hw.withModes.of_clearMarks hm.heap_eq)).sweep

/-! ### After a collection -/

/-- Only objects can be dead. -/
def deadTest (heap : Heap β) : ObjectTest where
  test := heap.isDead
  isCollectable := by
    intro v hv
    cases v <;> simp_all [isDead, Value.isCollectable]

/-- What the clearing by a marking leaves of a table under a mode. -/
structure Remains (m : Marking β) (mode : WeakMode) (t u : Table) : Prop where
  metatable : u.metatable = t.metatable
  weakMode : u.weakMode = mode
  getKey : ∀ k, u.getKey k =
    if Table.isDeadEntry mode m.heap.isDead k (t.getKey k) then .nil else t.getKey k
  entries : u.entries = t.entries.filter fun e =>
    !(mode.keys && m.heap.isDead e.1 || mode.values && m.heap.isDead e.2)

lemma remains_removeDead {t : Table} (m : Marking β) (mode : WeakMode) (ht : t.WellFormed) :
    Remains m mode t (Table.removeDead { t with weakMode := mode }
      (m.heap.deadEntries { t with weakMode := mode })) := by
  have hwt : ({ t with weakMode := mode } : Table).WellFormed := ht.congr rfl rfl rfl
  exact ⟨Table.metatable_removeDead _, Table.weakMode_removeDead _,
    hwt.getKey_removeDead mode m.heap.deadTest, hwt.entries_removeDead mode m.heap.deadTest⟩

/-- A table without a weak side is not cleared. -/
lemma remains_self (m : Marking β) {mode : WeakMode} (hstrong : mode.isWeak = false) (t : Table) :
    Remains m mode t { t with weakMode := mode } := by
  rw [WeakMode.isWeak, Bool.or_eq_false_iff] at hstrong
  refine ⟨rfl, rfl, fun k => ?_, ?_⟩
  · simp only [Table.isDeadEntry, hstrong, Bool.false_and, Bool.or_self, Bool.and_false]
    rfl
  · simp only [hstrong, Bool.false_and, Bool.or_self, Bool.not_false, List.filter_true]
    rfl

/-- **A marked table after the collection.** -/
lemma exists_remains {m : Marking β} {t : Table} (hw : heap.WellFormed)
    (hm : m.Invariant heap strings roots) (ht : heap.tables.get? h = some t)
    (hmarked : m.isMarked (.table h) = true) :
    ∃ u, (reclaim m).1.tables.get? h = some u ∧ Remains m (heap.modeOf strings t) t u := by
  obtain ⟨-, hmarks, -⟩ := foldl_clearWeak m.heap m.weak
  have hget := hm.get?_of_get? ht
  have hreclaim : (reclaim m).1.tables.get? h =
      if h ∈ m.weak then (m.heap.tables.get? h).map fun t => t.removeDead (m.heap.deadEntries t)
      else m.heap.tables.get? h := by
    rw [← get?_foldl_clearWeak _ hm.nodup, reclaim, sweep, Arena.get?_sweep, hmarks]
    exact if_pos hmarked
  rw [hreclaim, hget]
  by_cases hweak : h ∈ m.weak
  · rw [if_pos hweak]
    exact ⟨_, rfl, remains_removeDead m _ (hw.each h t ht)⟩
  · rw [if_neg hweak]
    have hstrong : (heap.modeOf strings t).isWeak = false := by
      by_contra hne
      exact hweak ((hm.weak h).2 ⟨hmarked, _, hget, (Bool.not_eq_false _).mp hne⟩)
    exact ⟨_, rfl, remains_self m hstrong t⟩

/-- A table that is left was there, and has its mark. -/
lemma remains_of_get? {m : Marking β} {u : Table} (hw : heap.WellFormed)
    (hm : m.Invariant heap strings roots) (hu : (reclaim m).1.tables.get? h = some u) :
    m.isMarked (.table h) = true ∧
      ∃ t, heap.tables.get? h = some t ∧ Remains m (heap.modeOf strings t) t u := by
  have hmarked : (reclaim m).1.isLive (reclaim m).2.1 (.table h) = true :=
    Arena.contains_of_get? hu
  rw [isLive_reclaim m rfl] at hmarked
  have hlive := isLive_of_isMarked hmarked
  rw [hm.isLive_eq] at hlive
  obtain ⟨t, ht⟩ := Arena.contains_iff.1 hlive
  obtain ⟨u', hu', hremains⟩ := exists_remains hw hm ht hmarked
  obtain rfl : u' = u := Option.some.inj (hu'.symm.trans hu)
  exact ⟨hmarked, t, ht, hremains⟩

/-- What is left of a table under a mode: its metatable, and both sides of the entries whose weak sides
have their marks. -/
def Leaves (m : Marking β) (t : Table) (mode : WeakMode) (w : Value) : Prop :=
  (∃ mt, t.metatable = some mt ∧ w = .table mt) ∨
    ∃ k v, (k, v) ∈ t.entries ∧ (w = k ∨ w = v) ∧
      (mode.keys = true → k.isCollectable = true → m.isMarked k = true) ∧
      (mode.values = true → v.isCollectable = true → m.isMarked v = true)

lemma Remains.leaves {m : Marking β} {mode : WeakMode} {t u : Table} (hu : Remains m mode t u)
    (hw : w ∈ u.stored) : Leaves m t mode w := by
  rcases mem_stored_table.1 hw with ⟨mt, hmt, rfl⟩ | ⟨k, v, hkv, hw⟩
  · exact Or.inl ⟨mt, hu.metatable ▸ hmt, rfl⟩
  · rw [hu.entries, List.mem_filter, Bool.not_eq_true', Bool.or_eq_false_iff] at hkv
    obtain ⟨hkv, hkey, hvalue⟩ := hkv
    refine Or.inr ⟨k, v, hkv, hw, fun hkeys hc => ?_, fun hvalues hc => ?_⟩
    · simpa [hkeys, Marking.isDead_eq, hc] using hkey
    · simpa [hvalues, Marking.isDead_eq, hc] using hvalue

/-- An entry whose weak sides are reached is reached. -/
lemma Reachable.entry {t : Table} {k : Value} (hreach : heap.Reachable strings roots (.table h))
    (ht : heap.tables.get? h = some t) (hkv : (k, v) ∈ t.entries)
    (hk : (heap.modeOf strings t).keys = true → k.isCollectable = true →
      heap.Reachable strings roots k)
    (hv : (heap.modeOf strings t).values = true → v.isCollectable = true →
      heap.Reachable strings roots v) :
    heap.Reachable strings roots k ∧ heap.Reachable strings roots v := by
  have hkey : heap.Reachable strings roots k := by
    by_cases hweak : (heap.modeOf strings t).keys = false ∨ k.isCollectable = false
    · exact hreach.key ht hkv hweak
    · simp only [not_or, Bool.not_eq_false] at hweak
      exact hk hweak.1 hweak.2
  refine ⟨hkey, ?_⟩
  by_cases hweak : (heap.modeOf strings t).values = false ∨ v.isCollectable = false
  · exact hreach.behindKey ht hkv hkey hweak
  · simp only [not_or, Bool.not_eq_false] at hweak
    exact hv hweak.1 hweak.2

/-- Where marks are what is reached, what is left of a reached table is reached. -/
lemma Reachable.leaves {m : Marking β} {t : Table}
    (hreach : heap.Reachable strings roots (.table h)) (ht : heap.tables.get? h = some t)
    (hmarks : m.Exact heap strings roots) (hw : Leaves m t (heap.modeOf strings t) w) :
    heap.Reachable strings roots w := by
  have hmark : ∀ x, x.isCollectable = true → m.isMarked x = true → heap.Reachable strings roots x :=
    fun x hx => (hmarks x (Value.isReference_of_isCollectable hx)).1
  rcases hw with ⟨mt, hmt, rfl⟩ | ⟨k, v, hkv, hwkv, hk, hv⟩
  · exact hreach.metatable ht hmt
  · obtain ⟨hrk, hrv⟩ := hreach.entry ht hkv (fun hkeys hc => hmark k hc (hk hkeys hc))
      fun hvals hc => hmark v hc (hv hvals hc)
    rcases hwkv with rfl | rfl
    · exact hrk
    · exact hrv

/-- **A collection leaves a closed heap closed.** -/
theorem Closed.reclaim {m : Marking β} (hw : heap.WellFormed)
    (hm : m.Invariant heap strings roots) (hmarks : m.Exact heap strings roots) :
    (reclaim m).1.Closed (reclaim m).2.1 := by
  obtain ⟨-, -, hf, hu, hth⟩ := foldl_clearWeak m.heap m.weak
  intro v w hstored
  by_cases href : w.isReference = true
  · rw [isLive_reclaim m href, hmarks w href]
    -- outside of tables nothing is cleared
    have hother : ∀ v, v.isReference = true → m.isMarked v = true → w ∈ m.heap.references v →
        heap.Reachable strings roots w := by
      intro v hv hmv hwv
      exact ((hmarks v hv).1 hmv).of_references (hm.references_eq v ▸ hwv)
    cases v with
    | table h =>
      cases hu : (Heap.reclaim m).1.tables.get? h with
      | none => simp [stored, hu] at hstored
      | some u =>
        obtain ⟨hmh, t, ht, hremains⟩ := remains_of_get? hw hm hu
        simp only [stored, hu, Option.map_some, Option.getD_some] at hstored
        exact ((hmarks (.table h) rfl).1 hmh).leaves ht hmarks (hremains.leaves hstored)
    | function h =>
      simp only [stored, Heap.reclaim, Heap.sweep, Arena.get?_sweep, hf] at hstored
      split at hstored
      · next hmh => exact hother (.function h) rfl hmh hstored
      · simp at hstored
    | userdata h =>
      simp only [stored, Heap.reclaim, Heap.sweep, Arena.get?_sweep, hu] at hstored
      split at hstored
      · next hmh =>
        refine hother (.userdata h) rfl hmh ?_
        cases hget : m.heap.userdata.get? h with
        | none => simp [hget] at hstored
        | some u => cases hmt : u.metatable <;> simp_all [references, Userdata.stored]
      · simp at hstored
    | thread h =>
      simp only [stored, Heap.reclaim, Heap.sweep, Arena.get?_sweep, hth] at hstored
      split at hstored
      · next hmh => exact hother (.thread h) rfl hmh hstored
      · simp at hstored
    | _ => simp [stored] at hstored
  · exact isLive_of_not_isReference (by simpa using href)

end Heap

end LuaCore
