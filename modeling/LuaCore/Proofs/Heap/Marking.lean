import LuaCore.Proofs.Heap.Reachable

/-!
Marking reaches exactly what the roots reach.

While marking goes on, what has a mark is reachable, and so is what waits; and what a marked object
keeps alive by itself has a mark or waits.  When nothing waits and a round over the tables with weak
keys finds nothing, the marked objects are a closed set, so they are all that is reachable.  On a
closed heap every round that finds something marks something, so the rounds end.
-/

namespace LuaCore

namespace Heap

variable {β : Type} {heap heap' : Heap β} {strings strings' : Interner} {v w : Value}

/-! ### Marks and objects -/

@[simp] lemma isLive_clearMarks :
    heap.clearMarks.isLive strings.clearMarks v = heap.isLive strings v := by
  cases v <;> simp [isLive, clearMarks]

lemma isMarked_clearMarks (hv : v.isReference = true) :
    heap.clearMarks.isMarked strings.clearMarks v = false := by
  cases v <;> simp_all [isMarked, clearMarks, Value.isReference, Value.isCollectable]

@[simp] lemma references_clearMarks : heap.clearMarks.references v = heap.references v := by
  cases v <;> simp [references, clearMarks]

@[simp] lemma stored_clearMarks : heap.clearMarks.stored v = heap.stored v := by
  cases v <;> simp [stored, clearMarks]

@[simp] lemma clearMarks_clearMarks : heap.clearMarks.clearMarks = heap.clearMarks := by
  simp [clearMarks]

@[simp] lemma modeOf_clearMarks (t : Table) :
    heap.clearMarks.modeOf strings.clearMarks t = heap.modeOf strings t := by
  have htables : heap.clearMarks.tables.get? = heap.tables.get? :=
    funext fun h => Arena.get?_clearMarks
  have hstrings : strings.clearMarks.get? = strings.get? := funext fun h => Interner.get?_clearMarks
  simp only [modeOf, modeText?, Interner.find?_clearMarks, htables, hstrings]

/-- Heaps that are the same without their marks. -/
lemma isLive_eq_of_clearMarks (hh : heap'.clearMarks = heap.clearMarks)
    (hs : strings'.clearMarks = strings.clearMarks) (v : Value) :
    heap'.isLive strings' v = heap.isLive strings v := by
  rw [← isLive_clearMarks, hh, hs, isLive_clearMarks]

lemma references_eq_of_clearMarks (hh : heap'.clearMarks = heap.clearMarks) (v : Value) :
    heap'.references v = heap.references v := by
  rw [← references_clearMarks, hh, references_clearMarks]

lemma get?_tables_eq_of_clearMarks (hh : heap'.clearMarks = heap.clearMarks) (h : Handle) :
    heap'.tables.get? h = heap.tables.get? h :=
  Arena.get?_eq_of_clearMarks (congrArg Heap.tables hh) h

/-- What is live and cannot be marked has its mark. -/
lemma isMarked_of_mark?_eq_none (hm : heap.mark? strings v = none)
    (hv : heap.isLive strings v = true) : heap.isMarked strings v = true := by
  cases v <;> simp_all [mark?, isMarked, isLive, Arena.mark?_eq_none_iff,
    Interner.mark?_eq_none_iff]

/-- What has a mark is live. -/
lemma isLive_of_isMarked (hm : heap.isMarked strings v = true) : heap.isLive strings v = true := by
  cases v with
  | string h | table h | function h | userdata h | thread h => exact Arena.contains_of_isMarked hm
  | _ => rfl

/-- **Marking the object of a value**: it was there without a mark, has one now, and nothing else is
different. -/
lemma mark?_eq_some (hm : heap.mark? strings v = some (heap', strings')) :
    v.isReference = true ∧ heap.isLive strings v = true ∧ heap.isMarked strings v = false ∧
      heap'.clearMarks = heap.clearMarks ∧ strings'.clearMarks = strings.clearMarks ∧
      ∀ w, heap'.isMarked strings' w = (decide (w = v) || heap.isMarked strings w) := by
  cases v <;> simp only [mark?, Option.map_eq_some_iff, Prod.mk.injEq, reduceCtorEq] at hm
  case string h =>
    obtain ⟨a, ha, rfl, rfl⟩ := hm
    obtain ⟨hc, hfresh, hsame, hmarks⟩ := Interner.mark?_eq_some ha
    refine ⟨rfl, hc, hfresh, rfl, hsame, fun w => ?_⟩
    cases w <;> simp [isMarked, hmarks]
  all_goals
    obtain ⟨a, ha, rfl, rfl⟩ := hm
    obtain ⟨hc, hfresh, hsame, hmarks⟩ := Arena.mark?_eq_some ha
    refine ⟨rfl, hc, hfresh, by simp [clearMarks, hsame], rfl, fun w => ?_⟩
    cases w <;> simp [isMarked, hmarks]

end Heap

namespace Marking

variable {β : Type} {m : Marking β} {heap : Heap β} {strings : Interner} {roots : List Value}
  {v w : Value} {h : Handle}

/-- Whether a value has its mark. -/
def isMarked (m : Marking β) (v : Value) : Bool := m.heap.isMarked m.strings v

lemma isDead_eq (v : Value) : m.heap.isDead v = (v.isCollectable && !m.isMarked v) := by
  cases v <;> simp [Heap.isDead, isMarked, Heap.isMarked, Value.isCollectable]

/-! ### One object -/

lemma gray_scan : (m.scan v).gray = (m.heap.references v).reverse ++ m.gray := by
  cases v <;> simp only [scan, push]
  split <;> rfl

lemma isMarked_scan : (m.scan v).isMarked w = m.isMarked w := by
  simp [isMarked]

/-- A table that is looked through is listed if it is weak. -/
lemma mem_scan :
    (h ∈ (m.scan v).weak ↔ h ∈ m.weak ∨
      v = .table h ∧ ∃ t, m.heap.tables.get? h = some t ∧ t.weakMode.isWeak = true) ∧
    (h ∈ (m.scan v).ephemerons ↔ h ∈ m.ephemerons ∨
      v = .table h ∧ ∃ t, m.heap.tables.get? h = some t ∧ t.weakMode.keys = true) := by
  cases v <;> simp only [scan, push, reduceCtorEq, false_and, or_false, Value.table.injEq, and_self]
  case table j =>
    by_cases hjh : j = h
    · subst hjh
      cases hj : m.heap.tables.get? j with
      | none => simp
      | some t =>
        constructor
        · by_cases hw : t.weakMode.isWeak = true <;> simp [note, hw]
        · by_cases hk : t.weakMode.keys = true <;> simp [note, hk]
    · have hne : h ≠ j := Ne.symm hjh
      cases m.heap.tables.get? j with
      | none => simp [hjh]
      | some t =>
        constructor
        · by_cases hw : t.weakMode.isWeak = true <;> simp [note, hw, hjh, hne]
        · by_cases hk : t.weakMode.keys = true <;> simp [note, hk, hjh, hne]

lemma nodup_scan (hm : m.weak.Nodup) (hv : ∀ h, v = .table h → h ∉ m.weak) :
    (m.scan v).weak.Nodup := by
  cases v <;> simp only [scan, push]
  case table j =>
    cases m.heap.tables.get? j with
    | none => exact hm
    | some t =>
      simp only [note]
      split
      · exact List.nodup_append'.2 ⟨hm, List.nodup_singleton j, by simpa using hv j rfl⟩
      · exact hm
  all_goals exact hm

/-! ### The invariant -/

/-- **What holds all through a marking.**  The objects are those of the heap.  What has a mark or waits
is reachable.  What is live and is a root, or is kept alive by a marked object, has a mark or waits.
The lists hold the weak tables with a mark, and none of them twice. -/
structure Invariant (m : Marking β) (heap : Heap β) (strings : Interner) (roots : List Value) :
    Prop where
  heap_eq : m.heap.clearMarks = (heap.withModes strings).clearMarks
  strings_eq : m.strings.clearMarks = strings.clearMarks
  reachable : ∀ v, v.isReference = true → m.isMarked v = true → heap.Reachable strings roots v
  waiting : ∀ v ∈ m.gray, heap.isLive strings v = true → heap.Reachable strings roots v
  root : ∀ v ∈ roots, heap.isLive strings v = true → m.isMarked v = true ∨ v ∈ m.gray
  reference : ∀ v, v.isReference = true → m.isMarked v = true →
    ∀ w ∈ m.heap.references v, heap.isLive strings w = true → m.isMarked w = true ∨ w ∈ m.gray
  weak : ∀ h, h ∈ m.weak ↔ m.isMarked (.table h) = true ∧
    ∃ t, m.heap.tables.get? h = some t ∧ t.weakMode.isWeak = true
  ephemerons : ∀ h, h ∈ m.ephemerons ↔ m.isMarked (.table h) = true ∧
    ∃ t, m.heap.tables.get? h = some t ∧ t.weakMode.keys = true
  nodup : m.weak.Nodup

namespace Invariant

lemma isLive_eq (hm : m.Invariant heap strings roots) (v : Value) :
    m.heap.isLive m.strings v = heap.isLive strings v := by
  rw [Heap.isLive_eq_of_clearMarks hm.heap_eq hm.strings_eq, Heap.isLive_withModes]

lemma references_eq (hm : m.Invariant heap strings roots) (v : Value) :
    m.heap.references v = (heap.withModes strings).references v :=
  Heap.references_eq_of_clearMarks hm.heap_eq v

lemma get?_eq (hm : m.Invariant heap strings roots) (h : Handle) :
    m.heap.tables.get? h = (heap.withModes strings).tables.get? h :=
  Heap.get?_tables_eq_of_clearMarks hm.heap_eq h

/-- The tables of a marking are under their modes. -/
lemma get?_eq_some_iff (hm : m.Invariant heap strings roots) {t' : Table} :
    m.heap.tables.get? h = some t' ↔
      ∃ t, heap.tables.get? h = some t ∧ { t with weakMode := heap.modeOf strings t } = t' := by
  rw [hm.get?_eq, Heap.get?_tables_withModes, Option.map_eq_some_iff]

lemma get?_of_get? (hm : m.Invariant heap strings roots) {t : Table}
    (ht : heap.tables.get? h = some t) :
    m.heap.tables.get? h = some { t with weakMode := heap.modeOf strings t } :=
  hm.get?_eq_some_iff.2 ⟨t, ht, rfl⟩

/-- Before anything is marked. -/
lemma start (heap : Heap β) (strings : Interner) (roots : List Value) :
    ({ heap := (heap.withModes strings).clearMarks, strings := strings.clearMarks,
       gray := roots.reverse } : Marking β).Invariant heap strings roots where
  heap_eq := Heap.clearMarks_clearMarks
  strings_eq := Interner.clearMarks_clearMarks
  reachable v hv hmarked := by simp [isMarked, Heap.isMarked_clearMarks hv] at hmarked
  waiting v hv hlive := .root (List.mem_reverse.1 hv) hlive
  root v hv _ := Or.inr (List.mem_reverse.2 hv)
  reference v hv hmarked := by simp [isMarked, Heap.isMarked_clearMarks hv] at hmarked
  weak h := by simp [isMarked, Heap.isMarked, Heap.clearMarks]
  ephemerons h := by simp [isMarked, Heap.isMarked, Heap.clearMarks]
  nodup := List.nodup_nil

/-- Taking a value from those that wait, if there is nothing to mark. -/
lemma drop (hm : m.Invariant heap strings roots) {rest : List Value} (hg : m.gray = v :: rest)
    (hnone : m.heap.mark? m.strings v = none) :
    ({ m with gray := rest } : Marking β).Invariant heap strings roots := by
  -- where `v` was waiting, it has its mark
  have hdone : ∀ w, heap.isLive strings w = true → m.isMarked w = true ∨ w ∈ m.gray →
      m.isMarked w = true ∨ w ∈ rest := by
    intro w hlive hw
    rw [hg, List.mem_cons] at hw
    rcases hw with hw | rfl | hw
    · exact Or.inl hw
    · exact Or.inl (Heap.isMarked_of_mark?_eq_none hnone (by rw [hm.isLive_eq]; exact hlive))
    · exact Or.inr hw
  exact { hm with
    waiting := fun w hw => hm.waiting w (by rw [hg]; exact List.mem_cons_of_mem _ hw)
    root := fun w hw hlive => hdone w hlive (hm.root w hw hlive)
    reference := fun u hu hmarked w hw hlive =>
      hdone w hlive (hm.reference u hu hmarked w hw hlive) }

/-- Marking a value that waits, and looking through its object. -/
lemma scan (hm : m.Invariant heap strings roots) {rest : List Value} (hg : m.gray = v :: rest)
    {heap' : Heap β} {strings' : Interner}
    (hsome : m.heap.mark? m.strings v = some (heap', strings')) :
    (Marking.scan { m with heap := heap', strings := strings', gray := rest } v).Invariant
      heap strings roots := by
  obtain ⟨hv, hlive, hfresh, hheap, hstrings, hmarks⟩ := Heap.mark?_eq_some hsome
  rw [hm.isLive_eq] at hlive
  have hreach : heap.Reachable strings roots v := hm.waiting v (by simp [hg]) hlive
  have href : ∀ w, heap'.references w = m.heap.references w :=
    Heap.references_eq_of_clearMarks hheap
  have hget : ∀ h, heap'.tables.get? h = m.heap.tables.get? h :=
    Heap.get?_tables_eq_of_clearMarks hheap
  have hmarked : ∀ w, (Marking.scan { m with heap := heap', strings := strings', gray := rest }
      v).isMarked w = true ↔ w = v ∨ m.isMarked w = true := by
    intro w
    rw [isMarked_scan]
    simp [isMarked, hmarks]
  have hgray : (Marking.scan { m with heap := heap', strings := strings', gray := rest } v).gray =
      (m.heap.references v).reverse ++ rest := by
    rw [gray_scan, href]
  -- what was waiting or marked still is; `v` has its mark now
  have hdone : ∀ w, m.isMarked w = true ∨ w ∈ m.gray →
      (w = v ∨ m.isMarked w = true) ∨ w ∈ (m.heap.references v).reverse ++ rest := by
    intro w hw
    rw [hg, List.mem_cons] at hw
    rcases hw with hw | hw | hw
    · exact Or.inl (Or.inr hw)
    · exact Or.inl (Or.inl hw)
    · exact Or.inr (List.mem_append_right _ hw)
  refine ⟨?_, ?_, fun w hw hmw => ?_, fun w hw hl => ?_, fun w hw hl => ?_, fun u hu hmu w hw hl => ?_,
    fun h => ?_, fun h => ?_, nodup_scan hm.nodup fun h hvh hh => ?_⟩
  · rw [heap_scan, hheap, hm.heap_eq]
  · rw [strings_scan, hstrings, hm.strings_eq]
  · rcases (hmarked w).1 hmw with rfl | hmw
    · exact hreach
    · exact hm.reachable w hw hmw
  · rw [hgray, List.mem_append, List.mem_reverse] at hw
    rcases hw with hw | hw
    · exact hreach.of_references (hm.references_eq v ▸ hw)
    · exact hm.waiting w (by rw [hg]; exact List.mem_cons_of_mem _ hw) hl
  · rw [hmarked, hgray]
    exact hdone w (hm.root w hw hl)
  · rw [heap_scan, href] at hw
    rw [hmarked, hgray]
    rcases (hmarked u).1 hmu with rfl | hmu
    · exact Or.inr (List.mem_append_left _ (List.mem_reverse.2 hw))
    · exact hdone w (hm.reference u hu hmu w hw hl)
  · rw [mem_scan.1, hmarked, heap_scan]
    simp only [hget, hm.weak, ← or_and_right, or_comm, eq_comm]
  · rw [mem_scan.2, hmarked, heap_scan]
    simp only [hget, hm.ephemerons, ← or_and_right, or_comm, eq_comm]
  · have := ((hm.weak h).1 hh).1
    rw [← hvh, isMarked, hfresh] at this
    exact Bool.false_ne_true this

/-- **Marking until nothing waits** keeps the invariant. -/
theorem propagate (hm : m.Invariant heap strings roots) :
    m.propagate.Invariant heap strings roots ∧ m.propagate.gray = [] := by
  fun_induction Marking.propagate m with
  | case1 m hg => exact ⟨hm, hg⟩
  | case2 m v rest hg hrest hnone ih => exact ih (hm.drop hg hnone)
  | case3 m v rest hg hrest heap' strings' hsome hfewer ih => exact ih (hm.scan hg hsome)

end Invariant

/-! ### Rounds -/

lemma unmarked_propagate_le (m : Marking β) : m.propagate.unmarked ≤ m.unmarked := by
  fun_induction propagate m with
  | case1 m hg => exact Nat.le_refl _
  | case2 m v rest hg hrest hnone ih => exact ih
  | case3 m v rest hg hrest heap' strings' hsome hfewer ih =>
    simp only [unmarked, heap_scan, strings_scan] at ih ⊢
    omega

/-- If something that waits can be marked, fewer objects are left without a mark. -/
lemma unmarked_propagate_lt (hv : v ∈ m.gray) (hmark : m.heap.mark? m.strings v ≠ none) :
    m.propagate.unmarked < m.unmarked := by
  fun_induction propagate m with
  | case1 m hg => simp [hg] at hv
  | case2 m u rest hg hrest hnone ih =>
    rw [hg, List.mem_cons] at hv
    rcases hv with rfl | hv
    · exact absurd hnone hmark
    · exact ih hv hmark
  | case3 m u rest hg hrest heap' strings' hsome hfewer ih =>
    have hle := unmarked_propagate_le
      (scan { m with heap := heap', strings := strings', gray := rest } u)
    simp only [unmarked, heap_scan, strings_scan] at hle ⊢
    omega

/-- What a round finds: values without a mark behind keys that are reached. -/
lemma mem_found :
    v ∈ m.found ↔ ∃ h ∈ m.ephemerons, ∃ t, m.heap.tables.get? h = some t ∧
      ∃ k, (k, v) ∈ t.entries ∧ m.heap.isDead k = false ∧ m.isMarked v = false ∧
        (t.weakMode.values = false ∨ v.isCollectable = false) := by
  simp only [found, List.mem_flatMap]
  refine exists_congr fun h => and_congr_right fun _ => ?_
  cases m.heap.tables.get? h with
  | none => simp
  | some t =>
    simp only [Option.map_some, Option.getD_some, released, List.mem_filterMap, Prod.exists,
      Option.some_inj, exists_eq_left', isMarked]
    constructor
    · rintro ⟨k, u, hku, hif⟩
      split at hif
      · simp at hif
      · next hcond =>
        split at hif
        · next hval =>
          cases hif
          simp only [Bool.or_eq_true, not_or, Bool.not_eq_true] at hcond
          exact ⟨k, hku, hcond.1, hcond.2, by simpa using hval⟩
        · simp at hif
    · rintro ⟨k, hkv, hdead, hmarked, hval⟩
      refine ⟨k, v, hkv, ?_⟩
      rw [if_neg (by simp [hdead, hmarked]), if_pos (by simpa using hval)]

namespace Invariant

/-- What a round finds is reachable, as far as it is live. -/
lemma push_found (hm : m.Invariant heap strings roots) :
    (m.push m.found).Invariant heap strings roots := by
  refine { hm with
    waiting := fun v hv hlive => ?_
    root := fun v hv hlive => (hm.root v hv hlive).imp_right (List.mem_append_right _)
    reference := fun u hu hmarked w hw hlive =>
      (hm.reference u hu hmarked w hw hlive).imp_right (List.mem_append_right _) }
  simp only [push, List.mem_append, List.mem_reverse] at hv
  rcases hv with hv | hv
  · obtain ⟨h, hh, t, ht, k, hkv, hdead, -, hval⟩ := mem_found.1 hv
    obtain ⟨hmarked, -⟩ := (hm.ephemerons h).1 hh
    have htable : heap.Reachable strings roots (.table h) := hm.reachable _ rfl hmarked
    rw [hm.get?_eq_some_iff] at ht
    obtain ⟨t, ht, rfl⟩ := ht
    by_cases hk : k.isCollectable = true
    · have hreached : heap.Reachable strings roots k := by
        refine hm.reachable k (Value.isReference_of_isCollectable hk) ?_
        simpa [isDead_eq, hk] using hdead
      exact htable.behindKey ht hkv hreached hval
    · exact htable.value ht hkv (Or.inr (by simpa using hk)) hval
  · exact hm.waiting v hv hlive

/-- A round keeps the invariant. -/
lemma round (hm : m.Invariant heap strings roots) :
    m.round.Invariant heap strings roots ∧ m.round.gray = [] :=
  hm.push_found.propagate

/-- What is stored in a table met while marking is live, on a closed heap. -/
lemma isLive_of_mem_entries (hm : m.Invariant heap strings roots) (hclosed : heap.Closed strings)
    {t : Table} {k : Value} (ht : m.heap.tables.get? h = some t) (hkv : (k, v) ∈ t.entries) :
    heap.isLive strings v = true := by
  refine hclosed (.table h) v ?_
  rw [← Heap.stored_withModes strings, Heap.stored, ← hm.get?_eq, ht]
  exact Heap.mem_stored_table.2 (Or.inr ⟨k, v, hkv, Or.inr rfl⟩)

/-- A round that finds something live marks something. -/
lemma unmarked_round_of_live (hm : m.Invariant heap strings roots) (hv : v ∈ m.found)
    (hlive : heap.isLive strings v = true) : m.round.unmarked < m.unmarked := by
  obtain ⟨-, -, -, -, -, -, -, hmarked, -⟩ := mem_found.1 hv
  rw [← hm.isLive_eq] at hlive
  refine unmarked_propagate_lt (m := m.push m.found) (v := v) ?_ fun hnone => ?_
  · exact List.mem_append_left _ (List.mem_reverse.2 hv)
  · have := Heap.isMarked_of_mark?_eq_none hnone hlive
    simp [isMarked] at hmarked
    simp [push, hmarked] at this

/-- On a closed heap a round that finds something marks something. -/
lemma unmarked_round (hm : m.Invariant heap strings roots) (hclosed : heap.Closed strings)
    (hfound : m.found ≠ []) : m.round.unmarked < m.unmarked := by
  obtain ⟨v, hv⟩ := List.exists_mem_of_ne_nil _ hfound
  obtain ⟨h, -, t, ht, k, hkv, -, -, -⟩ := mem_found.1 hv
  exact hm.unmarked_round_of_live hv (hm.isLive_of_mem_entries hclosed ht hkv)

/-- **Rounds until one finds nothing** keep the invariant. -/
theorem settle (hm : m.Invariant heap strings roots) (hg : m.gray = [])
    (hclosed : heap.Closed strings) :
    ∃ n, m.settle = some n ∧ n.Invariant heap strings roots ∧ n.gray = [] ∧ n.found = [] := by
  fun_induction Marking.settle m with
  | case1 m hfound => exact ⟨m, rfl, hm, hg, List.isEmpty_iff.1 hfound⟩
  | case2 m hfound hless ih => exact ih hm.round.1 hm.round.2
  | case3 m hfound hless =>
    exact absurd (hm.unmarked_round hclosed (by simpa using hfound)) hless

/-- Rounds that come to an end keep the invariant on any heap. -/
lemma of_settle {n : Marking β} (hm : m.Invariant heap strings roots) (hg : m.gray = [])
    (hn : m.settle = some n) : n.Invariant heap strings roots ∧ n.gray = [] := by
  fun_induction Marking.settle m with
  | case1 m hfound =>
    cases hn
    exact ⟨hm, hg⟩
  | case2 m hfound hless ih => exact ih hm.round.1 hm.round.2 hn
  | case3 m hfound hless => cases hn

/-- **When nothing is left to find, the marks are on what is reachable.** -/
theorem isMarked_iff (hm : m.Invariant heap strings roots) (hg : m.gray = [])
    (hfound : m.found = []) (hclosed : heap.Closed strings) (hv : v.isReference = true) :
    m.isMarked v = true ↔ heap.Reachable strings roots v := by
  refine ⟨hm.reachable v hv, fun h => h.mem_of_closed (P := fun v => m.isMarked v = true) ?_ ?_ ?_⟩
  · intro v hv hlive
    simpa [hg] using hm.root v hv hlive
  · intro v hmarked w hw
    rw [← hm.references_eq] at hw
    have hlive : heap.isLive strings w = true := by
      refine hclosed v w ?_
      rw [← Heap.stored_withModes strings]
      exact Heap.mem_stored_of_mem_references (hm.references_eq v ▸ hw)
    by_cases hv : v.isReference = true
    · simpa [hg] using hm.reference v hv hmarked w hw hlive
    · cases v <;> simp_all [Value.isReference, Value.isCollectable, Heap.references]
  · intro h t k v htable ht hkv hkeys hk hkmarked hval
    rw [← hm.get?_eq] at ht
    by_contra hmarked
    -- a value without a mark behind a key with one would have been found
    have hv : v ∈ m.found := by
      refine mem_found.2 ⟨h, (hm.ephemerons h).2 ⟨htable, t, ht, hkeys⟩, t, ht, k, hkv, ?_, ?_, hval⟩
      · simpa [isDead_eq, hk] using hkmarked
      · simpa using hmarked
    simp [hfound] at hv

end Invariant

/-- The marks are on what is reachable. -/
def Exact (m : Marking β) (heap : Heap β) (strings : Interner) (roots : List Value) : Prop :=
  ∀ v, v.isReference = true → (m.isMarked v = true ↔ heap.Reachable strings roots v)

end Marking

end LuaCore
