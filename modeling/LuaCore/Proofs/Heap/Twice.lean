import LuaCore.Proofs.Heap.Frame

/-!
A collection after a collection.

A collection keeps what is reached on the heap as it was before, and entries go only afterwards.  So
the key of an entry that goes for its weak value is kept by an entry that is not there any more, and
the next collection may free it.  Main statement: a second collection from the same roots does nothing
exactly if no such key is left behind.
-/

namespace LuaCore

/-- Nothing freed, and no entry removed. -/
def CollectStats.zero : CollectStats := ⟨0, 0, 0, 0, 0, 0⟩

namespace Heap

variable {β : Type} {heap heap' : Heap β} {strings strings' : Interner} {roots : List Value}
  {stats : CollectStats} {m : Marking β} {t u : Table} {k v : Value} {h : Handle}

/-! ### Collections that count nothing -/

/-- Every table is under the mode that its metatable declares. -/
def Refreshed (heap : Heap β) (strings : Interner) : Prop :=
  ∀ h t, heap.tables.get? h = some t → t.weakMode = heap.modeOf strings t

lemma Refreshed.withModes_eq (hr : heap.Refreshed strings) : heap.withModes strings = heap := by
  have htables : heap.tables.map (fun t => { t with weakMode := heap.modeOf strings t }) =
      heap.tables := by
    refine Arena.map_eq_self fun h t ht => ?_
    rw [← hr h t ht]
  rw [withModes, htables]

/-- Where no entry of a table is dead, clearing it changes nothing. -/
lemma clearWeak_eq_self (hw : heap.WellFormed) (hcount : heap.deadCount h = 0) :
    heap.clearWeak h = heap := by
  have htables : heap.tables.modify h (fun t => t.removeDead (heap.deadEntries t)) =
      heap.tables := by
    refine Arena.modify_eq_self fun t ht => ?_
    have hsize : (heap.deadEntries t).size = 0 := by simpa [deadCount, ht] using hcount
    exact (hw.each h t ht).toConsistent.removeDead_eq_self hsize
  rw [clearWeak, htables]

lemma foldl_clearWeak_eq_self (hw : heap.WellFormed) {l : List Handle}
    (hcount : ∀ h ∈ l, heap.deadCount h = 0) : l.foldl clearWeak heap = heap := by
  induction l with
  | nil => rfl
  | cons h l ih =>
    rw [List.foldl_cons, clearWeak_eq_self hw (hcount h List.mem_cons_self)]
    exact ih fun j hj => hcount j (List.mem_cons_of_mem _ hj)

/-- **Where nothing is counted, nothing is freed or removed.** -/
lemma reclaim_eq_self (hw : m.heap.WellFormed) (hzero : (reclaim m).2.2 = .zero) :
    (reclaim m).1 = m.heap ∧ (reclaim m).2.1 = m.strings := by
  have hcleared : m.weak.foldl clearWeak m.heap = m.heap := by
    have hweak : (reclaim m).2.2.weakEntries = 0 := congrArg CollectStats.weakEntries hzero
    rw [reclaim, foldl_deadCount, Nat.zero_add, List.length_eq_zero_iff] at hweak
    refine foldl_clearWeak_eq_self hw fun h hh => ?_
    rw [deadCount_eq, List.flatMap_eq_nil_iff.1 hweak h hh, List.length_nil]
  simp only [reclaim, hcleared, CollectStats.zero, CollectStats.mk.injEq,
    List.length_eq_zero_iff] at hzero
  obtain ⟨htables, hfunctions, huserdata, hthreads, hstrings, -⟩ := hzero
  refine ⟨?_, Interner.sweep_eq_self hstrings⟩
  simp only [reclaim, hcleared, sweep, Arena.sweep_eq_self htables, Arena.sweep_eq_self hfunctions,
    Arena.sweep_eq_self huserdata, Arena.sweep_eq_self hthreads]

/-! ### What is known of a collection -/

/-- **What is known of a collection of a closed heap.** -/
structure Collected (heap : Heap β) (strings : Interner) (roots : List Value) (heap' : Heap β)
    (strings' : Interner) (stats : CollectStats) : Prop where
  wellFormed : heap'.WellFormed
  strings_wellFormed : strings'.WellFormed
  closed : heap'.Closed strings'
  isLive : ∀ v, heap'.isLive strings' v = true → heap.isLive strings v = true
  isLive_iff : ∀ v, v.isReference = true →
    (heap'.isLive strings' v = true ↔ heap.Reachable strings roots v)
  keeps : heap.KeepsContents strings roots heap' strings'
  counts : heap.CountsUnreachable strings roots stats
  weakEntries : stats.weakEntries = (heap.lost strings roots).ncard
  /-- A heap under its modes is left as it was if nothing is counted. -/
  unchanged : heap.Refreshed strings → stats = .zero →
    heap'.clearMarks = heap.clearMarks ∧ strings'.clearMarks = strings.clearMarks

lemma exists_collected (hw : heap.WellFormed) (hs : strings.WellFormed)
    (hclosed : heap.Closed strings) (roots : List Value) :
    ∃ heap' strings' stats, heap.collect strings roots = .ok (heap', strings', stats) ∧
      heap.Collected strings roots heap' strings' stats := by
  obtain ⟨m, hmark, hm, hmarks⟩ := hclosed.markFrom roots
  refine ⟨(reclaim m).1, (reclaim m).2.1, (reclaim m).2.2, by rw [collect, hmark]; rfl, ?_⟩
  exact
    { wellFormed := hw.reclaim hm
      strings_wellFormed := (hs.of_clearMarks hm.strings_eq).sweep
      closed := Closed.reclaim hw hm hmarks
      isLive := by
        intro v hv
        by_cases href : v.isReference = true
        · rw [isLive_reclaim m href] at hv
          exact hm.isLive_eq v ▸ isLive_of_isMarked hv
        · exact isLive_of_not_isReference (by simpa using href)
      isLive_iff := fun v hv => by rw [isLive_reclaim m hv]; exact hmarks v hv
      keeps := keepsContents_reclaim hw hs hm hmarks
      counts := countsUnreachable_reclaim hm hmarks
      weakEntries := weakEntries_reclaim hw hm hmarks
      unchanged := by
        intro hr hzero
        obtain ⟨hheap, hstrings⟩ := reclaim_eq_self (hw.withModes.of_clearMarks hm.heap_eq) hzero
        rw [hheap, hstrings, hm.heap_eq, hm.strings_eq, hr.withModes_eq]
        exact ⟨rfl, rfl⟩ }

/-- A table that is left, before the collection. -/
lemma KeepsContents.exists_before (hk : heap.KeepsContents strings roots heap' strings')
    (hu : heap'.tables.get? h = some u) :
    ∃ t, heap.tables.get? h = some t ∧ heap.KeepsTable strings roots t u ∧
      heap'.modeOf strings' u = heap.modeOf strings t := by
  obtain ⟨hc, -⟩ := (hk.tables h).1 (Arena.contains_of_get? hu)
  obtain ⟨t, ht⟩ := Arena.contains_iff.1 hc
  have hkeeps := hk.table h t u ht hu
  exact ⟨t, ht, hkeeps, (hk.modes h u hu).symm.trans hkeeps.weakMode⟩

/-- A table that is reached, after the collection. -/
lemma KeepsContents.exists_after (hk : heap.KeepsContents strings roots heap' strings')
    (ht : heap.tables.get? h = some t) (hreach : heap.Reachable strings roots (.table h)) :
    ∃ u, heap'.tables.get? h = some u ∧ heap.KeepsTable strings roots t u ∧
      heap'.modeOf strings' u = heap.modeOf strings t := by
  obtain ⟨u, hu⟩ := Arena.contains_iff.1 ((hk.tables h).2 ⟨Arena.contains_of_get? ht, hreach⟩)
  have hkeeps := hk.table h t u ht hu
  exact ⟨u, hu, hkeeps, (hk.modes h u hu).symm.trans hkeeps.weakMode⟩

/-! ### Reached without the entries that go -/

/-- **What the roots reach without the entries that go.** -/
inductive Anchored (heap : Heap β) (strings : Interner) (roots : List Value) : Value → Prop where
  | root {v : Value} : v ∈ roots → heap.isLive strings v = true → Anchored heap strings roots v
  | metatable {h mt : Handle} {t : Table} :
      Anchored heap strings roots (.table h) → heap.tables.get? h = some t →
      t.metatable = some mt → Anchored heap strings roots (.table mt)
  | userMetatable {h mt : Handle} {u : Userdata} :
      Anchored heap strings roots (.userdata h) → heap.userdata.get? h = some u →
      u.metatable = some mt → Anchored heap strings roots (.table mt)
  | userValue {h : Handle} {u : Userdata} :
      Anchored heap strings roots (.userdata h) → heap.userdata.get? h = some u →
      Anchored heap strings roots u.userValue
  | body {h : Handle} {t : Thread} :
      Anchored heap strings roots (.thread h) → heap.threads.get? h = some t →
      Anchored heap strings roots t.body
  | capture {h : Handle} {f : Function β} {v : Value} :
      Anchored heap strings roots (.function h) → heap.functions.get? h = some f →
      v ∈ f.captures → Anchored heap strings roots v
  /-- A key, unless keys are weak and it is collectable. -/
  | key {h : Handle} {t : Table} {k v : Value} :
      Anchored heap strings roots (.table h) → heap.tables.get? h = some t → (k, v) ∈ t.entries →
      ¬ heap.Loses strings roots t k v →
      (heap.modeOf strings t).keys = false ∨ k.isCollectable = false →
      Anchored heap strings roots k
  /-- A value, unless values are weak and it is collectable, or its key may go. -/
  | value {h : Handle} {t : Table} {k v : Value} :
      Anchored heap strings roots (.table h) → heap.tables.get? h = some t → (k, v) ∈ t.entries →
      ¬ heap.Loses strings roots t k v →
      (heap.modeOf strings t).keys = false ∨ k.isCollectable = false →
      (heap.modeOf strings t).values = false ∨ v.isCollectable = false →
      Anchored heap strings roots v
  /-- A value behind a key that is reached. -/
  | behindKey {h : Handle} {t : Table} {k v : Value} :
      Anchored heap strings roots (.table h) → heap.tables.get? h = some t → (k, v) ∈ t.entries →
      ¬ heap.Loses strings roots t k v → Anchored heap strings roots k →
      (heap.modeOf strings t).values = false ∨ v.isCollectable = false →
      Anchored heap strings roots v

lemma Anchored.reachable (hv : heap.Anchored strings roots v) : heap.Reachable strings roots v := by
  induction hv with
  | root hmem hlive => exact .root hmem hlive
  | metatable _ ht hmt ih => exact ih.metatable ht hmt
  | userMetatable _ hu hmt ih => exact ih.userMetatable hu hmt
  | userValue _ hu ih => exact ih.userValue hu
  | body _ ht ih => exact ih.body ht
  | capture _ hf hmem ih => exact ih.capture hf hmem
  | key _ ht hkv _ hk ih => exact ih.key ht hkv hk
  | value _ ht hkv _ hk hv ih => exact ih.value ht hkv hk hv
  | behindKey _ ht hkv _ _ hv ih ihk => exact ih.behindKey ht hkv ihk hv

/-- What is reached after a collection was reached without the entries that have gone. -/
lemma Collected.anchored_of_reachable (hc : heap.Collected strings roots heap' strings' stats)
    (hv : heap'.Reachable strings' roots v) : heap.Anchored strings roots v := by
  induction hv with
  | root hmem hlive => exact .root hmem (hc.isLive _ hlive)
  | metatable _ hu hmt ih =>
    obtain ⟨t, ht, hkeeps, -⟩ := hc.keeps.exists_before hu
    exact ih.metatable ht (hkeeps.metatable ▸ hmt)
  | userMetatable _ hu hmt ih => exact ih.userMetatable ((hc.keeps.userdata _ _).1 hu).1 hmt
  | userValue _ hu ih => exact ih.userValue ((hc.keeps.userdata _ _).1 hu).1
  | body _ ht ih => exact ih.body ((hc.keeps.threads _ _).1 ht).1
  | capture _ hf hmem ih => exact ih.capture ((hc.keeps.functions _ _).1 hf).1 hmem
  | key _ hu hkv hk ih =>
    obtain ⟨t, ht, hkeeps, hmode⟩ := hc.keeps.exists_before hu
    obtain ⟨hkv, hstays⟩ := (hkeeps.mem_entries _ _).1 hkv
    exact ih.key ht hkv hstays (hmode ▸ hk)
  | value _ hu hkv hk hv ih =>
    obtain ⟨t, ht, hkeeps, hmode⟩ := hc.keeps.exists_before hu
    obtain ⟨hkv, hstays⟩ := (hkeeps.mem_entries _ _).1 hkv
    exact ih.value ht hkv hstays (hmode ▸ hk) (hmode ▸ hv)
  | behindKey _ hu hkv _ hv ih ihk =>
    obtain ⟨t, ht, hkeeps, hmode⟩ := hc.keeps.exists_before hu
    obtain ⟨hkv, hstays⟩ := (hkeeps.mem_entries _ _).1 hkv
    exact ih.behindKey ht hkv hstays ihk (hmode ▸ hv)

/-- What is reached without the entries that go is reached after the collection. -/
lemma Collected.reachable_of_anchored (hc : heap.Collected strings roots heap' strings' stats)
    (hv : heap.Anchored strings roots v) : heap'.Reachable strings' roots v := by
  induction hv with
  | @root v hmem hlive =>
    refine .root hmem ?_
    by_cases href : v.isReference = true
    · exact (hc.isLive_iff v href).2 (.root hmem hlive)
    · exact isLive_of_not_isReference (by simpa using href)
  | metatable ha ht hmt ih =>
    obtain ⟨u, hu, hkeeps, -⟩ := hc.keeps.exists_after ht ha.reachable
    exact ih.metatable hu (hkeeps.metatable.trans hmt)
  | userMetatable ha hu hmt ih =>
    exact ih.userMetatable ((hc.keeps.userdata _ _).2 ⟨hu, ha.reachable⟩) hmt
  | userValue ha hu ih => exact ih.userValue ((hc.keeps.userdata _ _).2 ⟨hu, ha.reachable⟩)
  | body ha ht ih => exact ih.body ((hc.keeps.threads _ _).2 ⟨ht, ha.reachable⟩)
  | capture ha hf hmem ih =>
    exact ih.capture ((hc.keeps.functions _ _).2 ⟨hf, ha.reachable⟩) hmem
  | key ha ht hkv hstays hk ih =>
    obtain ⟨u, hu, hkeeps, hmode⟩ := hc.keeps.exists_after ht ha.reachable
    exact ih.key hu ((hkeeps.mem_entries _ _).2 ⟨hkv, hstays⟩) (hmode.symm ▸ hk)
  | value ha ht hkv hstays hk hv ih =>
    obtain ⟨u, hu, hkeeps, hmode⟩ := hc.keeps.exists_after ht ha.reachable
    exact ih.value hu ((hkeeps.mem_entries _ _).2 ⟨hkv, hstays⟩) (hmode.symm ▸ hk) (hmode.symm ▸ hv)
  | behindKey ha ht hkv hstays _ hv ih ihk =>
    obtain ⟨u, hu, hkeeps, hmode⟩ := hc.keeps.exists_after ht ha.reachable
    exact ih.behindKey hu ((hkeeps.mem_entries _ _).2 ⟨hkv, hstays⟩) ihk (hmode.symm ▸ hv)

/-- **What is reached after a collection** is what was reached without the entries that have gone. -/
lemma Collected.reachable_iff (hc : heap.Collected strings roots heap' strings' stats) :
    heap'.Reachable strings' roots v ↔ heap.Anchored strings roots v :=
  ⟨hc.anchored_of_reachable, hc.reachable_of_anchored⟩

/-! ### Keys -/

/-- **No key is left behind**: a key of an entry that goes is reached without such entries, if at
all. -/
def KeysAnchored (heap : Heap β) (strings : Interner) (roots : List Value) : Prop :=
  ∀ p ∈ heap.lost strings roots, p.2.isReference = true →
    heap.Reachable strings roots p.2 → heap.Anchored strings roots p.2

/-- An entry whose value is not weak stays with its key. -/
lemma Reachable.not_loses (hk : heap.Reachable strings roots k)
    (hv : (heap.modeOf strings t).values = false ∨ v.isCollectable = false) :
    ¬ heap.Loses strings roots t k v := by
  rintro (⟨hvalues, hcoll, -⟩ | ⟨-, -, hnot⟩)
  · simp [hvalues, hcoll] at hv
  · exact hnot hk

/-- Then all that is reached is reached without the entries that go. -/
lemma KeysAnchored.anchored (hkeys : heap.KeysAnchored strings roots)
    (hv : heap.Reachable strings roots v) (href : v.isReference = true) :
    heap.Anchored strings roots v := by
  induction hv with
  | root hmem hlive => exact .root hmem hlive
  | metatable _ ht hmt ih => exact (ih rfl).metatable ht hmt
  | userMetatable _ hu hmt ih => exact (ih rfl).userMetatable hu hmt
  | userValue _ hu ih => exact (ih rfl).userValue hu
  | body _ ht ih => exact (ih rfl).body ht
  | capture _ hf hmem ih => exact (ih rfl).capture hf hmem
  | @key h t k v htable ht hkv hk ih =>
    by_cases hloses : heap.Loses strings roots t k v
    · exact hkeys (h, k) ⟨t, v, ht, htable, hkv, hloses⟩ href (htable.key ht hkv hk)
    · exact (ih rfl).key ht hkv hloses hk
  | value htable ht hkv hk hv ih =>
    exact (ih rfl).value ht hkv ((htable.key ht hkv hk).not_loses hv) hk hv
  | @behindKey h t k v _ ht hkv hreach hv ih ihk =>
    have hstays := hreach.not_loses hv
    by_cases hkref : k.isReference = true
    · exact (ih rfl).behindKey ht hkv hstays (ihk hkref) hv
    · -- a key that refers to nothing keeps its value by itself
      have hcoll : k.isCollectable = false := by
        by_contra hne
        exact hkref (Value.isReference_of_isCollectable (by simpa using hne))
      exact (ih rfl).value ht hkv hstays (Or.inr hcoll) hv

/-- Under strong values an entry only goes with its key, so no key is left behind. -/
lemma keysAnchored_of_values (hstrong : ∀ h t, heap.tables.get? h = some t →
    heap.Reachable strings roots (.table h) → (heap.modeOf strings t).values = false) :
    heap.KeysAnchored strings roots := by
  rintro ⟨h, k⟩ ⟨t, v, ht, htable, -, hloses⟩ - hreach
  rcases hloses with ⟨hvalues, -⟩ | ⟨-, -, hnot⟩
  · rw [hstrong h t ht htable] at hvalues
    cases hvalues
  · exact absurd hreach hnot

/-! ### A collection after a collection -/

section

variable {heap₁ heap₂ : Heap β} {strings₁ strings₂ : Interner} {stats₁ stats₂ : CollectStats}

/-- If no key is left behind, what is left is reached. -/
lemma Collected.reachable_of_isLive (hc : heap.Collected strings roots heap₁ strings₁ stats₁)
    (hkeys : heap.KeysAnchored strings roots) (href : v.isReference = true)
    (hlive : heap₁.isLive strings₁ v = true) : heap₁.Reachable strings₁ roots v :=
  hc.reachable_iff.2 (hkeys.anchored ((hc.isLive_iff v href).1 hlive) href)

/-- If no key is left behind, no weak side of an entry that is left is lost. -/
lemma Collected.lost_eq_empty (hc : heap.Collected strings roots heap₁ strings₁ stats₁)
    (hkeys : heap.KeysAnchored strings roots) : heap₁.lost strings₁ roots = ∅ := by
  refine Set.eq_empty_of_forall_notMem ?_
  rintro ⟨h, k⟩ ⟨u, v, hu, -, hkv, hloses⟩
  obtain ⟨t, -, hkeeps, hmode⟩ := hc.keeps.exists_before hu
  obtain ⟨-, hstays⟩ := (hkeeps.mem_entries k v).1 hkv
  have hnot : ∀ w, w.isCollectable = true → ¬ heap₁.Reachable strings₁ roots w →
      ¬ heap.Reachable strings roots w := by
    intro w hw hnot hreach
    exact hnot (hc.reachable_iff.2 (hkeys.anchored hreach (Value.isReference_of_isCollectable hw)))
  -- so the entry would have gone the first time
  apply hstays
  unfold Loses at hloses ⊢
  rw [hmode] at hloses
  exact hloses.imp (fun hl => ⟨hl.1, hl.2.1, hnot v hl.2.1 hl.2.2⟩)
    fun hl => ⟨hl.1, hl.2.1, hnot k hl.2.1 hl.2.2⟩

/-- If no key is left behind, the second collection finds nothing. -/
lemma Collected.stats_eq_zero (hc : heap.Collected strings roots heap₁ strings₁ stats₁)
    (hc₂ : heap₁.Collected strings₁ roots heap₂ strings₂ stats₂)
    (hkeys : heap.KeysAnchored strings roots) : stats₂ = .zero := by
  have hnone : ∀ (live : Handle → Bool) (wrap : Handle → Value),
      (∀ h, (wrap h).isReference = true) → (∀ h, heap₁.isLive strings₁ (wrap h) = live h) →
      {h | live h = true ∧ ¬ heap₁.Reachable strings₁ roots (wrap h)}.ncard = 0 := by
    intro live wrap href hlive
    have hempty : {h | live h = true ∧ ¬ heap₁.Reachable strings₁ roots (wrap h)} = ∅ := by
      refine Set.eq_empty_of_forall_notMem ?_
      rintro h ⟨hh, hnot⟩
      exact hnot (hc.reachable_of_isLive hkeys (href h) ((hlive h).trans hh))
    rw [hempty, Set.ncard_empty]
  have htables := hc₂.counts.tables.trans (hnone _ .table (fun _ => rfl) fun _ => rfl)
  have hfunctions := hc₂.counts.functions.trans (hnone _ .function (fun _ => rfl) fun _ => rfl)
  have huserdata := hc₂.counts.userdata.trans (hnone _ .userdata (fun _ => rfl) fun _ => rfl)
  have hthreads := hc₂.counts.threads.trans (hnone _ .thread (fun _ => rfl) fun _ => rfl)
  have hstrings := hc₂.counts.strings.trans (hnone _ .string (fun _ => rfl) fun _ => rfl)
  have hweak : stats₂.weakEntries = 0 := by
    rw [hc₂.weakEntries, hc.lost_eq_empty hkeys, Set.ncard_empty]
  cases stats₂
  simp_all only [CollectStats.zero]

/-- If the second collection changes nothing, no key was left behind. -/
lemma Collected.keysAnchored (hc : heap.Collected strings roots heap₁ strings₁ stats₁)
    (hc₂ : heap₁.Collected strings₁ roots heap₂ strings₂ stats₂)
    (hheap : heap₂.clearMarks = heap₁.clearMarks)
    (hstrings : strings₂.clearMarks = strings₁.clearMarks) : heap.KeysAnchored strings roots := by
  rintro ⟨h, k⟩ - href hreach
  have hlive : heap₂.isLive strings₂ k = true := by
    rw [isLive_eq_of_clearMarks hheap hstrings, hc.isLive_iff k href]
    exact hreach
  exact hc.reachable_iff.1 ((hc₂.isLive_iff k href).1 hlive)

end

/-- **A collection after a collection.**  On a closed heap two collections from the same roots both
end.  What is left after the second one is what the roots reached without the entries that the first
one has removed.  It frees nothing and removes no entry exactly if no key of such an entry was left
behind, and exactly then the heap and the strings are left as they were. -/
theorem collect_collect (hw : heap.WellFormed) (hs : strings.WellFormed)
    (hclosed : heap.Closed strings) (roots : List Value) :
    ∃ heap₁ strings₁ stats₁ heap₂ strings₂ stats₂,
      heap.collect strings roots = .ok (heap₁, strings₁, stats₁) ∧
      heap₁.collect strings₁ roots = .ok (heap₂, strings₂, stats₂) ∧
      (∀ v, v.isReference = true →
        (heap₂.isLive strings₂ v = true ↔ heap.Anchored strings roots v)) ∧
      (stats₂ = .zero ↔ heap.KeysAnchored strings roots) ∧
      (heap₂.clearMarks = heap₁.clearMarks ∧ strings₂.clearMarks = strings₁.clearMarks ↔
        heap.KeysAnchored strings roots) := by
  obtain ⟨heap₁, strings₁, stats₁, hcollect, hc⟩ := exists_collected hw hs hclosed roots
  obtain ⟨heap₂, strings₂, stats₂, hcollect₂, hc₂⟩ :=
    exists_collected hc.wellFormed hc.strings_wellFormed hc.closed roots
  have hsame := hc₂.unchanged hc.keeps.modes
  refine ⟨heap₁, strings₁, stats₁, heap₂, strings₂, stats₂, hcollect, hcollect₂, ?_, ?_, ?_⟩
  · intro v href
    rw [hc₂.isLive_iff v href, hc.reachable_iff]
  · refine ⟨fun hzero => ?_, hc.stats_eq_zero hc₂⟩
    exact hc.keysAnchored hc₂ (hsame hzero).1 (hsame hzero).2
  · refine ⟨fun heq => hc.keysAnchored hc₂ heq.1 heq.2, fun hkeys => ?_⟩
    exact hsame (hc.stats_eq_zero hc₂ hkeys)

/-- The tables of a cache with weak keys have no weak values. -/
lemma values_modeOf_weakCache (ht : weakCache.tables.get? h = some t) :
    (weakCache.modeOf modeStrings t).values = false := by
  have htable := mem_weakCacheTables ht
  rw [weakCacheTables, List.mem_cons] at htable
  rcases htable with rfl | hother
  · rw [modeOf_cacheTable]
  · have hnone : ∀ u ∈ weakCacheTables.tail, u.metatable = none := by decide
    rw [modeOf_of_metatable_none (hnone t hother)]
    rfl

theorem collect_collect_weakCache :
    weakCache.WellFormed ∧ modeStrings.WellFormed ∧ weakCache.Closed modeStrings ∧
    ∃ heap₁ strings₁ stats₁ heap₂ strings₂ stats₂,
      weakCache.collect modeStrings [.table ⟨0, 0⟩] = .ok (heap₁, strings₁, stats₁) ∧
      heap₁.collect strings₁ [.table ⟨0, 0⟩] = .ok (heap₂, strings₂, stats₂) ∧
      stats₂ = .zero ∧
      heap₂.clearMarks = heap₁.clearMarks ∧ strings₂.clearMarks = strings₁.clearMarks := by
  refine ⟨wellFormed_weakCache, wellFormed_modeStrings, closed_weakCache, ?_⟩
  have hkeys : weakCache.KeysAnchored modeStrings [.table ⟨0, 0⟩] :=
    keysAnchored_of_values fun _ _ ht _ => values_modeOf_weakCache ht
  obtain ⟨heap₁, strings₁, stats₁, heap₂, strings₂, stats₂, hfirst, hsecond, -, hstats, hsame⟩ :=
    collect_collect wellFormed_weakCache wellFormed_modeStrings closed_weakCache [.table ⟨0, 0⟩]
  exact ⟨heap₁, strings₁, stats₁, heap₂, strings₂, stats₂, hfirst, hsecond, hstats.2 hkeys,
    hsame.2 hkeys⟩

/-- The strings by which a metatable declares weak values, beside those for weak keys. -/
def valueStrings : Interner := (modeStrings.intern (Bytes.ofString "v")).1

lemma wellFormed_valueStrings : valueStrings.WellFormed := wellFormed_modeStrings.intern _

lemma arena_valueStrings :
    valueStrings.arena =
      (modeArena.alloc (.ofBytes (Bytes.ofString "v") (Bytes.ofString "v").hash)).1 := by
  have hnew : ∀ h, modeStrings.get? h ≠ some (Bytes.ofString "v") := by
    intro h hh
    rw [Interner.get?, arena_modeStrings, Option.map_eq_some_iff] at hh
    obtain ⟨s, hs, hbytes⟩ := hh
    have hothers : ∀ e ∈ modeArena.entries, e.2.bytes ≠ Bytes.ofString "v" := by decide +kernel
    exact hothers _ (Arena.mem_entries_iff.2 hs) hbytes
  rw [valueStrings, wellFormed_modeStrings.arena_intern hnew, arena_modeStrings]

/-- A cache with weak values, and one entry. -/
def staleTable : Table :=
  { Table.empty.setKey (.table ⟨2, 0⟩) (.table ⟨3, 0⟩) with metatable := some ⟨1, 0⟩ }

lemma entries_staleTable : staleTable.entries = [(.table ⟨2, 0⟩, .table ⟨3, 0⟩)] := by rfl

/-- The cache, its metatable, and the key and the value of its entry. -/
def staleCacheTables : List Table :=
  [staleTable, Table.empty.setKey (.string ⟨0, 0⟩) (.string ⟨2, 0⟩), .empty, .empty]

def staleCache : Heap Unit where
  tables := staleCacheTables.foldl (fun a t => (a.alloc t).1) .empty

lemma closed_staleCache : staleCache.Closed valueStrings :=
  closed_of_arena arena_valueStrings (by decide +kernel)

lemma mem_staleCacheTables (ht : staleCache.tables.get? h = some t) : t ∈ staleCacheTables := by
  have htables : staleCache.tables.entries.map Prod.snd = staleCacheTables := rfl
  rw [← htables]
  exact List.mem_map_of_mem (f := Prod.snd) (Arena.mem_entries_iff.2 ht)

lemma wellFormed_staleCache : staleCache.WellFormed where
  tables := (((Arena.wellFormed_empty.alloc _).alloc _).alloc _).alloc _
  functions := Arena.wellFormed_empty
  userdata := Arena.wellFormed_empty
  threads := Arena.wellFormed_empty
  each := by
    intro h t ht
    have htable := mem_staleCacheTables ht
    simp only [staleCacheTables, List.mem_cons, List.not_mem_nil, or_false] at htable
    rcases htable with rfl | rfl | rfl | rfl
    · exact (Table.wellFormed_empty.setKey (by rfl)).congr rfl rfl rfl
    · exact Table.wellFormed_empty.setKey (by rfl)
    · exact Table.wellFormed_empty
    · exact Table.wellFormed_empty

/-- The only metatable. -/
lemma metatable_staleCache {mt : Handle} (ht : staleCache.tables.get? h = some t)
    (hmt : t.metatable = some mt) : mt = ⟨1, 0⟩ := by
  have hall : ∀ t ∈ staleCacheTables, ∀ mt ∈ t.metatable, mt = ⟨1, 0⟩ := by decide
  exact hall t (mem_staleCacheTables ht) mt hmt

/-- The only entry with objects. -/
lemma entry_staleCache (ht : staleCache.tables.get? h = some t) (hkv : (k, v) ∈ t.entries) :
    t = staleTable ∧ k = .table ⟨2, 0⟩ ∧ v = .table ⟨3, 0⟩ ∨
      k.isCollectable = false ∧ v.isCollectable = false := by
  have htable := mem_staleCacheTables ht
  simp only [staleCacheTables, List.mem_cons, List.not_mem_nil, or_false] at htable
  rcases htable with rfl | rfl | rfl | rfl
  · rw [entries_staleTable, List.mem_singleton, Prod.mk.injEq] at hkv
    exact Or.inl ⟨rfl, hkv⟩
  · have hentries : (Table.empty.setKey (.string ⟨0, 0⟩) (.string ⟨2, 0⟩)).entries =
        [(.string ⟨0, 0⟩, .string ⟨2, 0⟩)] := by rfl
    rw [hentries, List.mem_singleton, Prod.mk.injEq] at hkv
    obtain ⟨rfl, rfl⟩ := hkv
    exact Or.inr ⟨rfl, rfl⟩
  · cases hkv
  · cases hkv

lemma modeOf_staleTable : staleCache.modeOf valueStrings staleTable = ⟨false, true⟩ := by
  have hget : ∀ j, valueStrings.get? j = ((modeArena.alloc
      (.ofBytes (Bytes.ofString "v") (Bytes.ofString "v").hash)).1.get? j).map Packed.bytes := by
    intro j
    rw [Interner.get?, arena_valueStrings]
  have hname : valueStrings.get? ⟨0, 0⟩ = some (Bytes.ofString "__mode") := by rw [hget]; rfl
  have hmode : valueStrings.get? ⟨2, 0⟩ = some (Bytes.ofString "v") := by rw [hget]; rfl
  rw [modeOf_eq wellFormed_valueStrings hname rfl hmode]
  decide

/-- Nothing else refers to the value of the entry. -/
lemma not_reachable_staleCache :
    ¬ staleCache.Reachable valueStrings [.table ⟨0, 0⟩] (.table ⟨3, 0⟩) := by
  generalize hx : Value.table ⟨3, 0⟩ = x
  intro hreach
  -- a weak value is not reached by its entry
  have hvalue : ∀ {h t k}, staleCache.tables.get? h = some t → (k, x) ∈ t.entries →
      ¬ ((staleCache.modeOf valueStrings t).values = false ∨ x.isCollectable = false) := by
    intro h t k ht hkv hv
    subst hx
    rcases entry_staleCache ht hkv with ⟨rfl, -⟩ | ⟨-, hcoll⟩
    · rw [modeOf_staleTable] at hv
      exact absurd hv (by decide)
    · cases hcoll
  cases hreach with
  | root hmem => simp [← hx] at hmem
  | metatable _ ht hmt =>
    rw [metatable_staleCache ht hmt] at hx
    cases hx
  | userMetatable _ hu => simp [staleCache, Arena.get?_empty] at hu
  | userValue _ hu => simp [staleCache, Arena.get?_empty] at hu
  | body _ ht => simp [staleCache, Arena.get?_empty] at ht
  | capture _ hf => simp [staleCache, Arena.get?_empty] at hf
  | key _ ht hkv =>
    rcases entry_staleCache ht hkv with ⟨-, rfl, -⟩ | ⟨hcoll, -⟩
    · cases hx
    · rw [← hx] at hcoll
      cases hcoll
  | value _ ht hkv _ hv => exact hvalue ht hkv hv
  | behindKey _ ht hkv _ hv => exact hvalue ht hkv hv

lemma loses_staleTable :
    staleCache.Loses valueStrings [.table ⟨0, 0⟩] staleTable (.table ⟨2, 0⟩) (.table ⟨3, 0⟩) := by
  refine Or.inl ⟨?_, rfl, not_reachable_staleCache⟩
  rw [modeOf_staleTable]

/-- Nothing else refers to its key. -/
lemma not_anchored_staleCache :
    ¬ staleCache.Anchored valueStrings [.table ⟨0, 0⟩] (.table ⟨2, 0⟩) := by
  generalize hx : Value.table ⟨2, 0⟩ = x
  intro hanchored
  -- it is no value
  have hvalue : ∀ {h t k}, staleCache.tables.get? h = some t → (k, x) ∉ t.entries := by
    intro h t k ht hkv
    rcases entry_staleCache ht hkv with ⟨-, -, rfl⟩ | ⟨-, hcoll⟩
    · cases hx
    · rw [← hx] at hcoll
      cases hcoll
  cases hanchored with
  | root hmem => simp [← hx] at hmem
  | metatable _ ht hmt =>
    rw [metatable_staleCache ht hmt] at hx
    cases hx
  | userMetatable _ hu => simp [staleCache, Arena.get?_empty] at hu
  | userValue _ hu => simp [staleCache, Arena.get?_empty] at hu
  | body _ ht => simp [staleCache, Arena.get?_empty] at ht
  | capture _ hf => simp [staleCache, Arena.get?_empty] at hf
  | key _ ht hkv hstays =>
    rcases entry_staleCache ht hkv with ⟨rfl, rfl, rfl⟩ | ⟨hcoll, -⟩
    · exact hstays loses_staleTable
    · rw [← hx] at hcoll
      cases hcoll
  | value _ ht hkv => exact hvalue ht hkv
  | behindKey _ ht hkv => exact hvalue ht hkv

/-- **A key that is left behind.**  The first collection keeps the key and removes its entry, so the
second one finds something to free. -/
theorem second_collection_frees_key :
    staleCache.WellFormed ∧ valueStrings.WellFormed ∧ staleCache.Closed valueStrings ∧
    ∃ heap₁ strings₁ stats₁ heap₂ strings₂ stats₂,
      staleCache.collect valueStrings [.table ⟨0, 0⟩] = .ok (heap₁, strings₁, stats₁) ∧
      heap₁.collect strings₁ [.table ⟨0, 0⟩] = .ok (heap₂, strings₂, stats₂) ∧
      stats₂ ≠ .zero ∧ heap₁.isLive strings₁ (.table ⟨2, 0⟩) = true ∧
      heap₂.isLive strings₂ (.table ⟨2, 0⟩) = false := by
  refine ⟨wellFormed_staleCache, wellFormed_valueStrings, closed_staleCache, ?_⟩
  obtain ⟨heap₁, strings₁, stats₁, hfirst, hc⟩ := exists_collected wellFormed_staleCache
    wellFormed_valueStrings closed_staleCache [.table ⟨0, 0⟩]
  obtain ⟨heap₂, strings₂, stats₂, hsecond, hc₂⟩ :=
    exists_collected hc.wellFormed hc.strings_wellFormed hc.closed [.table ⟨0, 0⟩]
  have hroot : staleCache.Reachable valueStrings [.table ⟨0, 0⟩] (.table ⟨0, 0⟩) :=
    .root (List.mem_singleton_self _) rfl
  have htable : staleCache.tables.get? ⟨0, 0⟩ = some staleTable := rfl
  have hentry : (.table ⟨2, 0⟩, .table ⟨3, 0⟩) ∈ staleTable.entries := by
    rw [entries_staleTable]
    exact List.mem_singleton_self _
  have hkey := hroot.key htable hentry (Or.inl (by rw [modeOf_staleTable]))
  have hlive := (hc.isLive_iff (.table ⟨2, 0⟩) rfl).2 hkey
  have hfreed : heap₂.isLive strings₂ (.table ⟨2, 0⟩) ≠ true := by
    rw [Ne, hc₂.isLive_iff _ rfl, hc.reachable_iff]
    exact not_anchored_staleCache
  refine ⟨heap₁, strings₁, stats₁, heap₂, strings₂, stats₂, hfirst, hsecond, fun hzero => ?_, hlive,
    by simpa using hfreed⟩
  obtain ⟨hheap, hstrings⟩ := hc₂.unchanged hc.keeps.modes hzero
  rw [isLive_eq_of_clearMarks hheap hstrings] at hfreed
  exact hfreed hlive

end Heap

end LuaCore
