import LuaCore.Proofs.Store.Sound
import LuaCore.Proofs.Table.Traversal
import LuaCore.Store.Metatable

/-!
The operations on a sound store are safe, if what they are given is live.
-/

namespace LuaCore

namespace Store

variable {β α : Type} {s : Store β} {v w k x : Value} {h : Handle} {i : Int64}

/-! ### Reading -/

section Reading

lemma isLive_of_mem_stored (hs : s.Sound) (hw : w ∈ s.heap.stored v) : s.isLive w = true :=
  hs.closed.heap v w hw

/-- What is found in a table is live. -/
lemma isLive_getKey {t : Table} {j : Key} (hs : s.Sound) (ht : s.heap.tables.get? h = some t) :
    s.isLive (t.getKey j) = true := by
  by_cases hnil : t.getKey j = .nil
  · rw [hnil]
    rfl
  · have hwf := hs.wellFormed.heap.each h t ht
    refine isLive_of_mem_stored hs (v := .table h) ?_
    rw [Heap.stored, ht]
    exact Heap.mem_stored_table.2
      (Or.inr ⟨j.toValue, _, hwf.mem_entries_iff.2 ⟨j, rfl, rfl, hnil⟩, Or.inr rfl⟩)

lemma isLive_get {t : Table} (hs : s.Sound) (ht : s.heap.tables.get? h = some t) (k : Value) :
    s.isLive (t.get k) = true := by
  unfold Table.get
  split
  · exact isLive_getKey hs ht
  · rfl

lemma isLive_metatable {t : Table} {mt : Handle} (hs : s.Sound)
    (ht : s.heap.tables.get? h = some t) (hmt : t.metatable = some mt) :
    s.isLive (.table mt) = true := by
  refine isLive_of_mem_stored hs (v := .table h) ?_
  rw [Heap.stored, ht]
  exact Heap.mem_stored_table.2 (Or.inl ⟨mt, hmt, rfl⟩)

lemma isLive_stored_table {t : Table} (hs : s.Sound) (ht : s.heap.tables.get? h = some t) :
    ∀ w ∈ t.stored, s.isLive w = true := by
  intro w hw
  refine isLive_of_mem_stored hs (v := .table h) ?_
  rw [Heap.stored, ht]
  exact hw

lemma isLive_stored_userdata {u : Userdata} (hs : s.Sound)
    (hu : s.heap.userdata.get? h = some u) : ∀ w ∈ u.stored, s.isLive w = true := by
  intro w hw
  refine isLive_of_mem_stored hs (v := .userdata h) ?_
  rw [Heap.stored, hu]
  exact hw

lemma safely_table {Q : Table → Store β → Prop} (hh : s.isLive (.table h) = true)
    (hQ : ∀ t, s.heap.tables.get? h = some t → Q t s) : Safely (table h) s Q := by
  obtain ⟨t, ht⟩ := Arena.contains_iff.1 hh
  exact Safely.bind (safely_get (safely_require ht (hQ t ht)))

lemma safely_userdata {Q : Userdata → Store β → Prop} (hh : s.isLive (.userdata h) = true)
    (hQ : ∀ u, s.heap.userdata.get? h = some u → Q u s) : Safely (userdata h) s Q := by
  obtain ⟨u, hu⟩ := Arena.contains_iff.1 hh
  exact Safely.bind (safely_get (safely_require hu (hQ u hu)))

lemma safely_thread {Q : Thread → Store β → Prop} (hh : s.isLive (.thread h) = true)
    (hQ : ∀ t, s.heap.threads.get? h = some t → Q t s) : Safely (thread h) s Q := by
  obtain ⟨t, ht⟩ := Arena.contains_iff.1 hh
  exact Safely.bind (safely_get (safely_require ht (hQ t ht)))

lemma safely_bytes {Q : Bytes → Store β → Prop} (hh : s.isLive (.string h) = true)
    (hQ : ∀ b, Q b s) : Safely (bytes h) s Q := by
  obtain ⟨b, hb⟩ := Interner.contains_iff.1 hh
  exact Safely.bind (safely_get (safely_require hb (hQ b)))

lemma safely_bytes? {Q : Option Bytes → Store β → Prop} (hv : s.isLive v = true)
    (hQ : ∀ b, Q b s) : Safely (bytes? v) s Q := by
  cases v with
  | string h => exact Safely.map (safely_bytes hv fun b => hQ (some b))
  | _ => exact hQ none

lemma safely_expectTable {Q : Handle → Store β → Prop} (hs : s.Sound)
    (hQ : ∀ h, v = .table h → Q h s) : Safely (expectTable v) s Q := by
  cases v with
  | table h => exact hQ h rfl
  | _ => exact safely_fail hs

lemma safely_metatableOf {Q : Option Handle → Store β → Prop} (hs : s.Sound)
    (hv : s.isLive v = true)
    (hQ : ∀ r, (∀ mt, r = some mt → s.isLive (.table mt) = true) → Q r s) :
    Safely (metatableOf v) s Q := by
  cases v with
  | table h =>
    refine Safely.bind (safely_table hv fun t ht => safely_pure (hQ _ fun mt hmt => ?_))
    exact isLive_metatable hs ht hmt
  | userdata h =>
    refine Safely.bind (safely_userdata hv fun u hu => safely_pure (hQ _ fun mt hmt => ?_))
    exact isLive_stored_userdata hs hu _ (by simp [Userdata.stored, hmt])
  | _ =>
    refine Safely.bind (safely_get (safely_pure (hQ _ fun mt hmt => hs.closed.shared mt ?_)))
    exact SharedMetatables.mem_toList hmt

lemma safely_field {Q : Value → Store β → Prop} {e : Event} (hs : s.Sound)
    (hh : s.isLive (.table h) = true) (hQ : ∀ v, s.isLive v = true → Q v s) :
    Safely (field h e) s Q := by
  refine Safely.bind (safely_table hh fun t ht => Safely.bind (safely_get (safely_pure (hQ _ ?_))))
  exact isLive_getKey (j := .string (s.nameOf e)) hs ht

lemma safely_handler? {Q : Option Value → Store β → Prop} {e : Event} (hs : s.Sound)
    (hv : s.isLive v = true) (hQ : ∀ r, (∀ w, r = some w → s.isLive w = true) → Q r s) :
    Safely (handler? v e) s Q := by
  refine Safely.bind (safely_metatableOf hs hv fun r hr => ?_)
  cases r with
  | none => exact safely_pure (hQ none (by simp))
  | some mt =>
    refine Safely.bind (safely_field hs (hr mt rfl) fun w hw => safely_pure (hQ _ fun x hx => ?_))
    split at hx
    · simp at hx
    · cases hx
      exact hw

lemma safely_declaredMode {Q : WeakMode → Store β → Prop} {mt : Option Handle} (hs : s.Sound)
    (hmt : ∀ h, mt = some h → s.isLive (.table h) = true) (hQ : ∀ m, Q m s) :
    Safely (declaredMode mt) s Q := by
  cases mt with
  | none => exact safely_pure (hQ _)
  | some h =>
    refine Safely.bind (safely_field hs (hmt h rfl) fun w hw => ?_)
    refine Safely.bind (safely_bytes? hw fun b => ?_)
    cases b with
    | none => exact safely_pure (hQ _)
    | some b => exact safely_pure (hQ _)

lemma safely_checkUnprotected {Q : Unit → Store β → Prop} (hs : s.Sound) (hv : s.isLive v = true)
    (hQ : Q () s) : Safely (checkUnprotected v) s Q := by
  refine Safely.bind (safely_metatableOf hs hv fun r hr => ?_)
  cases r with
  | none => exact safely_pure hQ
  | some mt =>
    refine Safely.bind (safely_field hs (hr mt rfl) fun w _ => ?_)
    split
    · exact safely_fail hs
    · exact safely_pure hQ

lemma safely_tableOf {Q : Table → Store β → Prop} (hs : s.Sound) (hv : s.isLive v = true)
    (hQ : ∀ h t, v = .table h → s.heap.tables.get? h = some t → Q t s) : Safely (tableOf v) s Q := by
  refine Safely.bind (safely_expectTable hs fun h hh => ?_)
  subst hh
  exact safely_table hv fun t ht => hQ h t rfl ht

lemma safely_rawGet (hs : s.Sound) (hv : s.isLive v = true) :
    Safely (rawGet v k) s fun w t => t.Sound ∧ t.isLive w = true :=
  Safely.bind (safely_tableOf hs hv fun _ _ _ ht => safely_pure ⟨hs, isLive_get hs ht k⟩)

lemma safely_rawGetAt (hs : s.Sound) (hv : s.isLive v = true) :
    Safely (rawGetAt v i) s fun w t => t.Sound ∧ t.isLive w = true :=
  Safely.bind (safely_tableOf hs hv fun _ _ _ ht => safely_pure ⟨hs, isLive_get hs ht (.int i)⟩)

lemma safely_next (hs : s.Sound) (hv : s.isLive v = true) :
    Safely (next v k) s fun r t => t.Sound ∧
      ∀ e, r = some e → t.isLive e.1 = true ∧ t.isLive e.2 = true := by
  refine Safely.bind (safely_tableOf hs hv fun h t _ ht => safely_ofExcept hs fun r hr => ⟨hs, ?_⟩)
  rintro ⟨x, y⟩ rfl
  have hmem := Table.mem_entries_of_next hr
  have hlive := isLive_stored_table hs ht
  exact ⟨hlive x (Heap.mem_stored_table.2 (Or.inr ⟨x, y, hmem, Or.inl rfl⟩)),
    hlive y (Heap.mem_stored_table.2 (Or.inr ⟨x, y, hmem, Or.inr rfl⟩))⟩

lemma safely_nextAt (hs : s.Sound) (hv : s.isLive v = true) :
    Safely (nextAt v i) s fun r t => t.Sound ∧ ∀ e, r = some e → t.isLive e.2 = true := by
  refine Safely.bind (safely_tableOf hs hv fun h t _ ht => safely_pure ⟨hs, fun e he => ?_⟩)
  rw [Table.snd_of_nextAt he]
  exact isLive_get hs ht (.int e.1)

lemma safely_rawLen (hs : s.Sound) (hv : s.isLive v = true) :
    Safely (rawLen v) s fun _ t => t.Sound := by
  cases v with
  | table h => exact Safely.bind (safely_table hv fun t ht => safely_pure hs)
  | string h => exact Safely.bind (safely_bytes hv fun b => safely_pure hs)
  | _ => exact safely_fail hs

lemma safely_visibleMetatable (hs : s.Sound) (hv : s.isLive v = true) :
    Safely (visibleMetatable v) s fun w t => t.Sound ∧ t.isLive w = true := by
  refine Safely.bind (safely_metatableOf hs hv fun r hr => ?_)
  cases r with
  | none => exact safely_pure ⟨hs, rfl⟩
  | some mt =>
    refine Safely.bind (safely_field hs (hr mt rfl) fun w hw => safely_pure ⟨hs, ?_⟩)
    split
    · exact hr mt rfl
    · exact hw

lemma safely_userValue (hs : s.Sound) (hv : s.isLive v = true) :
    Safely (userValue v) s fun w t => t.Sound ∧ t.isLive w = true := by
  cases v with
  | userdata h =>
    refine Safely.bind (safely_pure (Safely.bind (safely_userdata hv fun u hu => safely_pure ⟨hs, ?_⟩)))
    exact isLive_stored_userdata hs hu _ (by simp [Userdata.stored])
  | _ => exact safely_fail hs

lemma safely_threadStatus (hs : s.Sound) (hv : s.isLive v = true) :
    Safely (threadStatus v) s fun _ t => t.Sound := by
  cases v with
  | thread h => exact Safely.bind (safely_pure (Safely.bind (safely_thread hv fun t ht => safely_pure hs)))
  | _ => exact safely_fail hs

end Reading

/-! ### New objects -/

lemma safely_newString {b : Bytes} (hs : s.Sound) :
    Safely (newString b) s fun v t => t.Sound ∧ t.isLive v = true :=
  ⟨hs.intern b,
    Interner.contains_intern hs.wellFormed.strings b (Or.inr rfl)⟩

lemma safely_allocTable {Q : Handle → Store β → Prop} {t : Table} (hs : s.Sound)
    (ht : t.WellFormed) (hst : ∀ w ∈ t.stored, s.isLive w = true)
    (hQ : ∀ h u, u.Sound → u.isLive (.table h) = true → (∀ w, s.isLive w = true → u.isLive w = true) →
      Q h u) : Safely (allocTable t) s Q := by
  have hw := hs.wellFormed.heap.tables
  have hu := Heap.updates_tables (hw.get?_alloc t)
  exact hQ _ _ (hs.withTables (hw.alloc t) (hw.get?_alloc t) ht hst) (hu.isLive s.strings _ (Or.inr rfl))
    fun w hw => hu.isLive s.strings w (Or.inl hw)

lemma safely_newTable {t : Table} (hs : s.Sound) (ht : t.WellFormed)
    (hst : ∀ w ∈ t.stored, s.isLive w = true) :
    Safely (newTable t) s fun v t => t.Sound ∧ t.isLive v = true :=
  Safely.map (safely_allocTable hs ht hst fun _ _ hu hh _ => ⟨hu, hh⟩)

lemma safely_newEmptyTable (hs : s.Sound) :
    Safely newEmptyTable s fun v t => t.Sound ∧ t.isLive v = true := by
  refine Safely.bind (safely_get (safely_newTable hs Table.wellFormed_empty ?_))
  intro w hw
  simp [Table.new, Table.stored_empty] at hw

/-- Assigning live values keeps a table in order. -/
lemma set_live {t u : Table} (ht : t.WellFormed) (hst : ∀ w ∈ t.stored, s.isLive w = true)
    (hk : s.isLive k = true) (hv : s.isLive v = true) (hu : t.set k v = .ok u) :
    u.WellFormed ∧ ∀ w ∈ u.stored, s.isLive w = true := by
  unfold Table.set at hu
  split at hu
  · next j hj =>
    cases hu
    have hnormal := Key.isNormal_of_ofValue? hj
    refine ⟨ht.setKey hnormal, fun w hw => ?_⟩
    rcases Table.mem_stored_setKey ht hnormal hw with hw | rfl | rfl
    · exact hst w hw
    · exact Heap.isLive_toValue hj hk
    · exact hv
  · simp at hu

lemma ofList_live {vs : List Value} (hvs : ∀ v ∈ vs, s.isLive v = true) :
    (Table.ofList vs).WellFormed ∧ ∀ w ∈ (Table.ofList vs).stored, s.isLive w = true := by
  have hfold : ∀ (l : List (Value × Nat)) (t : Table), t.WellFormed →
      (∀ w ∈ t.stored, s.isLive w = true) → (∀ e ∈ l, s.isLive e.1 = true) →
      (l.foldl (fun t e => t.setAt (Int64.ofNat (e.2 + 1)) e.1) t).WellFormed ∧
      ∀ w ∈ (l.foldl (fun t e => t.setAt (Int64.ofNat (e.2 + 1)) e.1) t).stored,
        s.isLive w = true := by
    intro l
    induction l with
    | nil => exact fun t ht hst _ => ⟨ht, hst⟩
    | cons e l ih =>
      intro t ht hst hl
      have hset : t.set (.int (Int64.ofNat (e.2 + 1))) e.1 =
        .ok (t.setAt (Int64.ofNat (e.2 + 1)) e.1) := rfl
      obtain ⟨ht', hst'⟩ := set_live ht hst rfl (hl e (by simp)) hset
      exact ih _ ht' hst' fun e he => hl e (by simp [he])
  refine hfold vs.zipIdx .empty Table.wellFormed_empty (by simp [Table.stored_empty]) fun e he => ?_
  exact hvs e.1 (List.fst_mem_of_mem_zipIdx he)

lemma safely_putTable {Q : PUnit → Store β → Prop} {t : Table} (hs : s.Sound)
    (hh : s.isLive (.table h) = true) (ht : t.WellFormed) (hst : ∀ w ∈ t.stored, s.isLive w = true)
    (hQ : ∀ u, u.Sound → (∀ w, s.isLive w = true → u.isLive w = true) → Q ⟨⟩ u) :
    Safely (putTable h t) s Q := by
  have hw := hs.wellFormed.heap.tables.modify h fun _ => t
  have hget : ∀ j, (s.heap.tables.put h t).get? j = if j = h then some t else s.heap.tables.get? j :=
    fun j => Arena.get?_put hh t
  have hu := Heap.updates_tables hget
  exact hQ _ (hs.withTables hw hget ht hst) fun w hw => hu.isLive s.strings w (Or.inl hw)

lemma safely_newFunction {f : Function β} (hs : s.Sound)
    (hst : ∀ w ∈ f.captures, s.isLive w = true) :
    Safely (newFunction f) s fun v t => t.Sound ∧ t.isLive v = true :=
  have hw := hs.wellFormed.heap.functions
  ⟨hs.withFunctions (hw.alloc f) (hw.get?_alloc f) hst,
    (Heap.updates_functions (hw.get?_alloc f)).isLive _ _ (Or.inr rfl)⟩

lemma safely_newUserdata {p : Payload} (hs : s.Sound) :
    Safely (newUserdata p) s fun v t => t.Sound ∧ t.isLive v = true := by
  have hw := hs.wellFormed.heap.userdata
  refine ⟨hs.withUserdata (hw.alloc _) (hw.get?_alloc _) fun w hmem => ?_,
    (Heap.updates_userdata (hw.get?_alloc _)).isLive _ _ (Or.inr rfl)⟩
  obtain rfl : w = .nil := by simpa [Userdata.stored] using hmem
  rfl

lemma safely_newThread (hs : s.Sound) (hv : s.isLive v = true) :
    Safely (newThread v) s fun w t => t.Sound ∧ t.isLive w = true :=
  have hw := hs.wellFormed.heap.threads
  ⟨hs.withThreads (hw.alloc _) (hw.get?_alloc _) hv,
    (Heap.updates_threads (hw.get?_alloc _)).isLive _ _ (Or.inr rfl)⟩

/-! ### Changing objects -/

lemma safely_putUserdata {u : Userdata} (hs : s.Sound) (hh : s.isLive (.userdata h) = true)
    (hst : ∀ w ∈ u.stored, s.isLive w = true) : Safely (putUserdata h u) s fun _ t => t.Sound :=
  hs.withUserdata (hs.wellFormed.heap.userdata.modify h _) (fun _ => Arena.get?_put hh u) hst

lemma safely_putThread {t : Thread} (hs : s.Sound) (hh : s.isLive (.thread h) = true)
    (hst : s.isLive t.body = true) : Safely (putThread h t) s fun _ t => t.Sound :=
  hs.withThreads (hs.wellFormed.heap.threads.modify h _) (fun _ => Arena.get?_put hh t) hst

lemma safely_rawSet {Q : PUnit → Store β → Prop} (hs : s.Sound) (hx : s.isLive x = true)
    (hk : s.isLive k = true) (hv : s.isLive v = true)
    (hQ : ∀ u, u.Sound → (∀ w, s.isLive w = true → u.isLive w = true) → Q ⟨⟩ u) :
    Safely (rawSet x k v) s Q := by
  refine Safely.bind (safely_expectTable hs fun h hh => ?_)
  subst hh
  refine Safely.bind (safely_table hx fun t ht => Safely.bind (safely_ofExcept hs fun u hu => ?_))
  obtain ⟨hw, hst⟩ := set_live (hs.wellFormed.heap.each h t ht) (isLive_stored_table hs ht) hk hv hu
  exact safely_putTable hs hx hw hst hQ

/-- The pairs before one that is refused are live as well, so the store is sound then too. -/
lemma safely_rawSetAll {pairs : List (Value × Value)} (hs : s.Sound) (hx : s.isLive x = true)
    (hpairs : ∀ e ∈ pairs, s.isLive e.1 = true ∧ s.isLive e.2 = true) :
    Safely (rawSetAll x pairs) s fun _ t => t.Sound ∧ t.isLive x = true := by
  induction pairs generalizing s with
  | nil => exact safely_pure ⟨hs, hx⟩
  | cons e pairs ih =>
    obtain ⟨hk, hv⟩ := hpairs e List.mem_cons_self
    refine Safely.bind (safely_rawSet hs hx hk hv fun u hu hlive => ih hu (hlive x hx) fun d hd => ?_)
    obtain ⟨hk', hv'⟩ := hpairs d (List.mem_cons_of_mem e hd)
    exact ⟨hlive _ hk', hlive _ hv'⟩

lemma safely_newTableOfPairs {pairs : List (Value × Value)} (hs : s.Sound)
    (hpairs : ∀ e ∈ pairs, s.isLive e.1 = true ∧ s.isLive e.2 = true) :
    Safely (newTableOfPairs pairs) s fun v t => t.Sound ∧ t.isLive v = true := by
  have hstored : ∀ w ∈ (Table.new 0 pairs.length).stored, s.isLive w = true := by
    simp [Table.new, Table.stored_empty]
  refine Safely.bind (safely_allocTable hs Table.wellFormed_empty hstored fun h u hu hh hlive => ?_)
  have hpairs' := fun e he => And.imp (hlive _) (hlive _) (hpairs e he)
  exact Safely.bind ((safely_rawSetAll hu hh hpairs').mono fun _ t ht => safely_pure ht)

lemma safely_rawSetAt (hs : s.Sound) (hx : s.isLive x = true) (hv : s.isLive v = true) :
    Safely (rawSetAt x i v) s fun _ t => t.Sound := by
  refine Safely.bind (safely_expectTable hs fun h hh => ?_)
  subst hh
  refine Safely.bind (safely_table hx fun t ht => ?_)
  have hset : t.set (.int i) v = .ok (t.setAt i v) := rfl
  obtain ⟨hw, hst⟩ := set_live (hs.wellFormed.heap.each h t ht) (isLive_stored_table hs ht) rfl hv hset
  exact safely_putTable hs hx hw hst fun u hu _ => hu

/-- Attaching a metatable that is live, once it is known which one. -/
lemma safely_attach {new : Option Handle} (hs : s.Sound) (hv : s.isLive v = true)
    (hnew : ∀ h, new = some h → s.isLive (.table h) = true) :
    Safely (do
      checkUnprotected v
      match v with
      | .table h =>
        let mode ← declaredMode new
        let t ← table h
        putTable h { t with metatable := new, weakMode := mode }
      | .userdata h =>
        let u ← userdata h
        putUserdata h { u with metatable := new }
      | w => fail (.type (.ownMetatable w.kind))) s fun _ t => t.Sound := by
  refine Safely.bind (safely_checkUnprotected hs hv ?_)
  cases v with
  | table h =>
    refine Safely.bind (safely_declaredMode hs hnew fun mode => ?_)
    refine Safely.bind (safely_table hv fun t ht => ?_)
    have ht' := hs.wellFormed.heap.each h t ht
    refine safely_putTable hs hv (ht'.congr rfl rfl rfl) (fun x hx => ?_) fun u hu _ => hu
    rcases Heap.mem_stored_table.1 hx with ⟨mt, hmt, rfl⟩ | hx
    · exact hnew mt hmt
    · exact isLive_stored_table hs ht x (Heap.mem_stored_table.2 (Or.inr hx))
  | userdata h =>
    refine Safely.bind (safely_userdata hv fun u hu => ?_)
    refine safely_putUserdata hs hv fun x hx => ?_
    rcases List.mem_append.1 hx with hx | hx
    · obtain ⟨mt, hmt, rfl⟩ := List.mem_map.1 hx
      exact hnew mt (Option.mem_toList.1 hmt)
    · exact isLive_stored_userdata hs hu x (List.mem_append_right _ hx)
  | _ => exact safely_fail hs

lemma safely_setMetatable (hs : s.Sound) (hv : s.isLive v = true) (hw : s.isLive w = true) :
    Safely (setMetatable v w) s fun _ t => t.Sound := by
  cases w with
  | nil => exact Safely.bind (safely_pure (safely_attach hs hv (by simp)))
  | table h =>
    refine Safely.bind (safely_pure (safely_attach hs hv fun j hj => ?_))
    cases hj
    exact hw
  | _ => exact Safely.bind (safely_fail hs)

lemma safely_setUserValue (hs : s.Sound) (hv : s.isLive v = true) (hw : s.isLive w = true) :
    Safely (setUserValue v w) s fun _ t => t.Sound := by
  cases v with
  | userdata h =>
    refine Safely.bind (safely_pure (Safely.bind (safely_userdata hv fun u hu => ?_)))
    refine safely_putUserdata hs hv fun x hx => ?_
    rcases List.mem_append.1 hx with hx | hx
    · exact isLive_stored_userdata hs hu x (List.mem_append_left _ hx)
    · obtain rfl := List.mem_singleton.1 hx
      exact hw
  | _ => exact safely_fail hs

lemma safely_setThreadStatus {status : ThreadStatus} (hs : s.Sound) (hv : s.isLive v = true) :
    Safely (setThreadStatus v status) s fun _ t => t.Sound := by
  cases v with
  | thread h =>
    refine Safely.bind (safely_pure (Safely.bind (safely_thread hv fun t ht => ?_)))
    refine safely_putThread hs hv ?_
    refine isLive_of_mem_stored hs (v := .thread h) ?_
    simp [Heap.stored, ht]
  | _ => exact safely_fail hs

/-! ### Shared metatables -/

lemma safely_setShared {kind : Kind} {mt : Option Handle} (hs : s.Sound)
    (hmt : ∀ h, mt = some h → s.isLive (.table h) = true) :
    Safely (setShared kind mt) s fun old t =>
      t.Sound ∧ ∀ h, old = some h → t.isLive (.table h) = true := by
  refine Safely.bind (safely_get ?_)
  split
  · next shared hset =>
    refine Safely.bind (safely_set (safely_pure ⟨hs.withShared fun j hj => ?_, fun h hh => ?_⟩))
    · rcases SharedMetatables.mem_toList_of_set? hset hj with hj | hj
      · exact hs.closed.shared j hj
      · exact hmt j hj
    · exact hs.closed.shared h (SharedMetatables.mem_toList hh)
  · exact safely_fail hs

lemma safely_restoreShared {shared : SharedMetatables} (hs : s.Sound)
    (hshared : ∀ mt ∈ shared.toList, s.isLive (.table mt) = true) :
    Safely (restoreShared shared) s fun _ t => t.Sound := hs.withShared hshared

/-! ### Collection -/

/-- **A collection from any roots leaves a sound store sound.** -/
theorem safely_collect {vs : List Value} (hs : s.Sound) :
    Safely (collect vs) s fun _ t => t.Sound := by
  obtain ⟨m, hmark, hm, hmarks⟩ := hs.closed.heap.markFrom (s.roots vs)
  have hcollect : s.heap.collect s.strings (s.roots vs) = .ok (Heap.reclaim m) := by
    rw [Heap.collect, hmark]
    rfl
  -- the roots are reached, so they are live afterwards
  have hroot : ∀ v ∈ s.roots vs, v.isReference = true → s.isLive v = true →
      (Heap.reclaim m).1.isLive (Heap.reclaim m).2.1 v = true := by
    intro v hv href hlive
    rw [Heap.isLive_reclaim m href, hmarks v href]
    exact .root hv hlive
  refine Safely.bind (safely_get ?_)
  rw [hcollect]
  refine Safely.bind (safely_set (safely_pure ?_))
  refine ⟨⟨hs.wellFormed.heap.reclaim hm, ?_, hs.wellFormed.names⟩, ⟨?_, ?_, ?_, ?_⟩⟩
  · exact (hs.wellFormed.strings.of_clearMarks (Interner.arena_clearMarks hm.strings_eq)).sweep
  · exact hroot _ (by simp [roots]) rfl hs.closed.registry
  · exact fun mt hmt => hroot _ (by simp [roots, hmt]) rfl (hs.closed.shared mt hmt)
  · intro e
    exact hroot (.string (s.nameOf e)) (by simp [roots, nameOf_mem hs.wellFormed.names e]) rfl
      (hs.closed.names e)
  · exact Heap.Closed.reclaim hs.wellFormed.heap hm hmarks

end Store

end LuaCore
