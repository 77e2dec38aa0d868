import LuaCore.Proofs.Heap.Termination
import LuaCore.Proofs.Heap.Twice
import LuaCore.Proofs.Program.Moves
import LuaCore.Proofs.Store.Lookup

/-!
The names of the events.

The names are interned once, when a store is made, and are kept for good: whatever becomes of the store,
they hold the bytes that they were made with.  Collections do not free them, because they are among the
roots, and interning their bytes finds them again.  So a handler, which is looked up under the name that
was kept, is what the metatable holds under a string made from the same bytes at any time.
-/

namespace LuaCore

namespace Store

variable {β : Type} {s t : Store β} {v : Value} {e : Event}

/-- **The names are there**: every event has one, with the bytes of its key. -/
structure Named (s : Store β) : Prop where
  strings : s.strings.WellFormed
  length : s.names.length = Event.all.length
  content : ∀ e, s.strings.get? (s.nameOf e) = some (Bytes.ofString e.key)

/-! ### At the start -/

/-- Interning in order gives a string for each content, and leaves those that were there. -/
lemma internAll_content {t : Interner} (ht : t.WellFormed) (bs : List Bytes) :
    (internAll t bs).1.WellFormed ∧
      (∀ h c, t.get? h = some c → (internAll t bs).1.get? h = some c) ∧
      ∀ i b, bs[i]? = some b →
        (internAll t bs).1.get? ((internAll t bs).2.getD i default) = some b := by
  induction bs generalizing t with
  | nil => exact ⟨ht, fun _ _ h => h, by simp⟩
  | cons b bs ih =>
    obtain ⟨hw, hkeep, hall⟩ := ih (ht.intern b)
    refine ⟨hw, fun h c hc => hkeep h c (Interner.get?_intern_of_get? ht.arena hc), fun i c hc => ?_⟩
    cases i with
    | zero =>
      cases hc
      have hnew : (t.intern b).1.get? (t.intern b).2 = some b := by
        rw [Interner.get?_intern ht.arena, if_pos rfl]
      exact hkeep _ b hnew
    | succ i => exact hall i c hc

lemma getElem?_place (e : Event) : Event.all[e.place]? = some e := by
  cases e <;> rfl

/-- **A fresh store has its names.** -/
lemma named_init (config : Config) : (init config : Store β).Named := by
  obtain ⟨hw, -, hall⟩ := internAll_content Interner.wellFormed_empty
    (Event.all.map fun e => Bytes.ofString e.key)
  refine ⟨hw, ?_, fun e => hall e.place _ ?_⟩
  · rw [names_init, length_internAll, List.length_map]
  · rw [List.getElem?_map, getElem?_place]
    rfl

/-! ### For good -/

/-- The names are roots, so a collection leaves them. -/
lemma Named.collected {vs : List Value} {r : CollectStats} (hs : s.Named)
    (hr : collect vs s = .ok r t) : t.Named := by
  cases hc : s.heap.collect s.strings (s.roots vs) with
  | error e =>
    rw [collect_error hc] at hr
    cases hr
  | ok x =>
    rw [collect_ok hc] at hr
    cases hr
    obtain ⟨m, rfl, hm, hgray⟩ := Heap.exists_of_collect_eq_ok hc
    refine ⟨(hs.strings.of_clearMarks hm.strings_eq).sweep, hs.length, fun e => ?_⟩
    have hlive : s.heap.isLive s.strings (.string (s.nameOf e)) = true :=
      Interner.contains_iff.2 ⟨_, hs.content e⟩
    have hmarked : m.isMarked (.string (s.nameOf e)) = true := by
      have hroot := hm.root (.string (s.nameOf e)) (by simp [roots, nameOf_mem hs.length e]) hlive
      simpa [hgray] using hroot
    exact (Heap.get?_strings_reclaim hm).2 ⟨hs.content e, hmarked⟩

/-- **Whatever becomes of a store, it has its names.** -/
lemma Named.becomes (hs : s.Named) (h : s.Becomes t) : t.Named := by
  induction h with
  | refl => exact hs
  | withHeap heap _ ih => exact ⟨ih.strings, ih.length, ih.content⟩
  | withShared shared _ ih => exact ⟨ih.strings, ih.length, ih.content⟩
  | interned b _ ih =>
    refine ⟨ih.strings.intern b, ih.length, fun e => ?_⟩
    exact Interner.get?_intern_of_get? ih.strings.arena (ih.content e)
  | collected _ hr ih => exact ih.collected hr

/-! ### Looking up under a name -/

/-- What the metatable of a value holds under a name, as for any other field: a string is made of the
name, and the metatable is read under it. -/
def fieldOf? (v : Value) (name : String) : StoreM β (Option Value) := do
  match ← metatableOf v with
  | none => return none
  | some mt =>
    let k ← newString (Bytes.ofString name)
    let h ← rawGet (.table mt) k
    return if h.isNil then none else some h

/-- Making the name of an event again gives the name that was kept, and no new string. -/
lemma Named.newString (hs : s.Named) (e : Event) :
    newString (Bytes.ofString e.key) s = .ok (.string (s.nameOf e)) s := by
  have hfind : s.strings.find? (Bytes.ofString e.key) = some (s.nameOf e) :=
    hs.strings.find?_eq_some_iff.2 (hs.content e)
  have hintern : s.strings.intern (Bytes.ofString e.key) = (s.strings, s.nameOf e) := by
    rw [Interner.intern, hfind]
  have hrun : Store.newString (Bytes.ofString e.key) s =
      .ok (.string (s.strings.intern (Bytes.ofString e.key)).2)
        { s with strings := (s.strings.intern (Bytes.ofString e.key)).1 } := rfl
  rw [hrun, hintern]

/-- Reading a metatable under the name of an event is reading its field. -/
lemma rawGet_nameOf (s : Store β) (mt : Handle) (e : Event) :
    rawGet (.table mt) (.string (s.nameOf e)) s = field mt e s := by
  have hraw : (rawGet (.table mt) (.string (s.nameOf e)) : StoreM β Value) =
      table mt >>= fun t => pure (t.getName (s.nameOf e)) := rfl
  have hfield : (field mt e : StoreM β Value) =
      table mt >>= fun t => get >>= fun s => pure (t.getName (s.nameOf e)) := rfl
  rw [hraw, hfield]
  cases ht : table mt s with
  | error x u => rw [bind_error ht, bind_error ht]
  | ok t u =>
    obtain rfl : s = u := moves_table (R := Eq) s u (Or.inl ⟨t, ht⟩)
    rw [bind_ok ht, bind_ok ht]
    rfl

lemma Named.handler?_eq (hs : s.Named) (v : Value) (e : Event) :
    handler? v e s = fieldOf? v e.key s := by
  cases hm : metatableOf v s with
  | error x t => exact (bind_error hm).trans (bind_error hm).symm
  | ok mt t =>
    obtain rfl : s = t := moves_metatableOf (R := Eq) s t (Or.inl ⟨mt, hm⟩)
    refine (bind_ok hm).trans ((bind_ok hm).trans ?_).symm
    cases mt with
    | none => rfl
    | some mt =>
      refine (bind_ok (hs.newString e)).trans ?_
      dsimp only
      have hraw := rawGet_nameOf s mt e
      cases hf : field mt e s with
      | error x u => rw [bind_error hf, bind_error (hraw.trans hf)]
      | ok w u => rw [bind_ok hf, bind_ok (hraw.trans hf)]

/-- A handler is a field of the metatable that is not nil. -/
lemma handler?_eq_some_iff {h : Value} :
    handler? v e s = .ok (some h) s ↔
      ∃ mt, metatableOf v s = .ok (some mt) s ∧ field mt e s = .ok h s ∧ h ≠ .nil := by
  constructor
  · intro hh
    cases hm : metatableOf v s with
    | error x u =>
      rw [handler?, bind_error hm] at hh
      cases hh
    | ok mt u =>
      obtain rfl : s = u := moves_metatableOf (R := Eq) s u (Or.inl ⟨mt, hm⟩)
      rw [handler?, bind_ok hm] at hh
      cases mt with
      | none => cases hh
      | some mt =>
        dsimp only at hh
        cases hf : field mt e s with
        | error x u =>
          rw [bind_error hf] at hh
          cases hh
        | ok w u =>
          obtain rfl : s = u := moves_field (R := Eq) s u (Or.inl ⟨w, hf⟩)
          rw [bind_ok hf] at hh
          by_cases hw : w.isNil = true
          · rw [if_pos hw] at hh
            cases hh
          · rw [if_neg hw] at hh
            cases hh
            exact ⟨mt, rfl, hf, fun hnil => hw (Value.isNil_iff.2 hnil)⟩
  · rintro ⟨mt, hm, hf, hnil⟩
    rw [handler?, bind_ok hm]
    dsimp only
    rw [bind_ok hf, if_neg (by simpa using hnil)]
    rfl

lemma Named.newString_rawGet (hs : s.Named) (mt : Handle) (e : Event) :
    (Store.newString (Bytes.ofString e.key) >>= rawGet (.table mt)) s = field mt e s :=
  (bind_ok (hs.newString e)).trans (rawGet_nameOf s mt e)

/-- **What a table without a metatable holds under a name stays**, if the table is among the roots of a
collection. -/
lemma Named.exists_collect {vs : List Value} {mt : Handle} {u : Table} (hn : s.Named) (hs : s.Sound)
    (hroot : .table mt ∈ s.roots vs) (hu : s.heap.tables.get? mt = some u)
    (hnone : u.metatable = none) (e : Event) :
    ∃ r t, collect vs s = .ok r t ∧ t.shared = s.shared ∧
      field mt e t = .ok (u.getName (s.nameOf e)) t := by
  obtain ⟨heap', strings', stats, hcollect, hc⟩ := Heap.exists_collected hs.wellFormed.heap hn.strings
    hs.closed.heap (s.roots vs)
  have hreach : s.heap.Reachable s.strings (s.roots vs) (.table mt) :=
    .root hroot (Arena.contains_of_get? hu)
  obtain ⟨u', hu', hkeeps, -⟩ := hc.keeps.exists_after hu hreach
  have hget : u'.getName (s.nameOf e) = u.getName (s.nameOf e) := by
    refine hkeeps.get_of_not_loses (.string (s.nameOf e)) ?_
    simp [Heap.Loses, Heap.modeOf_of_metatable_none hnone, WeakMode.strong]
  refine ⟨_, _, collect_ok hcollect, rfl, (bind_ok (table_of_get? hu')).trans ?_⟩
  rw [← hget]
  rfl

end Store

/-! ### Every run -/

namespace RunM

variable {β σ α : Type}

/-- **Handlers are fields.**  Take any moment of a run from a fresh state, where the program and the
bodies of functions work on the store as the library does, with collections at any time.  The name of
an event is then live and holds the bytes of its key, and making a string of these gives that name.  So
looking for a handler comes to the same as reading the metatable under a string made of the key, be it
that nothing is found, or that the metatable has been freed; and a handler is found exactly if there is
a metatable that holds it there and it is not nil. -/
theorem handler_is_field (host : Host β σ)
    (hhost : ∀ body captures args, (host body captures args).Moves Store.Becomes)
    (p : Program β σ α) (hp : p.Moves Store.Becomes) (n : Nat) (config : Config) (x : σ)
    (t : State β σ) (ht : Moment host n p (.init config x) t) (v : Value) (e : Event) :
    t.store.strings.get? (t.store.nameOf e) = some (Bytes.ofString e.key) ∧
    Store.newString (Bytes.ofString e.key) t.store = .ok (.string (t.store.nameOf e)) t.store ∧
    Store.handler? v e t.store = Store.fieldOf? v e.key t.store ∧
    ∀ h, Store.handler? v e t.store = .ok (some h) t.store ↔
      ∃ mt, Store.metatableOf v t.store = .ok (some mt) t.store ∧
        (Store.newString (Bytes.ofString e.key) >>= Store.rawGet (.table mt)) t.store =
          .ok h t.store ∧ h ≠ .nil := by
  have hbecomes : (Store.init config : Store β).Becomes t.store := ht.store_rel hhost hp
  have hnamed : t.store.Named := (Store.named_init config).becomes hbecomes
  refine ⟨hnamed.content e, hnamed.newString e, hnamed.handler?_eq v e, fun h => ?_⟩
  simp only [Store.handler?_eq_some_iff, hnamed.newString_rawGet]

/-! ### A handler that stays -/

/-- A function for the length. -/
def lengthFunction : Function Unit := { name := "length", captures := [], body := () }

/-- Nil gets a metatable, which holds the function under a string made of the key. -/
def handleLength : StoreM Unit (Option Handle) := do
  let name ← Store.newString (Bytes.ofString "__len")
  let f ← Store.newFunction lengthFunction
  let mt ← Store.newTableOfPairs [(name, f)]
  Store.setShared .nil mt.table?

/-- A fresh store, where this has been done. -/
def lengthHandled : Store Unit :=
  let S : Store Unit := .init {}
  { S with
    heap.functions := (S.heap.functions.alloc lengthFunction).1
    heap.tables := (S.heap.tables.alloc .empty).1.put ⟨1, 0⟩
      (S.eventTable .len (.function ⟨0, 0⟩) none)
    shared.nil := some ⟨1, 0⟩ }

lemma handleLength_init : handleLength (.init {}) = .ok none lengthHandled := by
  refine (Store.bind_ok ((Store.named_init {}).newString .len)).trans ?_
  rfl

lemma moves_handleLength : Store.Moves Store.Becomes handleLength := by
  refine Store.moves_bind Store.moves_newString fun name => ?_
  refine Store.moves_bind Store.moves_newFunction fun f => ?_
  exact Store.moves_bind Store.moves_newTableOfPairs fun mt => Store.moves_setShared

lemma get?_lengthHandled (j : Handle) :
    lengthHandled.heap.tables.get? j = if j = ⟨1, 0⟩ then
      some ((Store.init {} : Store Unit).eventTable .len (.function ⟨0, 0⟩) none)
      else (Store.init {} : Store Unit).heap.tables.get? j := by
  have hinit : (Store.init {} : Store Unit).Sound := Store.sound_init {}
  have halloc := hinit.wellFormed.heap.tables.get?_alloc Table.empty
  have hplace := Arena.contains_of_get? ((halloc ⟨1, 0⟩).trans (if_pos rfl))
  refine (Arena.get?_put hplace _).trans ?_
  by_cases hj : j = ⟨1, 0⟩
  · rw [if_pos hj, if_pos hj]
  · rw [if_neg hj, if_neg hj]
    exact (halloc j).trans (if_neg hj)

lemma sound_lengthHandled : lengthHandled.Sound := by
  have hinit : (Store.init {} : Store Unit).Sound := Store.sound_init {}
  have hfunction := hinit.withFunctions (hinit.wellFormed.heap.functions.alloc lengthFunction)
    (hinit.wellFormed.heap.functions.get?_alloc lengthFunction) (fun w hw => by cases hw)
  have htables := hfunction.withEventTable ((hfunction.wellFormed.heap.tables.alloc _).modify _ _)
    get?_lengthHandled rfl (fun m hm => by cases hm)
  have hplace := (get?_lengthHandled ⟨1, 0⟩).trans (if_pos rfl)
  exact htables.withNilMetatable (Arena.contains_of_get? hplace)

lemma exists_collect_lengthHandled :
    ∃ r S, Store.collect [] lengthHandled = .ok r S ∧
      Store.metatableOf .nil S = .ok (some ⟨1, 0⟩) S ∧
      Store.field ⟨1, 0⟩ .len S = .ok (.function ⟨0, 0⟩) S := by
  have hinit := Store.named_init (β := Unit) {}
  have hnamed : lengthHandled.Named := ⟨hinit.strings, hinit.length, hinit.content⟩
  have hroot : .table ⟨1, 0⟩ ∈ lengthHandled.roots [] := by
    simp [Store.roots, lengthHandled, SharedMetatables.toList]
  obtain ⟨r, S, hcollect, hshared, hfield⟩ := hnamed.exists_collect sound_lengthHandled hroot
    ((get?_lengthHandled ⟨1, 0⟩).trans (if_pos rfl)) rfl .len
  have hheld : ((Store.init {} : Store Unit).eventTable .len (.function ⟨0, 0⟩) none).getName
      (lengthHandled.nameOf .len) = .function ⟨0, 0⟩ :=
    (Store.getKey_eventTable _ _ _ _ _).trans (if_pos rfl)
  have hmeta : Store.metatableOf .nil S = .ok (S.shared.get? .nil) S := rfl
  rw [hshared] at hmeta
  rw [hheld] at hfield
  exact ⟨r, S, hcollect, hmeta, hfield⟩

/-- Functions that give their arguments back. -/
def returning : Host Unit Unit := fun _ _ args => pure args

/-- The handler is made, and there is a collection. -/
def handleAndCollect : Program Unit Unit CollectStats :=
  .store do
    let _ ← handleLength
    Store.collect []

/-- The collection leaves the handler, and it is found. -/
theorem handler_is_field_collected :
    ∃ t : State Unit Unit, Moment returning 0 handleAndCollect (.init {} ()) t ∧
      t.store.strings.get? (t.store.nameOf .len) = some (Bytes.ofString "__len") ∧
      Store.handler? .nil .len t.store = .ok (some (.function ⟨0, 0⟩)) t.store ∧
      Store.fieldOf? .nil "__len" t.store = .ok (some (.function ⟨0, 0⟩)) t.store := by
  obtain ⟨r, S, hcollect, hmeta, hfield⟩ := exists_collect_lengthHandled
  let t : State Unit Unit := { (.init {} () : State Unit Unit) with store := S }
  have hrun : attempt (ofStore (do let _ ← handleLength; Store.collect [])) (.init {} ()) =
      .ok (.ok r) t := by
    have hstore : (do let _ ← handleLength; Store.collect [])
        (.init {} () : State Unit Unit).store = .ok r S :=
      (Store.bind_ok handleLength_init).trans hcollect
    apply attempt_ok
    rw [ofStore, hstore]
  have ht : Moment returning 0 handleAndCollect (.init {} ()) t :=
    Or.inl ⟨_, .step (.onStore hrun) .refl⟩
  have hmoves : handleAndCollect.Moves Store.Becomes :=
    Program.moves_store (Store.moves_bind moves_handleLength fun _ => Store.moves_collect)
  obtain ⟨hname, hnew, hsame, hfound⟩ := handler_is_field returning (fun _ _ _ => trivial)
    handleAndCollect hmoves 0 {} () t ht .nil .len
  have hheld := (Store.bind_ok hnew).trans ((Store.rawGet_nameOf S ⟨1, 0⟩ .len).trans hfield)
  have hhandler := (hfound (.function ⟨0, 0⟩)).2 ⟨⟨1, 0⟩, hmeta, hheld, by simp⟩
  exact ⟨t, ht, hname, hhandler, hsame.symm.trans hhandler⟩

end RunM

end LuaCore
