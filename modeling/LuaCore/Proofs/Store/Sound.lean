import LuaCore.Proofs.Heap.Closed
import LuaCore.Store.Basic

/-!
Sound stores, and what it means to work on them safely.

A store is closed if everything that it can come upon by itself is live: the registry, the shared
metatables, the names of the events, and whatever a live object stores.  A computation is safe on a
store if it needs no object that has been freed, and ends, well or in an error, with a store that is
closed again.
-/

namespace LuaCore

namespace SharedMetatables

variable {m n : SharedMetatables} {k : Kind} {mt : Handle}

lemma mem_toList (hmt : m.get? k = some mt) : mt ∈ m.toList := by
  cases k <;> simp_all [get?, toList]

/-- Setting one leaves the others. -/
lemma mem_toList_of_set? {new : Option Handle} (hn : m.set? k new = some n) (hmt : mt ∈ n.toList) :
    mt ∈ m.toList ∨ new = some mt := by
  cases k <;> simp only [set?, Option.some_inj, reduceCtorEq] at hn <;> subst hn <;>
    simp only [toList, List.mem_filterMap, List.mem_cons, id, List.not_mem_nil] at hmt ⊢ <;>
    grind

end SharedMetatables

lemma Table.stored_empty : Table.empty.stored = [] := rfl

lemma Heap.closed_empty {β : Type} (strings : Interner) : ({} : Heap β).Closed strings := by
  intro v w hw
  cases v <;> simp [stored, Arena.get?_empty] at hw

namespace Store

variable {β α γ : Type} {s t : Store β} {v w : Value} {h : Handle}

/-- **Representation**: every part of the store is well formed, and every event has its name. -/
structure WellFormed (s : Store β) : Prop where
  heap : s.heap.WellFormed
  strings : s.strings.arena.WellFormed
  names : s.names.length = Event.all.length

/-- **A closed store**: what it can come upon by itself is live. -/
structure Closed (s : Store β) : Prop where
  registry : s.isLive (.table s.registry) = true
  shared : ∀ mt ∈ s.shared.toList, s.isLive (.table mt) = true
  names : ∀ e, s.isLive (.string (s.nameOf e)) = true
  heap : s.heap.Closed s.strings

structure Sound (s : Store β) : Prop where
  wellFormed : s.WellFormed
  closed : s.Closed

/-! ### A fresh store -/

lemma nameOf_mem (hs : s.names.length = Event.all.length) (e : Event) : s.nameOf e ∈ s.names := by
  have hplace : e.place < s.names.length := by
    rw [hs]
    cases e <;> decide
  rw [nameOf, List.getD_eq_getElem?_getD, List.getElem?_eq_getElem hplace]
  exact List.getElem_mem hplace

lemma length_internAll (t : Interner) (bs : List Bytes) :
    (internAll t bs).2.length = bs.length := by
  induction bs generalizing t with
  | nil => rfl
  | cons b bs ih => exact congrArg (· + 1) (ih (t.intern b).1)

/-- Interning in order: what was there stays, and what is new is there. -/
lemma internAll_live {t : Interner} (ht : t.arena.WellFormed) (bs : List Bytes) :
    (internAll t bs).1.arena.WellFormed ∧ ∀ j, t.contains j = true ∨ j ∈ (internAll t bs).2 →
      (internAll t bs).1.contains j = true := by
  induction bs generalizing t with
  | nil => exact ⟨ht, fun j hj => hj.resolve_right (by simp [internAll])⟩
  | cons b bs ih =>
    obtain ⟨hw, hlive⟩ := ih (Interner.wellFormed_intern ht b)
    refine ⟨hw, fun j hj => hlive j ?_⟩
    rcases hj with hj | hj
    · exact Or.inl (Interner.contains_intern ht b (Or.inl hj))
    · rcases List.mem_cons.1 hj with rfl | hj
      · exact Or.inl (Interner.contains_intern ht b (Or.inr rfl))
      · exact Or.inr hj

lemma names_init (config : Config) :
    (init config : Store β).names =
      (internAll .empty (Event.all.map fun e => Bytes.ofString e.key)).2 := rfl

/-- **A fresh store is sound.** -/
theorem sound_init (config : Config) : (init config : Store β).Sound := by
  have hget := Arena.wellFormed_empty.get?_alloc Table.empty
  obtain ⟨hstrings, hlive⟩ := internAll_live (t := .empty) Arena.wellFormed_empty
    (Event.all.map fun e => Bytes.ofString e.key)
  have hu : ({} : Heap β).Updates { tables := (Arena.empty.alloc Table.empty).1 }
      (.table (Arena.empty.alloc Table.empty).2) Table.empty.stored := Heap.updates_tables hget
  have hw : (init config : Store β).WellFormed := by
    refine ⟨⟨?_, ?_, ?_, ?_, ?_⟩, hstrings, ?_⟩
    · exact Arena.wellFormed_empty.alloc _
    · exact Arena.wellFormed_empty
    · exact Arena.wellFormed_empty
    · exact Arena.wellFormed_empty
    · intro h t ht
      have := (hget h).symm.trans ht
      split at this
      · cases this
        exact Table.wellFormed_empty
      · simp [Arena.get?_empty] at this
    · rw [names_init, length_internAll, List.length_map]
  refine ⟨hw, ⟨hu.isLive _ _ (Or.inr rfl), ?_, fun e => hlive _ (Or.inr (nameOf_mem hw.names e)), ?_⟩⟩
  · intro mt hmt
    simp [init, SharedMetatables.toList] at hmt
  · exact (Heap.closed_empty _).updates hu (by simp [Table.stored_empty])

/-! ### Changing one part -/

/-- An object is changed or new. -/
lemma Sound.updates (hs : s.Sound) {heap : Heap β} {ws : List Value} (hw : heap.WellFormed)
    (hu : s.heap.Updates heap v ws) (hws : ∀ w ∈ ws, s.isLive w = true ∨ w = v) :
    ({ s with heap := heap } : Store β).Sound := by
  have hlive : ∀ w, s.isLive w = true → ({ s with heap := heap } : Store β).isLive w = true :=
    fun w hw => hu.isLive s.strings w (Or.inl hw)
  refine ⟨⟨hw, hs.wellFormed.strings, hs.wellFormed.names⟩, ⟨hlive _ hs.closed.registry, ?_, ?_, ?_⟩⟩
  · exact fun mt hmt => hlive _ (hs.closed.shared mt hmt)
  · exact fun e => hlive _ (hs.closed.names e)
  · exact hs.closed.heap.updates hu hws

lemma Sound.withTables (hs : s.Sound) {a : Arena Table} {t : Table} (ha : a.WellFormed)
    (hget : ∀ j, a.get? j = if j = h then some t else s.heap.tables.get? j) (ht : t.WellFormed)
    (hst : ∀ w ∈ t.stored, s.isLive w = true) : ({ s with heap.tables := a } : Store β).Sound := by
  have hw := hs.wellFormed.heap
  refine hs.updates ?_ (Heap.updates_tables hget) fun w hmem => Or.inl (hst w hmem)
  refine { hw with tables := ha, each := fun j u hu => ?_ }
  rw [hget] at hu
  split at hu
  · cases hu
    exact ht
  · exact hw.each j u hu

lemma Sound.withFunctions (hs : s.Sound) {a : Arena (Function β)} {f : Function β} (ha : a.WellFormed)
    (hget : ∀ j, a.get? j = if j = h then some f else s.heap.functions.get? j)
    (hst : ∀ w ∈ f.captures, s.isLive w = true) :
    ({ s with heap.functions := a } : Store β).Sound :=
  hs.updates { hs.wellFormed.heap with functions := ha } (Heap.updates_functions hget)
    fun w hmem => Or.inl (hst w hmem)

lemma Sound.withUserdata (hs : s.Sound) {a : Arena Userdata} {u : Userdata} (ha : a.WellFormed)
    (hget : ∀ j, a.get? j = if j = h then some u else s.heap.userdata.get? j)
    (hst : ∀ w ∈ u.stored, s.isLive w = true) : ({ s with heap.userdata := a } : Store β).Sound :=
  hs.updates { hs.wellFormed.heap with userdata := ha } (Heap.updates_userdata hget)
    fun w hmem => Or.inl (hst w hmem)

lemma Sound.withThreads (hs : s.Sound) {a : Arena Thread} {t : Thread} (ha : a.WellFormed)
    (hget : ∀ j, a.get? j = if j = h then some t else s.heap.threads.get? j)
    (hst : s.isLive t.body = true) : ({ s with heap.threads := a } : Store β).Sound := by
  refine hs.updates { hs.wellFormed.heap with threads := ha } (Heap.updates_threads hget) ?_
  intro w hmem
  rw [List.mem_singleton.1 hmem]
  exact Or.inl hst

lemma Sound.intern (hs : s.Sound) (b : Bytes) :
    ({ s with strings := (s.strings.intern b).1 } : Store β).Sound := by
  have hw := hs.wellFormed.strings
  have hlive : ∀ w, s.isLive w = true →
      ({ s with strings := (s.strings.intern b).1 } : Store β).isLive w = true := by
    intro w hw'
    cases w with
    | string j =>
      exact Interner.contains_intern hw b (Or.inl hw')
    | _ => exact hw'
  refine ⟨⟨hs.wellFormed.heap, Interner.wellFormed_intern hw b, hs.wellFormed.names⟩,
    ⟨hlive _ hs.closed.registry, ?_, ?_, ?_⟩⟩
  · exact fun mt hmt => hlive _ (hs.closed.shared mt hmt)
  · exact fun e => hlive _ (hs.closed.names e)
  · exact fun u w hmem => hlive w (hs.closed.heap u w hmem)

lemma Sound.withShared (hs : s.Sound) {shared : SharedMetatables}
    (hshared : ∀ mt ∈ shared.toList, s.isLive (.table mt) = true) :
    ({ s with shared := shared } : Store β).Sound :=
  ⟨⟨hs.wellFormed.heap, hs.wellFormed.strings, hs.wellFormed.names⟩,
    ⟨hs.closed.registry, hshared, hs.closed.names, hs.closed.heap⟩⟩

lemma Sound.withConfig (hs : s.Sound) (config : Config) :
    ({ s with config := config } : Store β).Sound :=
  ⟨⟨hs.wellFormed.heap, hs.wellFormed.strings, hs.wellFormed.names⟩,
    ⟨hs.closed.registry, hs.closed.shared, hs.closed.names, hs.closed.heap⟩⟩

/-! ### Safe computations -/

/-- **A safe computation**: it does not stop for an object that has been freed, nor without an end; if it
raises an error, the store is sound, and if it gives a result, `Q` holds of it and of the store. -/
def Safely (x : StoreM β α) (s : Store β) (Q : α → Store β → Prop) : Prop :=
  match x s with
  | .ok a t => Q a t
  | .error (.error _) t => t.Sound
  | .error _ _ => False

variable {x : StoreM β α} {Q R : α → Store β → Prop}

lemma safely_pure {a : α} (hQ : Q a s) : Safely (pure a) s Q := hQ

lemma safely_get {Q : Store β → Store β → Prop} (hQ : Q s s) : Safely get s Q := hQ

lemma safely_require {o : Option α} {kind : ObjectKind} {a : α} (ho : o = some a) (hQ : Q a s) :
    Safely (require kind o) s Q := by
  subst ho
  exact hQ

lemma safely_set {Q : PUnit → Store β → Prop} (hQ : Q ⟨⟩ t) : Safely (set t) s Q := hQ

lemma safely_fail {e : Error} (hs : s.Sound) : Safely (fail e) s Q := hs

lemma Safely.bind {f : α → StoreM β γ} {Q : γ → Store β → Prop}
    (hx : Safely x s fun a t => Safely (f a) t Q) : Safely (x >>= f) s Q := by
  unfold Safely at hx ⊢
  show match EStateM.bind x f s with
    | .ok a t => Q a t
    | .error (.error _) t => t.Sound
    | .error _ _ => False
  unfold EStateM.bind
  cases hr : x s with
  | ok a t => simpa only [hr] using hx
  | error e t =>
    cases e with
    | error e => simpa only [hr] using hx
    | _ => simp only [hr] at hx

lemma Safely.map {f : α → γ} {Q : γ → Store β → Prop} (hx : Safely x s fun a t => Q (f a) t) :
    Safely (f <$> x) s Q := by
  unfold Safely at hx ⊢
  show match EStateM.map f x s with
    | .ok a t => Q a t
    | .error (.error _) t => t.Sound
    | .error _ _ => False
  unfold EStateM.map
  cases hr : x s with
  | ok a t => simpa only [hr] using hx
  | error e t =>
    cases e with
    | error e => simpa only [hr] using hx
    | _ => simp only [hr] at hx

lemma Safely.mono (hx : Safely x s Q) (hQ : ∀ a t, Q a t → R a t) : Safely x s R := by
  unfold Safely at hx ⊢
  cases hr : x s with
  | ok a t => simp only [hr] at hx ⊢; exact hQ a t hx
  | error e t =>
    cases e with
    | error e => simpa only [hr] using hx
    | _ => simp only [hr] at hx

lemma safely_ofExcept {r : Except Error α} (hs : s.Sound) (hQ : ∀ a, r = .ok a → Q a s) :
    Safely (ofExcept r) s Q := by
  cases r with
  | ok a => exact hQ a rfl
  | error e => exact hs

end Store

end LuaCore
