import LuaCore.Proofs.Program.Safely
import LuaCore.Proofs.Store.Content
import LuaCore.Proofs.Table.Identity

/-!
Looking up in a sound store.

A sound store has every object that a look-up of a live value may need.  So looking for what a table
holds, or for a handler, is reading the store, which stays as it is; and an assignment to a table that
does not refuse the key changes one value in one table.

Where a value does not answer for a key, its handler is asked instead, and so on: a chain of values, each
of which is linked to the next.  A chain that comes back to a value goes on for ever.
-/

namespace LuaCore

/-! ### Chains -/

namespace Value

variable {link : Value → Option Value} {t c d : Value} {i j n : ℕ}

/-- The value that is reached from `t` by a number of links. -/
def follow? (link : Value → Option Value) (t : Value) : ℕ → Option Value
  | 0 => some t
  | i + 1 => (follow? link t i).bind link

/-- The chain from `t` stops at its `i`-th value, which is `c`. -/
def StopsAt (link : Value → Option Value) (t : Value) (i : ℕ) (c : Value) : Prop :=
  t.follow? link i = some c ∧ link c = none

lemma follow?_add (i j : ℕ) :
    t.follow? link (i + j) = (t.follow? link i).bind fun c => c.follow? link j := by
  induction j with
  | zero => exact (Option.bind_fun_some _).symm
  | succ j ih =>
    rw [← Nat.add_assoc, follow?, ih, Option.bind_assoc]
    rfl

lemma follow?_eq_none_of_le (h : t.follow? link i = none) (hij : i ≤ j) :
    t.follow? link j = none := by
  obtain ⟨m, rfl⟩ := Nat.exists_eq_add_of_le hij
  rw [follow?_add, h]
  rfl

/-- A chain has a value at a place exactly if it does not stop before it. -/
lemma exists_follow?_iff :
    (∃ c, t.follow? link n = some c) ↔ ∀ i < n, ∀ c, ¬t.StopsAt link i c := by
  constructor
  · rintro ⟨c, hc⟩ i hi d ⟨hd, hstop⟩
    have hnext : t.follow? link (i + 1) = none := by rw [follow?, hd, Option.bind_some, hstop]
    rw [follow?_eq_none_of_le hnext hi] at hc
    cases hc
  · intro h
    induction n with
    | zero => exact ⟨t, rfl⟩
    | succ n ih =>
      obtain ⟨c, hc⟩ := ih fun i hi => h i (by omega)
      cases hlink : link c with
      | none => exact absurd ⟨hc, hlink⟩ (h n (by omega) c)
      | some d => exact ⟨d, by rw [follow?, hc, Option.bind_some, hlink]⟩

/-- Going round a cycle any number of times leads back. -/
lemma follow?_cycle (h : c.follow? link j = some c) (m : ℕ) : c.follow? link (j * m) = some c := by
  induction m with
  | zero => rfl
  | succ m ih => rw [Nat.mul_succ, follow?_add, ih, Option.bind_some, h]

/-- **A chain that enters a cycle has no end.** -/
lemma not_stopsAt_of_cycle (hi : t.follow? link i = some c) (hj : t.follow? link j = some c)
    (hij : i < j) (n : ℕ) (d : Value) : ¬t.StopsAt link n d := by
  obtain ⟨m, rfl⟩ := Nat.exists_eq_add_of_lt hij
  have hround : c.follow? link (m + 1) = some c := by
    rwa [Nat.add_assoc, follow?_add, hi, Option.bind_some] at hj
  -- far enough round the cycle, the chain is beyond any place
  have hfar : t.follow? link (i + (m + 1) * (n + 1)) = some c := by
    rw [follow?_add, hi, Option.bind_some, follow?_cycle hround]
  have hle : n < i + (m + 1) * (n + 1) := by
    have := Nat.le_mul_of_pos_left (n + 1) m.succ_pos
    rw [Nat.succ_eq_add_one] at this
    omega
  exact exists_follow?_iff.1 ⟨c, hfar⟩ n hle d

end Value

namespace Store

variable {β : Type} {s : Store β} {k v c : Value} {h : Handle} {e : Event}

/-! ### Readings -/

/-- The metatable that governs a value. -/
def governing? (s : Store β) : Value → Option Handle
  | .table h => (s.heap.tables.get? h).bind Table.metatable
  | .userdata h => (s.heap.userdata.get? h).bind Userdata.metatable
  | v => s.shared.get? v.kind

/-- The handler of an event for a value: what the metatable holds under the name, unless that is nil. -/
def handlerOf? (s : Store β) (e : Event) (v : Value) : Option Value :=
  (s.governing? v).bind fun mt => (s.heap.tables.get? mt).bind fun u =>
    if (u.getName (s.nameOf e)).isNil then none else some (u.getName (s.nameOf e))

/-- What a value holds under a key, if it is a table and that is not nil. -/
def valueUnder? (s : Store β) (k : Value) : Value → Option Value
  | .table h => (s.heap.tables.get? h).bind fun u => if (u.get k).isNil then none else some (u.get k)
  | _ => none

/-- The text of a key that is a string. -/
def textOf? (s : Store β) : Value → Option String
  | .string h => (s.strings.get? h).map Utf8.lossyText
  | _ => none

/-- What a value says about a key if there is no handler to ask: what it holds, or nil if it is a table;
any other value can not be indexed. -/
def reply (s : Store β) (k c : Value) : Except Error Value :=
  match s.valueUnder? k c with
  | some v => .ok v
  | none => if c.isTable then .ok .nil else .error (.type (.index c.kind (s.textOf? k)))

lemma isTable_of_valueUnder? (hv : s.valueUnder? k c = some v) : c.isTable = true := by
  cases c with
  | table h => rfl
  | _ => cases hv

lemma reply_of_held (hv : s.valueUnder? k c = some v) : s.reply k c = .ok v := by
  rw [reply, hv]

lemma reply_of_table (hv : s.valueUnder? k c = none) (hc : c.isTable = true) :
    s.reply k c = .ok .nil := by
  rw [reply, hv]
  exact if_pos hc

lemma reply_of_not_table (hc : c.isTable = false) :
    s.reply k c = .error (.type (.index c.kind (s.textOf? k))) := by
  cases c with
  | table h => cases hc
  | _ => rfl

lemma reply_ne_loop (s : Store β) (k c : Value) : s.reply k c ≠ .error (.loop .read) := by
  unfold reply
  split
  · simp
  · split <;> simp

/-- The value that is asked for a key instead of `c`: its handler, if `c` does not hold the key and the
handler is no function. -/
def link? (s : Store β) (e : Event) (k c : Value) : Option Value :=
  if (s.valueUnder? k c).isSome then none else (s.handlerOf? e c).filter fun h => !h.isFunction

lemma link?_eq_some_iff {w : Value} : s.link? e k c = some w ↔
    s.valueUnder? k c = none ∧ s.handlerOf? e c = some w ∧ w.isFunction = false := by
  unfold link?
  cases s.valueUnder? k c with
  | some v => simp
  | none => simp

/-- No function is met among the first `n` values of the chain from `t`: none that does not hold the key
has one for a handler. -/
def MeetsNoFunction (s : Store β) (e : Event) (k t : Value) (n : ℕ) : Prop :=
  ∀ i < n, ∀ c f, t.follow? (s.link? e k) i = some c → s.valueUnder? k c = none →
    s.handlerOf? e c = some f → f.isFunction = false

/-- Where the chain stops at a value that has a handler to ask, the handler is a function. -/
lemma isFunction_of_link? {w : Value} (hlink : s.link? e k c = none) (hv : s.valueUnder? k c = none)
    (hw : s.handlerOf? e c = some w) : w.isFunction = true := by
  by_contra hf
  rw [link?_eq_some_iff.2 ⟨hv, hw, Bool.eq_false_iff.2 hf⟩] at hlink
  cases hlink

/-- Where the chain stops without a function, there is no handler to ask. -/
lemma MeetsNoFunction.handlerOf?_eq_none {t : Value} {i n : ℕ} (h : s.MeetsNoFunction e k t n)
    (hi : i < n) (hc : t.StopsAt (s.link? e k) i c) (hv : s.valueUnder? k c = none) :
    s.handlerOf? e c = none := by
  cases hw : s.handlerOf? e c with
  | none => rfl
  | some w =>
    have hf := h i hi c w hc.1 hv hw
    rw [isFunction_of_link? hc.2 hv hw] at hf
    cases hf

lemma table_of_get? {u : Table} (hu : s.heap.tables.get? h = some u) : table h s = .ok u s := by
  unfold table
  refine (bind_ok (x := get) rfl).trans ?_
  rw [hu]
  rfl

lemma userdata_of_get? {u : Userdata} (hu : s.heap.userdata.get? h = some u) :
    userdata h s = .ok u s := by
  unfold userdata
  refine (bind_ok (x := get) rfl).trans ?_
  rw [hu]
  rfl

lemma Safely.of_ok {α : Type} {x : StoreM β α} {Q : α → Store β → Prop} {a : α} {t : Store β}
    (hx : Safely x s Q) (ha : x s = .ok a t) : Q a t := by
  rw [Safely, ha] at hx
  exact hx

lemma held?_eq (hc : s.isLive c = true) (k : Value) : held? c k s = .ok (s.valueUnder? k c) s := by
  cases c with
  | table h =>
    obtain ⟨u, hu⟩ := Arena.contains_iff.1 hc
    refine (bind_ok (table_of_get? hu)).trans ?_
    rw [valueUnder?, hu]
    rfl
  | _ => rfl

lemma metatableOf_eq (hv : s.isLive v = true) : metatableOf v s = .ok (s.governing? v) s := by
  cases v with
  | table h =>
    obtain ⟨u, hu⟩ := Arena.contains_iff.1 hv
    refine (bind_ok (table_of_get? hu)).trans ?_
    rw [governing?, hu]
    rfl
  | userdata h =>
    obtain ⟨u, hu⟩ := Arena.contains_iff.1 hv
    refine (bind_ok (userdata_of_get? hu)).trans ?_
    rw [governing?, hu]
    rfl
  | _ => rfl

lemma isLive_governing? {mt : Handle} (hs : s.Sound) (hv : s.isLive v = true)
    (hmt : s.governing? v = some mt) : s.isLive (.table mt) = true := by
  have hsafe : Safely (metatableOf v) s fun r _ => ∀ mt, r = some mt → s.isLive (.table mt) = true :=
    safely_metatableOf hs hv fun _ hr => hr
  exact hsafe.of_ok (metatableOf_eq hv) mt hmt

/-- **Looking for a handler is reading**: the objects on the way are there. -/
lemma handler?_eq (hs : s.Sound) (hv : s.isLive v = true) (e : Event) :
    handler? v e s = .ok (s.handlerOf? e v) s := by
  refine (bind_ok (metatableOf_eq hv)).trans ?_
  rw [handlerOf?]
  cases hmt : s.governing? v with
  | none => rfl
  | some mt =>
    obtain ⟨u, hu⟩ := Arena.contains_iff.1 (isLive_governing? hs hv hmt)
    have hfield : field mt e s = .ok (u.getName (s.nameOf e)) s :=
      (bind_ok (table_of_get? hu)).trans ((bind_ok (x := get) rfl).trans rfl)
    refine (bind_ok hfield).trans ?_
    rw [Option.bind_some, hu]
    rfl

lemma isLive_handlerOf? {w : Value} (hs : s.Sound) (hv : s.isLive v = true)
    (hw : s.handlerOf? e v = some w) : s.isLive w = true := by
  have hsafe : Safely (handler? v e) s fun r _ => ∀ w, r = some w → s.isLive w = true :=
    safely_handler? hs hv fun _ hr => hr
  exact hsafe.of_ok (handler?_eq hs hv e) w hw

lemma indexError_eq (hk : s.isLive k = true) (c : Value) :
    indexError c k s = .ok (.type (.index c.kind (s.textOf? k))) s := by
  cases k with
  | string h =>
    obtain ⟨b, hb⟩ := Interner.contains_iff.1 hk
    have hbytes : bytes? (.string h) s = .ok (some b) s := (bind_ok (bytes_of_get? hb)).trans rfl
    have htext : lossyText? (.string h) s = .ok (some (Utf8.lossyText b)) s :=
      (bind_ok hbytes).trans rfl
    rw [textOf?, hb]
    exact (bind_ok htext).trans rfl
  | _ => rfl

/-- The values of a chain are live. -/
lemma isLive_follow? {t : Value} {i : ℕ} (hs : s.Sound) (ht : s.isLive t = true)
    (hc : t.follow? (s.link? e k) i = some c) : s.isLive c = true := by
  induction i generalizing c with
  | zero =>
    cases hc
    exact ht
  | succ i ih =>
    obtain ⟨d, hd, hlink⟩ := Option.bind_eq_some_iff.1 hc
    exact isLive_handlerOf? hs (ih hd) (link?_eq_some_iff.1 hlink).2.1

/-! ### Writing -/

/-- **One value is put in one place**: `t` is `s` with `v` under `k`, and under what is equal to `k`, in
the table of `h`.  All else is the same: the other values of the table and what stands beside them, the
other objects, the strings, and the rest of the store. -/
structure Puts (s : Store β) (h : Handle) (k v : Value) (t : Store β) : Prop where
  rest : t = { s with heap.tables := t.heap.tables }
  others : ∀ j, j ≠ h → t.heap.tables.get? j = s.heap.tables.get? j
  slot : ∃ u w, s.heap.tables.get? h = some u ∧ t.heap.tables.get? h = some w ∧
    (∀ j, w.get j = if k.rawEq j = true then v else u.get j) ∧
    w.metatable = u.metatable ∧ w.weakMode = u.weakMode

/-- What has been put there is read again. -/
lemma Puts.rawGet {t : Store β} (hp : s.Puts h k v t) (hk : k.IsKey) :
    rawGet (.table h) k t = .ok v t := by
  obtain ⟨u, w, -, hw, hget, -⟩ := hp.slot
  obtain ⟨j, hj⟩ := hk.exists_ofValue?
  have htable : tableOf (.table h) t = .ok w t :=
    (bind_ok (x := expectTable _) rfl).trans (table_of_get? hw)
  have hself : w.get k = v := by rw [hget, if_pos ((Key.rawEq_iff_ofValue? hj).2 hj)]
  refine (bind_ok htable).trans ?_
  rw [hself]
  rfl

/-- **An assignment puts a value in its place.** -/
lemma rawSet_of_isKey (hs : s.Sound) (hh : s.isLive (.table h) = true) (hk : k.IsKey) (v : Value) :
    ∃ t, rawSet (.table h) k v s = .ok () t ∧ s.Puts h k v t := by
  obtain ⟨u, hu⟩ := Arena.contains_iff.1 hh
  obtain ⟨w, hw, hget⟩ := (hs.wellFormed.heap.each h u hu).get_set hk v
  have hkeeps : w.metatable = u.metatable ∧ w.weakMode = u.weakMode := by
    obtain ⟨j, hj⟩ := hk.exists_ofValue?
    rw [Table.set, hj] at hw
    cases hw
    exact Table.setKey_keeps u j v
  have hput : ∀ j, (s.heap.tables.put h w).get? j = if j = h then some w else s.heap.tables.get? j :=
    fun j => Arena.get?_put hh w
  refine ⟨{ s with heap.tables := s.heap.tables.put h w }, ?_, rfl, fun j hj => ?_, ?_⟩
  · refine (bind_ok (x := expectTable _) rfl).trans ((bind_ok (table_of_get? hu)).trans ?_)
    rw [hw]
    rfl
  · exact (hput j).trans (if_neg hj)
  · exact ⟨u, w, hu, (hput h).trans (if_pos rfl), hget, hkeeps⟩

/-- Nil and NaN are refused. -/
lemma rawSet_of_not_isKey (hh : s.isLive (.table h) = true) (hk : ¬k.IsKey) (v : Value) :
    rawSet (.table h) k v s =
      .error (.error (.runtime (if k.isNil = true then .nilKey else .nanKey))) s := by
  obtain ⟨u, hu⟩ := Arena.contains_iff.1 hh
  refine (bind_ok (x := expectTable _) rfl).trans ((bind_ok (table_of_get? hu)).trans ?_)
  rw [Table.set, Value.ofValue?_of_not_isKey hk]
  rfl

lemma rawSetAll_append (x : Value) (pairs rest : List (Value × Value)) :
    (rawSetAll x (pairs ++ rest) : StoreM β Unit) =
      rawSetAll x pairs >>= fun _ => rawSetAll x rest := by
  induction pairs with
  | nil => rfl
  | cons e pairs ih =>
    show (rawSet x e.1 e.2 >>= fun _ => rawSetAll x (pairs ++ rest)) = _
    rw [ih, ← bind_assoc]
    rfl

/-- **A pair that is refused leaves the table with the pairs before it**: the state is the one that
these alone lead to. -/
theorem newTableOfPairs_of_not_isKey {pairs rest : List (Value × Value)} {t : Store β} {w : Value}
    (hs : s.Sound) (hpairs : ∀ e ∈ pairs, s.isLive e.1 = true ∧ s.isLive e.2 = true)
    (hrun : newTableOfPairs pairs s = .ok w t) (hk : ¬k.IsKey) (v : Value) :
    newTableOfPairs (pairs ++ (k, v) :: rest) s =
      .error (.error (.runtime (if k.isNil = true then .nilKey else .nanKey))) t := by
  obtain ⟨-, hw⟩ := (safely_newTableOfPairs hs hpairs).of_ok hrun
  let h : Handle := (s.heap.tables.alloc .empty).2
  let u : Store β := { s with heap.tables := (s.heap.tables.alloc .empty).1 }
  have halloc : ∀ n, allocTable (.new 0 n) s = .ok h u := fun _ => rfl
  rw [newTableOfPairs, bind_ok (halloc _)] at hrun
  cases hset : rawSetAll (.table h) pairs u with
  | error e t' =>
    rw [bind_error hset] at hrun
    cases hrun
  | ok a t' =>
    rw [bind_ok hset] at hrun
    cases hrun
    have hrefused := rawSet_of_not_isKey hw hk v
    have hall : rawSetAll (.table h) (pairs ++ (k, v) :: rest) u =
        .error (.error (.runtime (if k.isNil = true then .nilKey else .nanKey))) t := by
      rw [rawSetAll_append, bind_ok hset]
      exact bind_error hrefused
    rw [newTableOfPairs, bind_ok (halloc _), bind_error hall]

/-! ### Tables with one handler -/

section EventTable

variable {w : Value} {m : Option Handle}

/-- A table that holds a value under the name of an event, and nothing else. -/
def eventTable (s : Store β) (e : Event) (w : Value) (m : Option Handle) : Table :=
  { Table.empty.setKey (.string (s.nameOf e)) w with metatable := m }

lemma getKey_eventTable (s : Store β) (e : Event) (w : Value) (m : Option Handle) (j : Key) :
    (s.eventTable e w m).getKey j =
      if j = .string (s.nameOf e) then w else Table.empty.getKey j := by
  have hnormal : Key.IsNormal (.string (s.nameOf e)) := rfl
  exact Table.wellFormed_empty.getKey_setKey hnormal j

/-- A sound store stays sound with such a table in some place. -/
lemma Sound.withEventTable {a : Arena Table} (hs : s.Sound) (ha : a.WellFormed)
    (hget : ∀ j, a.get? j = if j = h then some (s.eventTable e w m) else s.heap.tables.get? j)
    (hw : s.isLive w = true) (hm : ∀ g, m = some g → s.isLive (.table g) = true) :
    ({ s with heap.tables := a } : Store β).Sound := by
  have hnormal : Key.IsNormal (.string (s.nameOf e)) := rfl
  have hwell : (s.eventTable e w m).WellFormed :=
    (Table.wellFormed_empty.setKey hnormal).congr rfl rfl rfl
  refine hs.withTables ha hget hwell fun v hv => ?_
  rcases Heap.mem_stored_table.1 hv with ⟨g, hg, rfl⟩ | hv
  · exact hm g hg
  · rcases Table.mem_stored_setKey Table.wellFormed_empty hnormal
      (Heap.mem_stored_table.2 (Or.inr hv)) with hv | rfl | rfl
    · cases hv
    · exact hs.closed.names e
    · exact hw

/-- What such a table governs has its value for a handler. -/
lemma handlerOf?_of_eventTable {t : Store β} (hc : t.governing? c = some h)
    (hh : t.heap.tables.get? h = some (s.eventTable e w m)) (hname : t.nameOf e = s.nameOf e)
    (hw : w.isNil = false) : t.handlerOf? e c = some w := by
  have hheld : (s.eventTable e w m).getName (t.nameOf e) = w := by
    rw [hname]
    exact (getKey_eventTable s e w m _).trans (if_pos rfl)
  rw [handlerOf?, hc, Option.bind_some, hh, Option.bind_some, hheld, hw]
  rfl

/-- Nil may be governed by any table that is there. -/
lemma Sound.withNilMetatable (hs : s.Sound) (hh : s.isLive (.table h) = true) :
    ({ s with shared.nil := some h } : Store β).Sound := by
  refine hs.withShared fun mt hmt => ?_
  rcases SharedMetatables.mem_toList_of_set? (k := .nil) rfl hmt with hmt | hmt
  · exact hs.closed.shared mt hmt
  · cases hmt
    exact hh

end EventTable

/-! ### A ring -/

/-- The table of a ring: it has itself for a metatable, and for a handler, under the name of an event. -/
def ringTable (s : Store β) (e : Event) : Table :=
  { Table.empty.setKey (.string (s.nameOf e)) (.table s.registry) with metatable := some s.registry }

/-- The store with a ring for its registry, which governs nil, too: all chains from nil lead to the
registry and go round there. -/
def ring (s : Store β) (e : Event) : Store β :=
  { s with
    heap.tables := s.heap.tables.put s.registry (s.ringTable e)
    shared.nil := some s.registry }

/-- The table of a ring holds the name of the event, and nothing else. -/
lemma getKey_ringTable (s : Store β) (e : Event) (j : Key) :
    (s.ringTable e).getKey j =
      if j = .string (s.nameOf e) then .table s.registry else Table.empty.getKey j :=
  getKey_eventTable s e (.table s.registry) (some s.registry) j

lemma get?_ring (hs : s.Sound) (e : Event) (h : Handle) :
    (s.ring e).heap.tables.get? h =
      if h = s.registry then some (s.ringTable e) else s.heap.tables.get? h :=
  Arena.get?_put hs.closed.registry _

lemma Sound.ring (hs : s.Sound) (e : Event) : (s.ring e).Sound := by
  have htables := hs.withEventTable (w := .table s.registry) (m := some s.registry)
    (hs.wellFormed.heap.tables.modify _ _) (get?_ring hs e) hs.closed.registry fun g hg => by
      cases hg
      exact hs.closed.registry
  exact htables.withNilMetatable htables.closed.registry

/-- Nil and the registry have the registry for a handler. -/
lemma handlerOf?_ring (hs : s.Sound) (hc : c = .nil ∨ c = .table s.registry) :
    (s.ring e).handlerOf? e c = some (.table s.registry) := by
  have htable : (s.ring e).heap.tables.get? s.registry = some (s.ringTable e) :=
    (get?_ring hs e _).trans (if_pos rfl)
  have hgoverning : (s.ring e).governing? c = some s.registry := by
    rcases hc with rfl | rfl
    · rfl
    · rw [governing?, htable]
      rfl
  exact handlerOf?_of_eventTable hgoverning htable rfl rfl

/-- All chains from nil stay with nil and the registry. -/
lemma follow?_ring {i : ℕ} (hs : s.Sound) (hc : Value.follow? ((s.ring e).link? e k) .nil i = some c) :
    c = .nil ∨ c = .table s.registry := by
  induction i generalizing c with
  | zero =>
    cases hc
    exact Or.inl rfl
  | succ i ih =>
    obtain ⟨d, hd, hlink⟩ := Option.bind_eq_some_iff.1 hc
    have hw := (link?_eq_some_iff.1 hlink).2.1
    rw [handlerOf?_ring hs (ih hd)] at hw
    cases hw
    exact Or.inr rfl

lemma meetsNoFunction_ring (hs : s.Sound) (e : Event) (k : Value) (n : ℕ) :
    (s.ring e).MeetsNoFunction e k .nil n := by
  intro i _ c f hc _ hf
  rw [handlerOf?_ring hs (follow?_ring hs hc)] at hf
  cases hf
  rfl

lemma link?_ring (hs : s.Sound) (e : Event) (k : Value) :
    (s.ring e).link? e k .nil = some (.table s.registry) :=
  link?_eq_some_iff.2 ⟨rfl, handlerOf?_ring hs (Or.inl rfl), rfl⟩

/-- The chain for the name of the event stops at the registry. -/
lemma stopsAt_ring (hs : s.Sound) (e : Event) :
    (s.ring e).valueUnder? (.string (s.nameOf e)) (.table s.registry) = some (.table s.registry) ∧
    Value.StopsAt ((s.ring e).link? e (.string (s.nameOf e))) .nil 1 (.table s.registry) := by
  have hheld : (s.ring e).valueUnder? (.string (s.nameOf e)) (.table s.registry) =
      some (.table s.registry) := by
    have hget : (s.ringTable e).get (.string (s.nameOf e)) = .table s.registry :=
      (getKey_ringTable s e _).trans (if_pos rfl)
    rw [valueUnder?, get?_ring hs, if_pos rfl, Option.bind_some, hget]
    rfl
  refine ⟨hheld, link?_ring hs e (.string (s.nameOf e)), ?_⟩
  rw [link?, hheld]
  rfl

/-- For any other key the chain comes back to the registry. -/
lemma follow?_ring_bool (hs : s.Sound) (e : Event) (b : Bool) :
    Value.follow? ((s.ring e).link? e (.bool b)) .nil 1 = some (.table s.registry) ∧
    Value.follow? ((s.ring e).link? e (.bool b)) .nil 2 = some (.table s.registry) := by
  have hnone : (s.ring e).valueUnder? (.bool b) (.table s.registry) = none := by
    have hget : (s.ringTable e).get (.bool b) = .nil := getKey_ringTable s e (.bool b)
    rw [valueUnder?, get?_ring hs, if_pos rfl, Option.bind_some, hget]
    rfl
  have hfirst : Value.follow? ((s.ring e).link? e (.bool b)) .nil 1 = some (.table s.registry) :=
    link?_ring hs e (.bool b)
  refine ⟨hfirst, ?_⟩
  rw [Value.follow?, hfirst, Option.bind_some]
  exact link?_eq_some_iff.2 ⟨hnone, handlerOf?_ring hs (Or.inr rfl), rfl⟩

end Store

end LuaCore
