import LuaCore.Proofs.Program.Watch
import LuaCore.Proofs.Store.Lookup

/-!
Reading and writing along a chain of handlers.

Both go along the chain of handlers, and are decided where it stops, or by the bound if it does not stop
in time.  On the way they only read the store.  So reading changes nothing, as long as no function is
called, and writing puts one value in one place or fails and changes nothing.
-/

namespace LuaCore

/-- The state with another bound on the links of a chain. -/
def State.withMaxTagLoop {β σ : Type} (s : State β σ) (m : ℕ) : State β σ :=
  { s with store.config.maxTagLoop := m }

namespace Program

variable {β σ α γ : Type} {perform : Request → RunM β σ Sequence} {s : State β σ}
  {t k v c : Value} {i n : ℕ}

/-! ### Steps that only read -/

lemma watch_reading {x : StoreM β α} {a : α} {f : α → Program β σ γ}
    (hx : x s.store = .ok a s.store) :
    ((store x).bind f).watch perform s = (f a).watch perform s :=
  watch_store hx

lemma watch_store_ok {x : StoreM β α} {a : α} {S : Store β} (hx : x s.store = .ok a S) :
    (store x).watch perform s = ([], .ok a { s with store := S }) := by
  rw [← bind_done (store x), watch_store hx]
  rfl

lemma watch_store_error {x : StoreM β α} {e : Error} {S : Store β}
    (hx : x s.store = .error (.error e) S) :
    (store x).watch perform s = ([], .error (.error e) { s with store := S }) := by
  have hr : RunM.attempt (RunM.ofStore x) s = .ok (.error e) { s with store := S } := by
    apply RunM.attempt_error
    rw [RunM.ofStore, hx]
  rw [watch, store, eventsWith, runWith, RunM.bind_ok hr, hr]
  rfl

/-- A program with a number of links to go **follows** the chain from `t`: where a value of the chain is
linked to another, the program comes to the same as with the other and one link less to go. -/
def Follows (p : ℕ → Value → Program β σ α) (link : Value → Option Value) (t : Value)
    (perform : Request → RunM β σ Sequence) (s : State β σ) : Prop :=
  ∀ i c d n, t.follow? link i = some c → link c = some d →
    (p (n + 1) c).watch perform s = (p n d).watch perform s

section Follows

variable {p : ℕ → Value → Program β σ α} {link : Value → Option Value}

lemma Follows.watch_add (h : Follows p link t perform s) (hc : t.follow? link i = some c) (n : ℕ) :
    (p (n + i) t).watch perform s = (p n c).watch perform s := by
  induction i generalizing n c with
  | zero =>
    cases hc
    rfl
  | succ i ih =>
    obtain ⟨d, hd, hlink⟩ := Option.bind_eq_some_iff.1 hc
    rw [show n + (i + 1) = n + 1 + i by omega, ih hd (n + 1), h i d c n hd hlink]

/-- With more links to go than a value is away, the program comes to the value. -/
lemma Follows.exists_watch_succ (h : Follows p link t perform s) (hc : t.follow? link i = some c)
    (hi : i < n) : ∃ m, (p n t).watch perform s = (p (m + 1) c).watch perform s := by
  obtain ⟨m, rfl⟩ := Nat.exists_eq_add_of_lt hi
  refine ⟨m, ?_⟩
  rw [show i + m + 1 = m + 1 + i by omega]
  exact h.watch_add hc (m + 1)

/-- If the chain does not stop before, the program uses up its links. -/
lemma Follows.exists_watch_zero (h : Follows p link t perform s)
    (hnever : ∀ i < n, ∀ c, ¬t.StopsAt link i c) :
    ∃ c, (p n t).watch perform s = (p 0 c).watch perform s := by
  obtain ⟨c, hc⟩ := Value.exists_follow?_iff.2 hnever
  refine ⟨c, ?_⟩
  rw [← h.watch_add hc 0, Nat.zero_add]

end Follows

/-! ### Reading -/

/-- **One step of reading.** -/
lemma watch_indexIn_succ (hs : s.store.Sound) (hc : s.store.isLive c = true)
    (hk : s.store.isLive k = true) (n : ℕ) :
    (indexIn (n + 1) c k).watch perform s =
      match s.store.valueUnder? k c with
      | some v => ([], .ok v s)
      | none =>
        match s.store.handlerOf? .index c with
        | none =>
          if c.isTable then ([], .ok .nil s)
          else ([], .error (.error (.type (.index c.kind (s.store.textOf? k)))) s)
        | some f =>
          if f.isFunction then
            ([(.invoke f (.ofList [c, k]), s)], (call f [c, k]).runWith perform s)
          else (indexIn n f k).watch perform s := by
  refine (watch_reading (Store.held?_eq hc k)).trans ?_
  cases s.store.valueUnder? k c with
  | some v => rfl
  | none =>
    refine (watch_reading (Store.handler?_eq hs hc .index)).trans ?_
    cases s.store.handlerOf? .index c with
    | none =>
      dsimp only
      split
      · rfl
      · exact watch_reading (Store.indexError_eq hk c)
    | some f =>
      dsimp only
      split
      · exact watch_call f [c, k] s
      · rfl

lemma watch_index (t k : Value) (s : State β σ) :
    (index t k).watch perform s =
      (indexIn s.store.config.maxTagLoop t k).watch perform s :=
  watch_store rfl

/-- Reading goes along the chain. -/
lemma follows_indexIn (hs : s.store.Sound) (ht : s.store.isLive t = true)
    (hk : s.store.isLive k = true) :
    Follows (fun n c => indexIn n c k) (s.store.link? .index k) t perform s := by
  intro i c d n hc hlink
  obtain ⟨hnone, hd, hf⟩ := Store.link?_eq_some_iff.1 hlink
  rw [watch_indexIn_succ hs (Store.isLive_follow? hs ht hc) hk, hnone, hd]
  exact if_neg (by simp [hf])

/-- A chain that does not stop in time is an error. -/
lemma watch_index_loop (hs : s.store.Sound) (ht : s.store.isLive t = true)
    (hk : s.store.isLive k = true)
    (hnever : ∀ i < s.store.config.maxTagLoop, ∀ c, ¬t.StopsAt (s.store.link? .index k) i c) :
    (index t k).watch perform s = ([], .error (.error (.loop .read)) s) := by
  obtain ⟨c, hc⟩ := (follows_indexIn hs ht hk).exists_watch_zero hnever
  rw [watch_index, hc]
  rfl

/-- Where the chain stops without a function, the answer is there. -/
lemma watch_index_stop (hs : s.store.Sound) (ht : s.store.isLive t = true)
    (hk : s.store.isLive k = true) (hc : t.StopsAt (s.store.link? .index k) i c)
    (hi : i < s.store.config.maxTagLoop)
    (hend : s.store.valueUnder? k c = none → s.store.handlerOf? .index c = none) :
    (index t k).watch perform s = ([], RunM.ofExcept (s.store.reply k c) s) := by
  obtain ⟨n, hn⟩ := (follows_indexIn hs ht hk).exists_watch_succ hc.1 hi
  rw [watch_index, hn, watch_indexIn_succ hs (Store.isLive_follow? hs ht hc.1) hk, Store.reply]
  cases hv : s.store.valueUnder? k c with
  | some v => rfl
  | none =>
    rw [hend hv]
    dsimp only
    split <;> rfl

/-- Where the chain stops at a function, it is called, once. -/
lemma watch_index_function {f : Value} (hs : s.store.Sound) (ht : s.store.isLive t = true)
    (hk : s.store.isLive k = true) (hc : t.StopsAt (s.store.link? .index k) i c)
    (hi : i < s.store.config.maxTagLoop) (hv : s.store.valueUnder? k c = none)
    (hf : s.store.handlerOf? .index c = some f) :
    f.isFunction = true ∧ (index t k).watch perform s =
      ([(.invoke f (.ofList [c, k]), s)], (call f [c, k]).runWith perform s) := by
  have hfunction := Store.isFunction_of_link? hc.2 hv hf
  obtain ⟨n, hn⟩ := (follows_indexIn hs ht hk).exists_watch_succ hc.1 hi
  refine ⟨hfunction, ?_⟩
  rw [watch_index, hn, watch_indexIn_succ hs (Store.isLive_follow? hs ht hc.1) hk, hv, hf]
  exact if_pos hfunction

/-- As long as no function is called, reading gives a value or an error and changes nothing. -/
lemma exists_of_watch_indexIn {r : RunM.Result β σ Value} (hs : s.store.Sound)
    (hc : s.store.isLive c = true) (hk : s.store.isLive k = true)
    (hr : (indexIn n c k).watch perform s = ([], r)) :
    ∃ o : Except Error Value, r = RunM.ofExcept o s := by
  induction n generalizing c with
  | zero =>
    cases hr
    exact ⟨.error (.loop .read), rfl⟩
  | succ n ih =>
    rw [watch_indexIn_succ hs hc hk] at hr
    cases hv : s.store.valueUnder? k c with
    | some v =>
      rw [hv] at hr
      cases hr
      exact ⟨.ok v, rfl⟩
    | none =>
      cases hf : s.store.handlerOf? .index c with
      | none =>
        rw [hv, hf] at hr
        dsimp only at hr
        split at hr
        · cases hr
          exact ⟨.ok .nil, rfl⟩
        · cases hr
          exact ⟨.error (.type (.index c.kind (s.store.textOf? k))), rfl⟩
      | some f =>
        rw [hv, hf] at hr
        dsimp only at hr
        split at hr
        · cases hr
        · exact ih (Store.isLive_handlerOf? hs hc hf) hr

/-- **Reading follows the handlers up to the bound.**  In a sound store, with live values, what is read
is decided by the value at which the chain of handlers stops: what it holds under the key; nil, if it is
a table without a handler; an error that names its kind and the key, if it has no handler and is no
table; and otherwise the first result of its handler, a function, which is called once, with that value
and the key.  Reading itself fails for a loop exactly if the chain does not stop within the bound (a
function that is called may raise what it likes), and so it does if the chain comes back to a value.  If
no function is met, a higher bound makes no difference to any other outcome.  Without a call, nothing is
changed. -/
theorem index_follows_handlers (perform : Request → RunM β σ Sequence) (s : State β σ) (t k : Value)
    (hs : s.store.Sound) (ht : s.store.isLive t = true) (hk : s.store.isLive k = true) :
    (∀ i c, t.StopsAt (s.store.link? .index k) i c → i < s.store.config.maxTagLoop →
      (∀ v, s.store.valueUnder? k c = some v → (index t k).watch perform s = ([], .ok v s)) ∧
      (s.store.valueUnder? k c = none → s.store.handlerOf? .index c = none → c.isTable = true →
        (index t k).watch perform s = ([], .ok .nil s)) ∧
      (s.store.handlerOf? .index c = none → c.isTable = false →
        (index t k).watch perform s =
          ([], .error (.error (.type (.index c.kind (s.store.textOf? k)))) s)) ∧
      ∀ f, s.store.valueUnder? k c = none → s.store.handlerOf? .index c = some f →
        f.isFunction = true ∧ (index t k).watch perform s =
          ([(.invoke f (.ofList [c, k]), s)], (call f [c, k]).runWith perform s)) ∧
    ((index t k).watch perform s = ([], .error (.error (.loop .read)) s) ↔
      ∀ i < s.store.config.maxTagLoop, ∀ c, ¬t.StopsAt (s.store.link? .index k) i c) ∧
    (Error.loop .read).message = "loop in gettable" ∧
    (∀ i j c, i < j → t.follow? (s.store.link? .index k) i = some c →
      t.follow? (s.store.link? .index k) j = some c →
      (index t k).watch perform s = ([], .error (.error (.loop .read)) s)) ∧
    (s.store.MeetsNoFunction .index k t s.store.config.maxTagLoop →
      ∃ o : Except Error Value, (index t k).watch perform s = ([], RunM.ofExcept o s) ∧
        (o ≠ .error (.loop .read) → ∀ m, s.store.config.maxTagLoop ≤ m →
          (index t k).watch perform (s.withMaxTagLoop m) =
            ([], RunM.ofExcept o (s.withMaxTagLoop m)))) ∧
    ∀ r, (index t k).watch perform s = ([], r) → ∃ o : Except Error Value, r = RunM.ofExcept o s := by
  refine ⟨fun i c hc hi => ⟨fun v hv => ?_, fun hv hend htable => ?_, fun hend htable => ?_,
    fun f hv hf => ?_⟩, ⟨fun hloop i hi c hc => ?_, watch_index_loop hs ht hk⟩,
    rfl, fun i j c hij hci hcj => ?_, fun hno => ?_, fun r hr => ?_⟩
  · rw [watch_index_stop hs ht hk hc hi (by simp [hv]), Store.reply_of_held hv]
    rfl
  · rw [watch_index_stop hs ht hk hc hi fun _ => hend, Store.reply_of_table hv htable]
    rfl
  · rw [watch_index_stop hs ht hk hc hi fun _ => hend, Store.reply_of_not_table htable]
    rfl
  · exact watch_index_function hs ht hk hc hi hv hf
  · -- where the chain stops there is an answer, or a call
    by_cases hend : s.store.valueUnder? k c = none → s.store.handlerOf? .index c = none
    · rw [watch_index_stop hs ht hk hc hi hend] at hloop
      cases ho : s.store.reply k c with
      | ok v =>
        rw [ho] at hloop
        cases hloop
      | error x =>
        rw [ho] at hloop
        cases hloop
        exact Store.reply_ne_loop s.store k c ho
    · obtain ⟨hv, hf⟩ := Classical.not_imp.1 hend
      obtain ⟨f, hf⟩ := Option.ne_none_iff_exists'.1 hf
      rw [(watch_index_function hs ht hk hc hi hv hf).2] at hloop
      cases hloop
  · exact watch_index_loop hs ht hk fun n _ d => Value.not_stopsAt_of_cycle hci hcj hij n d
  · by_cases hstop : ∃ i < s.store.config.maxTagLoop, ∃ c, t.StopsAt (s.store.link? .index k) i c
    · obtain ⟨i, hi, c, hc⟩ := hstop
      have hend := hno.handlerOf?_eq_none hi hc
      refine ⟨s.store.reply k c, watch_index_stop hs ht hk hc hi hend, fun _ m hm => ?_⟩
      -- the chain does not depend on the bound
      exact watch_index_stop (s := s.withMaxTagLoop m) (hs.withConfig _) ht hk hc (hi.trans_le hm) hend
    · simp only [not_exists, not_and] at hstop
      exact ⟨.error (.loop .read), watch_index_loop hs ht hk hstop, fun hne => absurd rfl hne⟩
  · rw [watch_index] at hr
    exact exists_of_watch_indexIn hs ht hk hr

/-- A state with a ring for its registry. -/
def ringState (e : Event) : State Unit Unit := { store := (Store.init {}).ring e, host := () }

/-- Through nil, the registry is found under the name of the event; under any other key there is no
end. -/
theorem index_follows_handlers_ring :
    (ringState .index).store.Sound ∧
    (index .nil (.string ((ringState .index).store.nameOf .index))).watch (fun _ => throw .endless)
        (ringState .index) =
      ([], .ok (.table (ringState .index).store.registry) (ringState .index)) ∧
    (index .nil (.bool true)).watch (fun _ => throw .endless) (ringState .index) =
      ([], .error (.error (.loop .read)) (ringState .index)) := by
  have hinit : (Store.init {} : Store Unit).Sound := Store.sound_init {}
  have hs : (ringState .index).store.Sound := hinit.ring .index
  obtain ⟨hheld, hstop⟩ := Store.stopsAt_ring hinit .index
  obtain ⟨hfirst, hsecond⟩ := Store.follow?_ring_bool hinit .index true
  obtain ⟨hname, -⟩ := index_follows_handlers (fun _ => throw .endless) (ringState .index) .nil
    (.string ((ringState .index).store.nameOf .index)) hs rfl (hs.closed.names .index)
  obtain ⟨-, -, -, hcycle, -⟩ := index_follows_handlers (fun _ => throw .endless) (ringState .index) .nil
    (.bool true) hs rfl rfl
  exact ⟨hs, (hname 1 _ hstop (by decide)).1 _ hheld, hcycle 1 2 _ (by decide) hfirst hsecond⟩

/-! ### Writing -/

/-- The call of a function for nothing but what it does. -/
lemma watch_discard_call (g : Value) (vs : List Value) (s : State β σ) :
    (discard (call g vs)).watch perform s =
      ([(.invoke g (.ofList vs), s)], (discard (call g vs)).runWith perform s) := by
  have hcalls : (call g vs : Program β σ Value).eventsWith perform (fun q t => [(q, t)]) s =
      [(.invoke g (.ofList vs), s)] := congrArg Prod.fst (watch_call g vs s)
  have hdiscard : (discard (call g vs) : Program β σ PUnit) =
      (call g vs).bind fun a => done (Function.const _ ⟨⟩ a) := rfl
  refine congrArg (·, _) ?_
  rw [hdiscard, eventsWith_bind, hcalls]
  cases (call g vs).runWith perform s <;> rfl

/-- **One step of writing.** -/
lemma watch_assignIn_succ (hs : s.store.Sound) (hc : s.store.isLive c = true)
    (hk : s.store.isLive k = true) (v : Value) (n : ℕ) :
    (assignIn (n + 1) c k v).watch perform s =
      match s.store.valueUnder? k c with
      | some _ => (store (Store.rawSet c k v)).watch perform s
      | none =>
        match s.store.handlerOf? .newIndex c with
        | none =>
          if c.isTable then (store (Store.rawSet c k v)).watch perform s
          else ([], .error (.error (.type (.index c.kind (s.store.textOf? k)))) s)
        | some f =>
          if f.isFunction then
            ([(.invoke f (.ofList [c, k, v]), s)],
              (discard (call f [c, k, v])).runWith perform s)
          else (assignIn n f k v).watch perform s := by
  refine (watch_reading (Store.held?_eq hc k)).trans ?_
  cases s.store.valueUnder? k c with
  | some _ => rfl
  | none =>
    refine (watch_reading (Store.handler?_eq hs hc .newIndex)).trans ?_
    cases s.store.handlerOf? .newIndex c with
    | none =>
      dsimp only
      split
      · rfl
      · exact watch_reading (Store.indexError_eq hk c)
    | some f =>
      dsimp only
      split
      · exact watch_discard_call f [c, k, v] s
      · rfl

lemma watch_assign (t k v : Value) (s : State β σ) :
    (assign t k v).watch perform s =
      (assignIn s.store.config.maxTagLoop t k v).watch perform s :=
  watch_store rfl

/-- Writing goes along the chain. -/
lemma follows_assignIn (hs : s.store.Sound) (ht : s.store.isLive t = true)
    (hk : s.store.isLive k = true) (v : Value) :
    Follows (fun n c => assignIn n c k v) (s.store.link? .newIndex k) t perform s := by
  intro i c d n hc hlink
  obtain ⟨hnone, hd, hf⟩ := Store.link?_eq_some_iff.1 hlink
  rw [watch_assignIn_succ hs (Store.isLive_follow? hs ht hc) hk, hnone, hd]
  exact if_neg (by simp [hf])

/-- Where the chain stops without a function, there is the place. -/
lemma watch_assign_stop (hs : s.store.Sound) (ht : s.store.isLive t = true)
    (hk : s.store.isLive k = true) (hc : t.StopsAt (s.store.link? .newIndex k) i c)
    (hi : i < s.store.config.maxTagLoop)
    (hend : s.store.valueUnder? k c = none → s.store.handlerOf? .newIndex c = none) (v : Value) :
    (assign t k v).watch perform s =
      if c.isTable then (store (Store.rawSet c k v)).watch perform s
      else ([], .error (.error (.type (.index c.kind (s.store.textOf? k)))) s) := by
  obtain ⟨n, hn⟩ := (follows_assignIn hs ht hk v).exists_watch_succ hc.1 hi
  rw [watch_assign, hn, watch_assignIn_succ hs (Store.isLive_follow? hs ht hc.1) hk]
  cases hv : s.store.valueUnder? k c with
  | some w => exact (if_pos (Store.isTable_of_valueUnder? hv)).symm
  | none => rw [hend hv]

lemma watch_assign_loop (hs : s.store.Sound) (ht : s.store.isLive t = true)
    (hk : s.store.isLive k = true)
    (hnever : ∀ i < s.store.config.maxTagLoop, ∀ c, ¬t.StopsAt (s.store.link? .newIndex k) i c)
    (v : Value) :
    (assign t k v).watch perform s = ([], .error (.error (.loop .write)) s) := by
  obtain ⟨c, hc⟩ := (follows_assignIn hs ht hk v).exists_watch_zero hnever
  rw [watch_assign, hc]
  rfl

/-- What a table refuses changes nothing. -/
lemma eq_of_watch_rawSet {e : Stop} {u : State β σ} (hs : s.store.Sound)
    (hc : s.store.isLive c = true) (htable : c.isTable = true)
    (hr : (store (Store.rawSet c k v)).watch perform s = ([], .error e u)) : u = s := by
  cases c with
  | table h =>
    by_cases hkey : k.IsKey
    · obtain ⟨S, hset, -⟩ := Store.rawSet_of_isKey hs hc hkey v
      rw [watch_store_ok hset] at hr
      cases hr
    · rw [watch_store_error (Store.rawSet_of_not_isKey hc hkey v)] at hr
      cases hr
      rfl
  | _ => cases htable

/-- As long as no function is called, writing that fails changes nothing. -/
lemma eq_of_watch_assignIn {e : Stop} {u : State β σ} (hs : s.store.Sound)
    (hc : s.store.isLive c = true) (hk : s.store.isLive k = true)
    (hr : (assignIn n c k v).watch perform s = ([], .error e u)) : u = s := by
  induction n generalizing c with
  | zero =>
    cases hr
    rfl
  | succ n ih =>
    rw [watch_assignIn_succ hs hc hk] at hr
    cases hv : s.store.valueUnder? k c with
    | some w =>
      rw [hv] at hr
      exact eq_of_watch_rawSet hs hc (Store.isTable_of_valueUnder? hv) hr
    | none =>
      cases hf : s.store.handlerOf? .newIndex c with
      | none =>
        rw [hv, hf] at hr
        dsimp only at hr
        split at hr
        · next htable => exact eq_of_watch_rawSet hs hc htable hr
        · cases hr
          rfl
      | some f =>
        rw [hv, hf] at hr
        dsimp only at hr
        split at hr
        · cases hr
        · exact ih (Store.isLive_handlerOf? hs hc hf) hr

/-- **Writing puts one value in one place, or changes nothing.**  In a sound store, with live values,
suppose that no function is met among the handlers.  If the chain stops within the bound at a table, and
the key is neither nil nor NaN, the value is put under the key in that table and can be read there, and
all else is as before.  In every other case writing fails, and the state is as before: because the chain
does not stop within the bound, because it stops at a value that is no table, or because of the key.
Whatever the handlers are, writing that fails without a call changes nothing. -/
theorem assign_writes_one_place (perform : Request → RunM β σ Sequence) (s : State β σ)
    (t k v : Value) (hs : s.store.Sound) (ht : s.store.isLive t = true)
    (hk : s.store.isLive k = true) :
    (s.store.MeetsNoFunction .newIndex k t s.store.config.maxTagLoop →
      (∀ i h, t.StopsAt (s.store.link? .newIndex k) i (.table h) →
        i < s.store.config.maxTagLoop → k.IsKey →
        ∃ S, (assign t k v).watch perform s = ([], .ok () { s with store := S }) ∧
          s.store.Puts h k v S ∧ Store.rawGet (.table h) k S = .ok v S) ∧
      ((¬∃ i h, t.StopsAt (s.store.link? .newIndex k) i (.table h) ∧
        i < s.store.config.maxTagLoop ∧ k.IsKey) →
        ∃ e, (assign t k v).watch perform s = ([], .error (.error e) s)) ∧
      ((∀ i < s.store.config.maxTagLoop, ∀ c, ¬t.StopsAt (s.store.link? .newIndex k) i c) →
        (assign t k v).watch perform s = ([], .error (.error (.loop .write)) s)) ∧
      (Error.loop .write).message = "loop in settable" ∧
      (∀ i c, t.StopsAt (s.store.link? .newIndex k) i c → i < s.store.config.maxTagLoop →
        c.isTable = false → (assign t k v).watch perform s =
          ([], .error (.error (.type (.index c.kind (s.store.textOf? k)))) s)) ∧
      ∀ i h, t.StopsAt (s.store.link? .newIndex k) i (.table h) →
        i < s.store.config.maxTagLoop → ¬k.IsKey → (assign t k v).watch perform s =
          ([], .error (.error (.runtime (if k.isNil = true then .nilKey else .nanKey))) s)) ∧
    ∀ e u, (assign t k v).watch perform s = ([], .error e u) → u = s := by
  refine ⟨fun hno => ?_, fun e u hr => ?_⟩
  · have hnoTable : ∀ i c, t.StopsAt (s.store.link? .newIndex k) i c →
        i < s.store.config.maxTagLoop → c.isTable = false → (assign t k v).watch perform s =
          ([], .error (.error (.type (.index c.kind (s.store.textOf? k)))) s) := by
      intro i c hc hi htable
      rw [watch_assign_stop hs ht hk hc hi (hno.handlerOf?_eq_none hi hc) v, if_neg (by simp [htable])]
    have htable : ∀ i h, t.StopsAt (s.store.link? .newIndex k) i (.table h) →
        i < s.store.config.maxTagLoop → (assign t k v).watch perform s =
          (store (Store.rawSet (.table h) k v)).watch perform s := by
      intro i h hc hi
      rw [watch_assign_stop hs ht hk hc hi (hno.handlerOf?_eq_none hi hc) v]
      exact if_pos rfl
    have hrefused : ∀ i h, t.StopsAt (s.store.link? .newIndex k) i (.table h) →
        i < s.store.config.maxTagLoop → ¬k.IsKey → (assign t k v).watch perform s =
          ([], .error (.error (.runtime (if k.isNil = true then .nilKey else .nanKey))) s) := by
      intro i h hc hi hkey
      rw [htable i h hc hi]
      exact watch_store_error (Store.rawSet_of_not_isKey (Store.isLive_follow? hs ht hc.1) hkey v)
    refine ⟨fun i h hc hi hkey => ?_, fun hother => ?_, fun hnever => watch_assign_loop hs ht hk hnever v,
      rfl, hnoTable, hrefused⟩
    · obtain ⟨S, hset, hputs⟩ := Store.rawSet_of_isKey hs (Store.isLive_follow? hs ht hc.1) hkey v
      refine ⟨S, ?_, hputs, hputs.rawGet hkey⟩
      rw [htable i h hc hi]
      exact watch_store_ok hset
    · by_cases hstop : ∃ i < s.store.config.maxTagLoop, ∃ c, t.StopsAt (s.store.link? .newIndex k) i c
      · obtain ⟨i, hi, c, hc⟩ := hstop
        cases c with
        | table h => exact ⟨_, hrefused i h hc hi fun hkey => hother ⟨i, h, hc, hi, hkey⟩⟩
        | _ => exact ⟨_, hnoTable i _ hc hi rfl⟩
      · simp only [not_exists, not_and] at hstop
        exact ⟨_, watch_assign_loop hs ht hk hstop v⟩
  · rw [watch_assign] at hr
    exact eq_of_watch_assignIn hs ht hk hr

/-- Through nil, a value is put into the registry under the name of the event, which it holds; under any
other key there is no end. -/
theorem assign_writes_one_place_ring :
    (ringState .newIndex).store.Sound ∧
    (∃ S, (assign .nil (.string ((ringState .newIndex).store.nameOf .newIndex)) (.bool false)).watch
        (fun _ => throw .endless) (ringState .newIndex) =
          ([], .ok () { ringState .newIndex with store := S }) ∧
      Store.rawGet (.table (ringState .newIndex).store.registry)
        (.string ((ringState .newIndex).store.nameOf .newIndex)) S = .ok (.bool false) S) ∧
    (assign .nil (.bool true) (.bool false)).watch (fun _ => throw .endless) (ringState .newIndex) =
      ([], .error (.error (.loop .write)) (ringState .newIndex)) := by
  have hinit : (Store.init {} : Store Unit).Sound := Store.sound_init {}
  have hs : (ringState .newIndex).store.Sound := hinit.ring .newIndex
  obtain ⟨-, hstop⟩ := Store.stopsAt_ring hinit .newIndex
  obtain ⟨hfirst, hsecond⟩ := Store.follow?_ring_bool hinit .newIndex true
  obtain ⟨hname, -⟩ := assign_writes_one_place (fun _ => throw .endless) (ringState .newIndex) .nil
    (.string ((ringState .newIndex).store.nameOf .newIndex)) (.bool false) hs rfl
    (hs.closed.names .newIndex)
  obtain ⟨hother, -⟩ := assign_writes_one_place (fun _ => throw .endless) (ringState .newIndex) .nil
    (.bool true) (.bool false) hs rfl rfl
  obtain ⟨S, hrun, -, hget⟩ := (hname (Store.meetsNoFunction_ring hinit _ _ _)).1 1 _ hstop (by decide)
    ⟨by simp, by simp⟩
  have hcycle := Value.not_stopsAt_of_cycle hfirst hsecond (by decide)
  exact ⟨hs, ⟨S, hrun, hget⟩,
    (hother (Store.meetsNoFunction_ring hinit _ _ _)).2.2.1 fun n _ c => hcycle n c⟩

end Program

end LuaCore
