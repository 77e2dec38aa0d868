import LuaCore.Proofs.Program.Chain
import LuaCore.Proofs.Program.Index
import LuaCore.Proofs.Sequence.Lists

/-!
Calling what is no function.

A callee that is no function is called through its handler, and this may be no function in turn.  The
chain of callees is followed up to the bound.  Where it comes to a function, the body of that function is
run, once, and every callee that was passed on the way is among its arguments: the last one first, and
the arguments of the call behind them.  Otherwise no body is run, and nothing is changed.
-/

namespace LuaCore

/-! ### Chains and what they pass -/

namespace Value

variable {link : Value → Option Value} {t c : Value} {i n : ℕ}

/-- The values of a chain before its `n`-th one, the last of them first. -/
def trail (link : Value → Option Value) (t : Value) : ℕ → List Value
  | 0 => []
  | n + 1 => (t.follow? link n).toList ++ t.trail link n

/-- A chain that comes to its `n`-th value has passed `n` of them. -/
lemma length_trail (hc : t.follow? link n = some c) : (t.trail link n).length = n := by
  induction n generalizing c with
  | zero => rfl
  | succ n ih =>
    obtain ⟨d, hd, -⟩ := Option.bind_eq_some_iff.1 hc
    rw [trail, hd, Option.toList_some, List.length_append, ih hd, List.length_singleton, Nat.add_comm]

/-- What goes over from each value to the next holds of all values of the chain. -/
lemma forall_of_follow? {P : Value → Prop} (ht : P t) (hstep : ∀ c d, P c → link c = some d → P d)
    (hc : t.follow? link i = some c) : P c := by
  induction i generalizing c with
  | zero =>
    cases hc
    exact ht
  | succ i ih =>
    obtain ⟨d, hd, hlink⟩ := Option.bind_eq_some_iff.1 hc
    exact hstep d c (ih hd) hlink

end Value

/-! ### Values in front of a sequence -/

namespace Sequence

variable {l : Ledger} {s : Sequence} {ws : List Value} {n : ℕ}

/-- Values in front of a sequence, the last of them put there first. -/
def inFront (vs : List Value) (s : Sequence) : Sequence := vs.foldr cons s

lemma lists_inFront (vs : List Value) (hs : Lists l s ws) : Lists l (s.inFront vs) (vs ++ ws) := by
  induction vs with
  | nil => exact hs
  | cons v vs ih => exact ih.cons v

lemma own_cons (v : Value) (s : Sequence) : (s.cons v).own = v :: s.own := by
  cases s <;> rfl

lemma behind?_cons (v : Value) (s : Sequence) : (s.cons v).behind? l = s.behind? l := by
  cases s <;> rfl

/-- A value in front is one more to count, however the sequence ends. -/
lemma count?_cons (l : Ledger) (v : Value) (s : Sequence) :
    (s.cons v).count? l = (s.count? l).map (1 + ·) := by
  have hwith : ∀ later, (s.cons v).countWith l later = (s.countWith l later).map (1 + ·) := by
    intro later
    rw [countWith_eq, countWith_eq, own_cons, behind?_cons, Option.map_map]
    apply congrArg (Option.map · _)
    funext k
    simp only [List.length_cons, Function.comp_apply]
    omega
  unfold count?
  cases l.size with
  | zero => exact hwith _
  | succ k => exact hwith _

lemma count?_inFront (vs : List Value) (hn : s.count? l = some n) :
    (s.inFront vs).count? l = some (vs.length + n) := by
  induction vs with
  | nil => rw [List.length_nil, Nat.zero_add]; exact hn
  | cons v vs ih =>
    rw [show s.inFront (v :: vs) = (s.inFront vs).cons v from rfl, count?_cons, ih, Option.map_some,
      List.length_cons]
    congr 1
    omega

end Sequence

/-! ### Finding the function -/

namespace Store

variable {β : Type} {s : Store β} {t c : Value} {n : ℕ}

/-- The value that is called in place of `c`: its handler, if `c` is no function. -/
def calledFor? (s : Store β) (c : Value) : Option Value :=
  if c.isFunction then none else s.handlerOf? .call c

lemma calledFor?_of_not_isFunction (hc : c.isFunction = false) :
    s.calledFor? c = s.handlerOf? .call c := if_neg (by simp [hc])

lemma calledFor?_eq_some_iff {d : Value} :
    s.calledFor? c = some d ↔ c.isFunction = false ∧ s.handlerOf? .call c = some d := by
  unfold calledFor?
  cases c.isFunction <;> simp

/-- The callees of a chain are live. -/
lemma isLive_callee (hs : s.Sound) (ht : s.isLive t = true)
    (hc : t.follow? s.calledFor? n = some c) : s.isLive c = true := by
  refine Value.forall_of_follow? (P := fun c => s.isLive c = true) ht (fun c d hlive hlink => ?_) hc
  exact isLive_handlerOf? hs hlive (calledFor?_eq_some_iff.1 hlink).2

lemma resolve_function {h : Handle} {f : Function β} (hf : s.heap.functions.get? h = some f) (n : ℕ)
    (a : Sequence) : resolve (n + 1) (.function h) a s = .ok (f, a) s := by
  have hread : function h s = .ok f s := by
    unfold function
    refine (bind_ok (x := get) rfl).trans ?_
    rw [hf]
    rfl
  exact (bind_ok hread).trans rfl

/-- **One step**: a callee that is no function goes in front of the arguments. -/
lemma resolve_succ (hs : s.Sound) (hlive : s.isLive c = true) (hc : c.isFunction = false) (n : ℕ)
    (a : Sequence) :
    resolve (n + 1) c a s =
      match s.handlerOf? .call c with
      | some d => resolve n d (a.cons c) s
      | none => .error (.error (.type (.call c.kind))) s := by
  have hread := handler?_eq hs hlive .call
  cases hd : s.handlerOf? .call c with
  | none =>
    rw [hd] at hread
    cases c with
    | function h => cases hc
    | _ => exact (bind_ok hread).trans rfl
  | some d =>
    rw [hd] at hread
    cases c with
    | function h => cases hc
    | _ => exact (bind_ok hread).trans rfl

/-- **Along the chain**, with a link less to go for each callee that is passed. -/
lemma resolve_add (hs : s.Sound) (ht : s.isLive t = true) (hc : t.follow? s.calledFor? n = some c)
    (m : ℕ) (a : Sequence) :
    resolve (m + n) t a s = resolve m c (a.inFront (t.trail s.calledFor? n)) s := by
  induction n generalizing m c with
  | zero =>
    cases hc
    rfl
  | succ n ih =>
    obtain ⟨d, hd, hlink⟩ := Option.bind_eq_some_iff.1 hc
    obtain ⟨hfun, hhandler⟩ := calledFor?_eq_some_iff.1 hlink
    rw [show m + (n + 1) = m + 1 + n by omega, ih hd (m + 1),
      resolve_succ hs (isLive_callee hs ht hd) hfun, hhandler, Value.trail, hd]
    rfl

/-- Where the chain comes to a function within the bound, that is the one. -/
lemma resolve_of_function {h : Handle} {f : Function β} {m : ℕ} (hs : s.Sound)
    (ht : s.isLive t = true) (hc : t.follow? s.calledFor? n = some (.function h)) (hn : n < m)
    (hf : s.heap.functions.get? h = some f) (a : Sequence) :
    resolve m t a s = .ok (f, a.inFront (t.trail s.calledFor? n)) s := by
  obtain ⟨k, rfl⟩ := Nat.exists_eq_add_of_lt hn
  rw [show n + k + 1 = k + 1 + n by omega, resolve_add hs ht hc (k + 1), resolve_function hf]

/-- Where it comes to a value without a handler, this can not be called. -/
lemma resolve_of_no_handler {m : ℕ} (hs : s.Sound) (ht : s.isLive t = true)
    (hc : t.follow? s.calledFor? n = some c) (hn : n < m) (hfun : c.isFunction = false)
    (hhandler : s.handlerOf? .call c = none) (a : Sequence) :
    resolve m t a s = .error (.error (.type (.call c.kind))) s := by
  obtain ⟨k, rfl⟩ := Nat.exists_eq_add_of_lt hn
  rw [show n + k + 1 = k + 1 + n by omega, resolve_add hs ht hc (k + 1),
    resolve_succ hs (isLive_callee hs ht hc) hfun, hhandler]

/-- And where it is longer than the bound, it is followed no further. -/
lemma resolve_of_long {m : ℕ} (hs : s.Sound) (ht : s.isLive t = true)
    (hlong : ∀ i < m, ∀ c, ¬t.StopsAt s.calledFor? i c) (a : Sequence) :
    resolve m t a s = .error (.error (.runtime .callChain)) s := by
  obtain ⟨c, hc⟩ := Value.exists_follow?_iff.2 hlong
  rw [← Nat.zero_add m, resolve_add hs ht hc 0]
  rfl

end Store

/-! ### Calling -/

namespace RunM

variable {β σ : Type} {host : Host β σ} {perform : Request → RunM β σ Sequence} {s u : State β σ}
  {t : Value} {a x : Sequence} {p : Program β σ Sequence}

/-- **A call that is refused**: it comes to an error, with the state as before, and starts no body. -/
def Refuses (host : Host β σ) (perform : Request → RunM β σ Sequence) (s : State β σ) (t : Value)
    (a : Sequence) (e : Error) : Prop :=
  enter host perform t a s = .error (.error e) s ∧ ∀ p u, ¬Starts host s t a p u

lemma refuses_of_resolve {e : Error}
    (hr : Store.resolve s.store.config.maxTagLoop t a s.store = .error (.error e) s.store) :
    Refuses host perform s t a e := by
  constructor
  · rw [enter_eq, hr]
  · rintro p u ⟨k, y, v, hk, -⟩
    rw [hr] at hk
    cases hk

lemma refuses_of_isFull {f : Function β}
    (hr : Store.resolve s.store.config.maxTagLoop t a s.store = .ok (f, x) s.store)
    (hfull : s.isFull = true) : Refuses host perform s t a .stackOverflow := by
  constructor
  · rw [enter_eq, hr]
    exact if_pos hfull
  · rintro p u ⟨k, y, v, hk, hnot, -⟩
    rw [hr] at hk
    cases hk
    exact Bool.false_ne_true (hnot.symm.trans hfull)

/-- The one body that a call starts. -/
lemma starts_iff {f : Function β}
    (hr : Store.resolve s.store.config.maxTagLoop t a s.store = .ok (f, x) s.store)
    (hfull : s.isFull = false) :
    Starts host s t a p u ↔
      p = host f.body f.captures x ∧ u = { s with depth := s.depth + 1 } := by
  constructor
  · rintro ⟨k, y, v, hk, -, hp, hu⟩
    rw [hr] at hk
    cases hk
    exact ⟨hp, hu⟩
  · rintro ⟨hp, hu⟩
    exact ⟨f, x, s.store, hr, hfull, hp, hu⟩

/-- **A call passes on the whole chain of callees.**  In a sound store, let a live value be called, with
any arguments.

If the chain of callees comes to a function within the bound, and there is room for another call, the
body of this function is started, and no other, one call deeper; the outcome is that of the body.  Its
arguments are the callees that were passed, the last one first, and behind them what the call was given,
as a list in any ledger and so in number.

The call is refused, with the state as before and without a body, in all other cases: if the chain comes
within the bound to a value that is no function and has no handler, with an error that names the kind of
that value; if it does neither, and so if it comes back to a value, with an error that says so; and if
there is no room. -/
theorem call_passes_callees (host : Host β σ) (perform : Request → RunM β σ Sequence) (s : State β σ)
    (t : Value) (a : Sequence) (hs : s.store.Sound) (ht : s.store.isLive t = true) :
    (∀ n h, t.follow? s.store.calledFor? n = some (.function h) → n < s.store.config.maxTagLoop →
      (s.isFull = false →
        ∃ f x, s.store.heap.functions.get? h = some f ∧
          (∀ p u, Starts host s t a p u ↔
            p = host f.body f.captures x ∧ u = { s with depth := s.depth + 1 }) ∧
          enter host perform t a s =
            leave ((host f.body f.captures x).runWith perform { s with depth := s.depth + 1 }) ∧
          (t.trail s.store.calledFor? n).length = n ∧
          (∀ l ws, a.Lists l ws → x.Lists l (t.trail s.store.calledFor? n ++ ws)) ∧
          ∀ l k, a.count? l = some k → x.count? l = some (n + k)) ∧
      (s.isFull = true → Refuses host perform s t a .stackOverflow)) ∧
    (∀ n c, t.follow? s.store.calledFor? n = some c → n < s.store.config.maxTagLoop →
      c.isFunction = false → s.store.handlerOf? .call c = none →
      Refuses host perform s t a (.type (.call c.kind))) ∧
    ((∀ n c, t.follow? s.store.calledFor? n = some c → n < s.store.config.maxTagLoop →
      c.isFunction = false ∧ s.store.handlerOf? .call c ≠ none) →
      Refuses host perform s t a (.runtime .callChain)) ∧
    (∀ i j c, i < j → t.follow? s.store.calledFor? i = some c →
      t.follow? s.store.calledFor? j = some c → Refuses host perform s t a (.runtime .callChain)) ∧
    (∀ k : Kind, (Error.type (.call k)).message = "attempt to call a " ++ k.name ++ " value") ∧
    (Error.runtime .callChain).message = "'__call' chain too long; possible loop" := by
  have hlong : (∀ i < s.store.config.maxTagLoop, ∀ c, ¬t.StopsAt s.store.calledFor? i c) →
      Refuses host perform s t a (.runtime .callChain) :=
    fun hnever => refuses_of_resolve (Store.resolve_of_long hs ht hnever a)
  refine ⟨fun n h hc hn => ?_, fun n c hc hn hfun hhandler => ?_, fun hnone => ?_,
    fun i j c hij hi hj => ?_, fun k => rfl, rfl⟩
  · obtain ⟨f, hf⟩ := Arena.contains_iff.1 (Store.isLive_callee hs ht hc)
    have hr := Store.resolve_of_function hs ht hc hn hf a
    refine ⟨fun hfull => ?_, refuses_of_isFull hr⟩
    refine ⟨f, _, hf, fun p u => starts_iff hr hfull, ?_, Value.length_trail hc,
      fun l ws => Sequence.lists_inFront _, fun l k hk => ?_⟩
    · exact ((starts_iff hr hfull).2 ⟨rfl, rfl⟩).enter_eq perform
    · rw [Sequence.count?_inFront _ hk, Value.length_trail hc]
  · exact refuses_of_resolve (Store.resolve_of_no_handler hs ht hc hn hfun hhandler a)
  · apply hlong
    rintro i hi c ⟨hc, hstop⟩
    obtain ⟨hfun, hhandler⟩ := hnone i c hc hi
    rw [Store.calledFor?_of_not_isFunction hfun] at hstop
    exact hhandler hstop
  · exact hlong fun n _ d => Value.not_stopsAt_of_cycle hi hj hij n d

/-! ### A chain of two links -/

section TwoLinks

/-- A function that gives its arguments back. -/
def lastFunction : Function Unit := { name := "last", captures := [], body := () }

/-- A fresh store with the function, and a table that has the function for a handler of calls. -/
def withLast : Store Unit :=
  let S : Store Unit := .init {}
  { S with
    heap.functions := (S.heap.functions.alloc lastFunction).1
    heap.tables := (S.heap.tables.alloc
      (S.eventTable .call (.function (S.heap.functions.alloc lastFunction).2) none)).1 }

/-- Nil is called through the registry, and this through the function. -/
def twoLinks : Store Unit :=
  { withLast with
    heap.tables := withLast.heap.tables.put withLast.registry
      (withLast.eventTable .call (.table withLast.registry) (some ⟨1, 0⟩))
    shared.nil := some withLast.registry }

lemma get?_withLast (j : Handle) :
    withLast.heap.functions.get? j = (if j = ⟨0, 0⟩ then some lastFunction else none) ∧
    withLast.heap.tables.get? j = if j = ⟨1, 0⟩ then
      some ((Store.init {} : Store Unit).eventTable .call (.function ⟨0, 0⟩) none)
      else (Store.init {} : Store Unit).heap.tables.get? j := by
  have hinit := (Store.sound_init {} : (Store.init {} : Store Unit).Sound).wellFormed.heap
  constructor
  · refine (hinit.functions.get?_alloc lastFunction j).trans ?_
    exact if_congr Iff.rfl rfl (Arena.get?_empty j)
  · exact hinit.tables.get?_alloc _ j

lemma sound_withLast : withLast.Sound := by
  have hinit : (Store.init {} : Store Unit).Sound := Store.sound_init {}
  have hfunction := hinit.withFunctions (hinit.wellFormed.heap.functions.alloc lastFunction)
    (hinit.wellFormed.heap.functions.get?_alloc lastFunction) (fun w hw => by cases hw)
  exact hfunction.withEventTable (hfunction.wellFormed.heap.tables.alloc _)
    (hfunction.wellFormed.heap.tables.get?_alloc _) rfl (fun m hm => by cases hm)

lemma get?_twoLinks (j : Handle) :
    twoLinks.heap.tables.get? j = if j = withLast.registry then
      some (withLast.eventTable .call (.table withLast.registry) (some ⟨1, 0⟩))
      else withLast.heap.tables.get? j := by
  have hregistry : withLast.heap.tables.contains withLast.registry = true :=
    sound_withLast.closed.registry
  exact Arena.get?_put hregistry _

lemma sound_twoLinks : twoLinks.Sound := by
  have hlast : withLast.isLive (.table ⟨1, 0⟩) = true :=
    Arena.contains_iff.2 ⟨_, ((get?_withLast ⟨1, 0⟩).2).trans (if_pos rfl)⟩
  have htables := sound_withLast.withEventTable
    (sound_withLast.wellFormed.heap.tables.modify _ _) get?_twoLinks sound_withLast.closed.registry
    (fun m hm => by cases hm; exact hlast)
  exact htables.withNilMetatable htables.closed.registry

lemma follow?_twoLinks :
    Value.nil.follow? twoLinks.calledFor? 1 = some (.table withLast.registry) ∧
    Value.nil.follow? twoLinks.calledFor? 2 = some (.function ⟨0, 0⟩) := by
  have hregistry : twoLinks.heap.tables.get? withLast.registry = some _ :=
    (get?_twoLinks _).trans (if_pos rfl)
  have hlast : twoLinks.heap.tables.get? ⟨1, 0⟩ = some _ :=
    ((get?_twoLinks _).trans (if_neg (by decide))).trans
      (((get?_withLast ⟨1, 0⟩).2).trans (if_pos rfl))
  have hfirst : twoLinks.calledFor? .nil = some (.table withLast.registry) :=
    Store.handlerOf?_of_eventTable (c := .nil) rfl hregistry rfl rfl
  have hgoverning : twoLinks.governing? (.table withLast.registry) = some ⟨1, 0⟩ := by
    rw [Store.governing?, hregistry]
    rfl
  have hsecond : twoLinks.calledFor? (.table withLast.registry) = some (.function ⟨0, 0⟩) :=
    Store.handlerOf?_of_eventTable (c := .table withLast.registry) hgoverning hlast rfl rfl
  exact ⟨hfirst, (congrArg (Option.bind · twoLinks.calledFor?) hfirst).trans hsecond⟩

/-- Nil is called with seven: the function gets the registry, nil and seven.  A boolean can not be
called, and in a ring there is no end of callees. -/
theorem call_passes_callees_twoLinks :
    twoLinks.Sound ∧
    (∃ x, enter relayHost (fun _ => throw .endless) .nil (.one (.int 7))
        { store := twoLinks, host := () } = .ok x { store := twoLinks, host := () } ∧
      x.Lists {} [.table withLast.registry, .nil, .int 7] ∧ x.count? {} = some 3) ∧
    Refuses relayHost (fun _ => throw .endless) { store := twoLinks, host := () } (.bool true) .empty
      (.type (.call .boolean)) ∧
    Refuses relayHost (fun _ => throw .endless) (Program.ringState .call) .nil .empty
      (.runtime .callChain) := by
  obtain ⟨hone, htwo⟩ := follow?_twoLinks
  have htrail : Value.nil.trail twoLinks.calledFor? 2 = [.table withLast.registry, .nil] := by
    rw [Value.trail, hone]
    rfl
  obtain ⟨hcall, -⟩ := call_passes_callees relayHost (fun _ => throw .endless)
    { store := twoLinks, host := () } .nil (.one (.int 7)) sound_twoLinks rfl
  obtain ⟨-, hrefuse, -⟩ := call_passes_callees relayHost (fun _ => throw .endless)
    { store := twoLinks, host := () } (.bool true) .empty sound_twoLinks rfl
  have hinit : (Store.init {} : Store Unit).Sound := Store.sound_init {}
  obtain ⟨-, -, -, hcycle, -⟩ := call_passes_callees relayHost (fun _ => throw .endless)
    (Program.ringState .call) .nil .empty (hinit.ring .call) rfl
  have hfirst : (Program.ringState .call).store.calledFor? .nil =
      some (.table (Store.init {} : Store Unit).registry) :=
    Store.handlerOf?_ring hinit (Or.inl rfl)
  have hsecond : (Program.ringState .call).store.calledFor?
      (.table (Store.init {} : Store Unit).registry) =
      some (.table (Store.init {} : Store Unit).registry) :=
    Store.handlerOf?_ring hinit (Or.inr rfl)
  obtain ⟨f, x, hf, -, hrun, -, hlists, hcount⟩ := (hcall 2 _ htwo (by decide)).1 rfl
  cases hf.symm.trans (((get?_withLast ⟨0, 0⟩).1).trans (if_pos rfl))
  rw [htrail] at hlists
  refine ⟨sound_twoLinks, ⟨x, hrun, hlists {} _ (.one _), hcount {} 1 rfl⟩,
    hrefuse 0 (.bool true) rfl (by decide) rfl rfl, hcycle 1 2 _ (by decide) hfirst ?_⟩
  exact (congrArg (Option.bind · (Program.ringState .call).store.calledFor?) hfirst).trans hsecond

end TwoLinks

end RunM

end LuaCore
