import LuaCore.Proofs.Program.Safely

/-!
No dangling references.

A host works on a state by operations.  As long as these call no function, and everything that a host
hands over is live when it does so, the state stays closed: whatever the store can come upon by itself
is live, and no operation ever needs an object that has been freed.  That holds with collections at any
point, from any roots.
-/

namespace LuaCore

/-- What a host may ask of a state, apart from calls and the operators. -/
inductive Operation (β : Type) where
  | createString (b : Bytes)
  | createTable
  | createTableWith (arrayHint hashHint : Nat)
  | tableOfList (vs : List Value)
  | tableOfPairs (pairs : List (Value × Value))
  | createFunction (f : Function β)
  | createUserdata (p : Payload)
  | createThread (body : Value)
  | userValue (v : Value)
  | setUserValue (v w : Value)
  | threadStatus (v : Value)
  | setThreadStatus (v : Value) (status : ThreadStatus)
  | metatable (v : Value)
  | setMetatable (v mt : Value)
  | setShared (k : Kind) (mt : Option Handle)
  | restoreShared (shared : SharedMetatables)
  | rawGet (t k : Value)
  | rawGetAt (t : Value) (i : Int64)
  | rawSet (t k v : Value)
  | rawSetAt (t : Value) (i : Int64) (v : Value)
  | rawLen (v : Value)
  | next (t k : Value)
  | nextAt (t : Value) (i : Int64)
  | index (t k : Value)
  | assign (t k v : Value)
  | collect (roots : List Value)

namespace Operation

variable {β σ : Type} {op : Operation β} {s : State β σ}

/-- The values that have to be live.  Roots need not be. -/
def arguments : Operation β → List Value
  | createString _ | createTable | createTableWith _ _ | createUserdata _ | collect _ => []
  | tableOfList vs => vs
  | tableOfPairs pairs => pairs.flatMap fun (k, v) => [k, v]
  | createFunction f => f.captures
  | createThread v | userValue v | threadStatus v | setThreadStatus v _ | metatable v => [v]
  | setUserValue v w | setMetatable v w => [v, w]
  | setShared _ mt => mt.toList.map .table
  | restoreShared shared => shared.toList.map .table
  | rawGet t k | next t k | index t k => [t, k]
  | rawGetAt t _ | nextAt t _ | rawLen t => [t]
  | rawSetAt t _ v => [t, v]
  | rawSet t k v | assign t k v => [t, k, v]

/-- The program of an operation, which ends in the values that it gives. -/
def program : Operation β → Program β σ (List Value)
  | createString b => .store do return [← Store.newString b]
  | createTable => .store do return [← Store.newEmptyTable]
  | createTableWith a h => .store do return [← Store.newTable (.new a h)]
  | tableOfList vs => .store do return [← Store.newTable (.ofList vs)]
  | tableOfPairs pairs => .store do return [← Store.newTableOfPairs pairs]
  | createFunction f => .store do return [← Store.newFunction f]
  | createUserdata p => .store do return [← Store.newUserdata p]
  | createThread v => .store do return [← Store.newThread v]
  | userValue v => .store do return [← Store.userValue v]
  | setUserValue v w => .store do Store.setUserValue v w; return []
  | threadStatus v => .store do let _ ← Store.threadStatus v; return []
  | setThreadStatus v status => .store do Store.setThreadStatus v status; return []
  | metatable v => .store do return [← Store.visibleMetatable v]
  | setMetatable v mt => .store do Store.setMetatable v mt; return []
  | setShared k mt => .store do return (← Store.setShared k mt).toList.map .table
  | restoreShared shared => .store do Store.restoreShared shared; return []
  | rawGet t k => .store do return [← Store.rawGet t k]
  | rawGetAt t i => .store do return [← Store.rawGetAt t i]
  | rawSet t k v => .store do Store.rawSet t k v; return []
  | rawSetAt t i v => .store do Store.rawSetAt t i v; return []
  | rawLen v => .store do return [.ofNat (← Store.rawLen v)]
  | next t k => .store do return (← Store.next t k).toList.flatMap fun (k, v) => [k, v]
  | nextAt t i => .store do return (← Store.nextAt t i).toList.flatMap fun (i, v) => [.int i, v]
  | index t k => do return [← Program.index t k]
  | assign t k v => do Program.assign t k v; return []
  | collect roots => .store do let _ ← Store.collect roots; return []

/-- The operation is run in a state.  An error is a result like others. -/
def run (op : Operation β) (host : Host β σ) (fuel : Nat) : RunM β σ (Except Error (List Value)) :=
  (op.program.run host fuel).attempt

/-- Whether the operation goes through the handlers of metatables, where it may meet a function. -/
def followsHandlers : Operation β → Bool
  | index _ _ | assign _ _ _ => true
  | _ => false

/-- What the host hands over is live, and none of the handlers on the way has to be called. -/
structure Applicable (op : Operation β) (s : State β σ) : Prop where
  live : ∀ v ∈ op.arguments, s.store.isLive v = true
  noCall : op.followsHandlers = true → Program.MakesNoCall op.program s

lemma Applicable.makesNoCall (hop : op.Applicable s) : Program.MakesNoCall op.program s := by
  by_cases h : op.followsHandlers = true
  · exact hop.noCall h
  · cases op <;> first | exact absurd rfl h | exact Program.makesNoCall_store _

/-! ### One operation -/

/-- The store is sound, and the values are live in it. -/
def Gives (vs : List Value) (s : State β σ) : Prop :=
  s.store.Sound ∧ ∀ v ∈ vs, s.store.isLive v = true

lemma safely_value {x : StoreM β Value}
    (hx : Store.Safely x s.store fun v t => t.Sound ∧ t.isLive v = true) :
    Program.Safely (.store do return [← x]) s Gives := by
  refine Program.safely_store (Store.Safely.bind (hx.mono fun v t hv => Store.safely_pure ⟨hv.1, ?_⟩))
  exact fun w hw => List.mem_singleton.1 hw ▸ hv.2

lemma safely_nothing {α : Type} {x : StoreM β α} (hx : Store.Safely x s.store fun _ t => t.Sound) :
    Program.Safely (.store do let _ ← x; return []) s Gives :=
  Program.safely_store
    (Store.Safely.bind (hx.mono fun _ _ ht => Store.safely_pure ⟨ht, by simp⟩))

/-- **Every operation is safe on live arguments**, up to a call. -/
theorem safely_program (hs : s.store.Sound) (hop : ∀ v ∈ op.arguments, s.store.isLive v = true) :
    (op.program : Program β σ (List Value)).Safely s Gives := by
  cases op with
  | createString b => exact safely_value (Store.safely_newString hs)
  | createTable => exact safely_value (Store.safely_newEmptyTable hs)
  | createTableWith a h =>
    exact safely_value (Store.safely_newTable hs Table.wellFormed_empty
      (by simp [Table.new, Table.stored_empty]))
  | tableOfList vs =>
    obtain ⟨hw, hst⟩ := Store.ofList_live hop
    exact safely_value (Store.safely_newTable hs hw hst)
  | tableOfPairs pairs =>
    refine safely_value (Store.safely_newTableOfPairs hs fun e he => ⟨hop _ ?_, hop _ ?_⟩)
    · exact List.mem_flatMap.2 ⟨e, he, by simp⟩
    · exact List.mem_flatMap.2 ⟨e, he, by simp⟩
  | createFunction f => exact safely_value (Store.safely_newFunction hs hop)
  | createUserdata p => exact safely_value (Store.safely_newUserdata hs)
  | createThread v => exact safely_value (Store.safely_newThread hs (hop v (by simp [arguments])))
  | userValue v => exact safely_value (Store.safely_userValue hs (hop v (by simp [arguments])))
  | setUserValue v w =>
    exact safely_nothing (Store.safely_setUserValue hs (hop v (by simp [arguments]))
      (hop w (by simp [arguments])))
  | threadStatus v => exact safely_nothing (Store.safely_threadStatus hs (hop v (by simp [arguments])))
  | setThreadStatus v status =>
    exact safely_nothing (Store.safely_setThreadStatus hs (hop v (by simp [arguments])))
  | metatable v => exact safely_value (Store.safely_visibleMetatable hs (hop v (by simp [arguments])))
  | setMetatable v mt =>
    exact safely_nothing (Store.safely_setMetatable hs (hop v (by simp [arguments]))
      (hop mt (by simp [arguments])))
  | setShared k mt =>
    have hmt : ∀ h, mt = some h → s.store.isLive (.table h) = true :=
      fun h hh => hop _ (by simp [arguments, hh])
    refine Program.safely_store (Store.Safely.bind ((Store.safely_setShared hs hmt).mono ?_))
    rintro old t ⟨ht, hold⟩
    refine Store.safely_pure ⟨ht, fun v hv => ?_⟩
    obtain ⟨h, hh, rfl⟩ := List.mem_map.1 hv
    exact hold h (Option.mem_toList.1 hh)
  | restoreShared shared =>
    refine safely_nothing (Store.safely_restoreShared hs fun mt hmt => hop _ ?_)
    exact List.mem_map.2 ⟨mt, hmt, rfl⟩
  | rawGet t k => exact safely_value (Store.safely_rawGet hs (hop t (by simp [arguments])))
  | rawGetAt t i => exact safely_value (Store.safely_rawGetAt hs (hop t (by simp [arguments])))
  | rawSet t k v =>
    exact safely_nothing (Store.safely_rawSet hs (hop t (by simp [arguments]))
      (hop k (by simp [arguments])) (hop v (by simp [arguments])) fun _ hu _ => hu)
  | rawSetAt t i v =>
    exact safely_nothing (Store.safely_rawSetAt hs (hop t (by simp [arguments]))
      (hop v (by simp [arguments])))
  | rawLen v =>
    have hv := hop v (by simp [arguments])
    refine Program.safely_store (Store.Safely.bind ((Store.safely_rawLen hs hv).mono fun n t ht => ?_))
    exact Store.safely_pure ⟨ht, fun w hw => List.mem_singleton.1 hw ▸ rfl⟩
  | next t k =>
    have ht := hop t (by simp [arguments])
    refine Program.safely_store (Store.Safely.bind ((Store.safely_next hs ht).mono ?_))
    rintro r u ⟨hu, hr⟩
    refine Store.safely_pure ⟨hu, fun w hw => ?_⟩
    obtain ⟨e, he, hw⟩ := List.mem_flatMap.1 hw
    obtain ⟨hkey, hvalue⟩ := hr e (Option.mem_toList.1 he)
    rcases List.mem_pair.1 hw with rfl | rfl
    · exact hkey
    · exact hvalue
  | nextAt t i =>
    have ht := hop t (by simp [arguments])
    refine Program.safely_store (Store.Safely.bind ((Store.safely_nextAt hs ht).mono ?_))
    rintro r u ⟨hu, hr⟩
    refine Store.safely_pure ⟨hu, fun w hw => ?_⟩
    obtain ⟨e, he, hw⟩ := List.mem_flatMap.1 hw
    rcases List.mem_pair.1 hw with rfl | rfl
    · rfl
    · exact hr e (Option.mem_toList.1 he)
  | index t k =>
    have ht := hop t (by simp [arguments])
    have hk := hop k (by simp [arguments])
    refine Program.Safely.bind ((Program.safely_index hs ht hk).mono fun v u hv => ?_)
    exact Program.safely_done ⟨hv.1, fun w hw => List.mem_singleton.1 hw ▸ hv.2⟩
  | assign t k v =>
    have ht := hop t (by simp [arguments])
    have hk := hop k (by simp [arguments])
    have hv := hop v (by simp [arguments])
    refine Program.Safely.bind ((Program.safely_assign hs ht hk hv).mono fun _ u hu => ?_)
    exact Program.safely_done ⟨hu, by simp⟩
  | collect roots => exact safely_nothing (Store.safely_collect hs)

/-- **One step**: an operation that can be applied ends in a result or an error, with a sound store. -/
theorem Applicable.run (hop : op.Applicable s) (hs : s.store.Sound) (host : Host β σ) (fuel : Nat) :
    ∃ r t, op.run host fuel s = .ok r t ∧ t.store.Sound ∧
      ∀ vs, r = .ok vs → ∀ v ∈ vs, t.store.isLive v = true := by
  rcases (safely_program hs hop.live).runWith hop.makesNoCall (RunM.perform host fuel) with
    ⟨vs, t, hrun, ht, hvs⟩ | ⟨e, t, hrun, ht⟩
  · refine ⟨.ok vs, t, ?_, ht, fun ws hws => ?_⟩
    · rw [Operation.run, RunM.attempt, Program.run, hrun]
    · cases hws
      exact hvs
  · refine ⟨.error e, t, ?_, ht, by simp⟩
    rw [Operation.run, RunM.attempt, Program.run, hrun]

end Operation

/-! ### Runs -/

namespace State

variable {β σ : Type}

/-- One operation after another, each of them on live arguments and without a call. -/
inductive Runs (host : Host β σ) : State β σ → State β σ → Prop where
  | refl (s : State β σ) : Runs host s s
  | step {s t u : State β σ} {r : Except Error (List Value)} (op : Operation β) (fuel : Nat) :
      Runs host s t → op.Applicable t → op.run host fuel t = .ok r u → Runs host s u

lemma Runs.sound {host : Host β σ} {s t : State β σ} (hrun : Runs host s t) (hs : s.store.Sound) :
    t.store.Sound := by
  induction hrun with
  | refl => exact hs
  | step op fuel _ hop hstep ih =>
    obtain ⟨r, v, hv, hsound, -⟩ := hop.run ih host fuel
    cases hv.symm.trans hstep
    exact hsound

/-- **No dangling references.**  A fresh state is closed.  An operation on a closed state, with live
arguments and without a call, ends in a result or an error, never for an object that has been freed;
it gives live values, and the state is closed again.  So that is how every run from a fresh state
goes on. -/
theorem closed_of_runs (host : Host β σ) (config : Config) (x : σ) :
    ((init config x : State β σ).store.WellFormed ∧ (init config x : State β σ).store.Closed) ∧
    (∀ (s : State β σ) (op : Operation β) (fuel : Nat),
      s.store.WellFormed → s.store.Closed → op.Applicable s →
      ∃ r t, op.run host fuel s = .ok r t ∧ t.store.WellFormed ∧ t.store.Closed ∧
        ∀ vs, r = .ok vs → ∀ v ∈ vs, t.store.isLive v = true) ∧
    ∀ s, Runs host (init config x) s → s.store.Closed ∧
      ∀ (op : Operation β) (fuel : Nat), op.Applicable s →
        ∃ r t, op.run host fuel s = .ok r t ∧ t.store.Closed := by
  have hinit : (init config x : State β σ).store.Sound := Store.sound_init config
  refine ⟨⟨hinit.wellFormed, hinit.closed⟩, fun s op fuel hw hc hop => ?_, fun s hrun => ?_⟩
  · obtain ⟨r, t, hr, ht, hvs⟩ := hop.run ⟨hw, hc⟩ host fuel
    exact ⟨r, t, hr, ht.wellFormed, ht.closed, hvs⟩
  · have hs := hrun.sound hinit
    refine ⟨hs.closed, fun op fuel hop => ?_⟩
    obtain ⟨r, t, hr, ht, -⟩ := hop.run hs host fuel
    exact ⟨r, t, hr, ht.closed⟩

end State

end LuaCore
