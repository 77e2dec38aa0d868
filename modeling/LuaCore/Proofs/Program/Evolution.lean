import LuaCore.Proofs.Program.Fuel

/-!
What a run leaves.

Whatever the functions do that it calls, a run ends as many calls deep as it began.  It keeps the
deferred calls of the ledger and the results that have been entered for them; and results are entered
only if they are no deferred call themselves.
-/

namespace LuaCore

namespace Ledger

variable {l : Ledger} {c d : CallId} {q r s : Sequence} {callee : Value} {args : Sequence}

/-! ### Entries -/

lemma get?_add (l : Ledger) (callee : Value) (args : Sequence) (c : CallId) :
    (l.add callee args).1.get? c =
      if c.index = l.size then some { callee := callee, args := args } else l.get? c := by
  rw [add, get?, get?, Array.getElem?_push]
  rfl

lemma result?_add (l : Ledger) (callee : Value) (args : Sequence) (c : CallId) :
    (l.add callee args).1.result? c = l.result? c := by
  rw [result?, result?, get?_add]
  split
  · next h =>
    have hnone : l.get? c = none := by
      rw [get?, h]
      exact Array.getElem?_eq_none (Nat.le_refl _)
    rw [hnone]
    rfl
  · rfl

lemma get?_record (l : Ledger) (s : Sequence) (c d : CallId) :
    (l.record s c).get? d = if d = c then (l.get? d).map ({ · with result := some s }) else l.get? d := by
  rw [record, get?, get?, Array.getElem?_modify]
  by_cases h : c.index = d.index
  · rw [if_pos h, if_pos (by cases c; cases d; simp_all)]
  · rw [if_neg h, if_neg (by rintro rfl; exact h rfl)]

/-- Entering results: a call of the list has them afterwards, and the others are as before. -/
lemma get?_recordAll (l : Ledger) (s : Sequence) (cs : List CallId) (d : CallId) :
    (l.recordAll s cs).get? d =
      if d ∈ cs then (l.get? d).map ({ · with result := some s }) else l.get? d := by
  induction cs generalizing l with
  | nil => rfl
  | cons c cs ih =>
    have hstep : l.recordAll s (c :: cs) = (l.record s c).recordAll s cs := rfl
    rw [hstep, ih, get?_record]
    by_cases hd : d = c
    · subst hd
      cases l.get? d <;> simp
    · simp [hd]

lemma result?_recordAll (l : Ledger) (s : Sequence) (cs : List CallId) (d : CallId) :
    (l.recordAll s cs).result? d =
      if d ∈ cs ∧ (l.get? d).isSome then some s else l.result? d := by
  rw [result?, result?, get?_recordAll]
  by_cases hd : d ∈ cs
  · cases l.get? d <;> simp [hd]
  · simp [hd]

/-! ### Standing -/

lemma standing?_of_call?_eq_none (hq : q.call? = none) : l.standing? q = some (.results q) := by
  rw [standing?, hq]

lemma standing?_ofCall (l : Ledger) (c : CallId) :
    l.standing? (.ofCall c) = (l.get? c).map fun d =>
      match d.result with
      | some r => .results r
      | none => .outstanding c d.callee d.args := rfl

lemma standing?_of_result? (hc : l.result? c = some r) :
    l.standing? (.ofCall c) = some (.results r) := by
  obtain ⟨d, hd, hr⟩ := Option.bind_eq_some_iff.1 hc
  rw [standing?_ofCall, hd, Option.map_some, hr]

/-- Results are at hand for what is no call, and for a call that has been made. -/
lemma eq_or_exists_of_results (hq : l.standing? q = some (.results r)) :
    (q.call? = none ∧ r = q) ∨ ∃ c, q = .ofCall c ∧ l.result? c = some r := by
  cases hcall : q.call? with
  | none =>
    rw [standing?_of_call?_eq_none hcall] at hq
    exact Or.inl ⟨rfl, by simpa using hq.symm⟩
  | some c =>
    obtain rfl := Sequence.call?_eq_some_iff.1 hcall
    rw [standing?_ofCall] at hq
    obtain ⟨d, hd, hq⟩ := Option.map_eq_some_iff.1 hq
    refine Or.inr ⟨c, rfl, ?_⟩
    rw [result?, hd, Option.bind_some]
    cases hr : d.result with
    | none => rw [hr] at hq; simp at hq
    | some x => rw [hr] at hq; simpa using hq

/-- A call is outstanding if it is in the ledger without results. -/
lemma outstanding_iff :
    l.standing? q = some (.outstanding c callee args) ↔
      q = .ofCall c ∧ l.get? c = some { callee := callee, args := args } := by
  constructor
  · intro hq
    cases hcall : q.call? with
    | none =>
      rw [standing?_of_call?_eq_none hcall] at hq
      simp at hq
    | some b =>
      obtain rfl := Sequence.call?_eq_some_iff.1 hcall
      rw [standing?_ofCall] at hq
      obtain ⟨⟨callee', args', result⟩, hd, hq⟩ := Option.map_eq_some_iff.1 hq
      cases result with
      | some x => simp at hq
      | none =>
        simp only [Standing.outstanding.injEq] at hq
        obtain ⟨rfl, rfl, rfl⟩ := hq
        exact ⟨rfl, hd⟩
  · rintro ⟨rfl, hc⟩
    rw [standing?_ofCall, hc]
    rfl

lemma result?_of_outstanding (hq : l.standing? q = some (.outstanding c callee args)) :
    l.result? c = none := by
  rw [result?, (outstanding_iff.1 hq).2]
  rfl

/-- **No results are a deferred call themselves.** -/
def Settled (l : Ledger) : Prop := ∀ c r, l.result? c = some r → r.call? = none

lemma settled_empty : Ledger.empty.Settled := by
  intro c r hr
  simp [result?, get?, empty] at hr

lemma Settled.of_results (hl : l.Settled) (hq : l.standing? q = some (.results r)) :
    r.call? = none := by
  rcases eq_or_exists_of_results hq with ⟨hcall, rfl⟩ | ⟨c, -, hc⟩
  · exact hcall
  · exact hl c r hc

end Ledger

/-! ### Evolution -/

namespace State

variable {β σ : Type} {s t u : State β σ} {c : CallId}

/-- **What a run may make of a state.** -/
structure Evolves (s t : State β σ) : Prop where
  depth : t.depth = s.depth
  calls : ∀ c d, s.ledger.get? c = some d → ∃ r, t.ledger.get? c = some { d with result := r }
  made : ∀ c r, s.ledger.result? c = some r → t.ledger.result? c = some r
  settled : s.ledger.Settled → t.ledger.Settled

lemma Evolves.refl (s : State β σ) : s.Evolves s :=
  ⟨rfl, fun _ d hd => ⟨d.result, hd⟩, fun _ _ h => h, fun h => h⟩

lemma Evolves.trans (hst : s.Evolves t) (htu : t.Evolves u) : s.Evolves u where
  depth := htu.depth.trans hst.depth
  calls := by
    intro c d hd
    obtain ⟨r, hr⟩ := hst.calls c d hd
    obtain ⟨r', hr'⟩ := htu.calls c _ hr
    exact ⟨r', hr'⟩
  made := fun c r hr => htu.made c r (hst.made c r hr)
  settled := fun h => htu.settled (hst.settled h)

/-- The store and the host's data may change in any way. -/
lemma Evolves.of_ledger_eq (hdepth : t.depth = s.depth) (hledger : t.ledger = s.ledger) :
    s.Evolves t := by
  refine ⟨hdepth, fun c d hd => ⟨d.result, ?_⟩, fun c r hr => ?_, fun h => ?_⟩
  · rw [hledger]
    exact hd
  · rw [hledger]
    exact hr
  · rw [hledger]
    exact h

lemma evolves_withStore (s : State β σ) (u : Store β) : s.Evolves { s with store := u } :=
  .of_ledger_eq rfl rfl

lemma evolves_withHost (s : State β σ) (x : σ) : s.Evolves { s with host := x } :=
  .of_ledger_eq rfl rfl

lemma evolves_add (s : State β σ) (callee : Value) (args : Sequence) :
    s.Evolves { s with ledger := (s.ledger.add callee args).1 } := by
  refine ⟨rfl, fun c d hd => ⟨d.result, ?_⟩, fun c r hr => ?_, fun h c r hr => ?_⟩
  · have hlt : c.index < s.ledger.size := (Array.getElem?_eq_some_iff.1 hd).1
    rw [Ledger.get?_add, if_neg (by omega)]
    exact hd
  · rw [Ledger.result?_add]
    exact hr
  · rw [Ledger.result?_add] at hr
    exact h c r hr

/-- Results are entered for calls that had none at the start. -/
lemma Evolves.recordAll (hst : s.Evolves t) {cs : List CallId} {r : Sequence}
    (hcs : ∀ c ∈ cs, s.ledger.result? c = none) (hr : t.ledger.Settled → r.call? = none) :
    s.Evolves { t with ledger := t.ledger.recordAll r cs } := by
  refine ⟨hst.depth, fun c d hd => ?_, fun c x hx => ?_, fun h c x hx => ?_⟩
  · obtain ⟨x, hx⟩ := hst.calls c d hd
    rw [Ledger.get?_recordAll, hx]
    split
    · exact ⟨some r, rfl⟩
    · exact ⟨x, rfl⟩
  · have hc : c ∉ cs := by
      intro hc
      rw [hcs c hc] at hx
      simp at hx
    rw [Ledger.result?_recordAll, if_neg (by simp [hc])]
    exact hst.made c x hx
  · rw [Ledger.result?_recordAll] at hx
    split at hx
    · cases hx
      exact hr (hst.settled h)
    · exact hst.settled h c x hx

lemma Evolves.pending (hst : s.Evolves t) (hc : t.ledger.result? c = none) :
    s.ledger.result? c = none := by
  cases hr : s.ledger.result? c with
  | none => rfl
  | some r =>
    rw [hst.made c r hr] at hc
    simp at hc

end State

namespace RunM

variable {β σ α γ : Type} {x : RunM β σ α} {s t u : State β σ} {host : Host β σ}

/-- The computation, started in `s`, ends in `t`, with a result or an error. -/
def Ends (x : RunM β σ α) (s t : State β σ) : Prop :=
  (∃ a, x s = .ok a t) ∨ ∃ e, x s = .error (.error e) t

lemma Ends.of_bind {f : α → RunM β σ γ} (h : Ends (x >>= f) s u) :
    (∃ a t, x s = .ok a t ∧ Ends (f a) t u) ∨ ∃ e, x s = .error (.error e) u := by
  cases hx : x s with
  | ok a t =>
    rw [Ends, bind_ok hx] at h
    exact Or.inl ⟨a, t, rfl, h⟩
  | error e t =>
    rw [Ends, bind_error hx] at h
    rcases h with ⟨a, ha⟩ | ⟨e', he⟩
    · simp at ha
    · cases he
      exact Or.inr ⟨e', rfl⟩

/-- The first of two computations does not fail. -/
lemma Ends.of_bind_ok {f : α → RunM β σ γ} {a : α} (hx : x s = .ok a t) (h : Ends (x >>= f) s u) :
    Ends (f a) t u := by
  rwa [Ends, bind_ok hx] at h

lemma exists_of_attempt {r : Except Error α} (h : attempt x s = .ok r t) : Ends x s t := by
  cases hx : x s with
  | ok a u =>
    rw [attempt_ok hx] at h
    cases h
    exact Or.inl ⟨a, hx⟩
  | error e u =>
    cases e with
    | error e =>
      rw [attempt_error hx] at h
      cases h
      exact Or.inr ⟨e, hx⟩
    | _ =>
      rw [attempt_stop hx (by simp)] at h
      simp at h

lemma attempt_ne_error {e : Error} : attempt x s ≠ .error (.error e) t := by
  intro h
  cases hx : x s with
  | ok a u =>
    rw [attempt_ok hx] at h
    simp at h
  | error e' u =>
    cases e' with
    | error e' =>
      rw [attempt_error hx] at h
      simp at h
    | _ =>
      rw [attempt_stop hx (by simp)] at h
      simp at h

/-- Work on the store changes the store. -/
lemma ends_ofStore {x : StoreM β α} (h : Ends (ofStore x) s t) : ∃ u, t = { s with store := u } := by
  rcases h with ⟨a, ha⟩ | ⟨e, he⟩
  · rw [ofStore] at ha
    split at ha
    · cases ha
      exact ⟨_, rfl⟩
    · simp at ha
  · rw [ofStore] at he
    split at he
    · simp at he
    · cases he
      exact ⟨_, rfl⟩

/-! ### Every run evolves the state -/

section Steps

variable {perform : Request → RunM β σ Sequence}

lemma evolves_runWith (hp : ∀ q s t, Ends (perform q) s t → s.Evolves t) (p : Program β σ α)
    (h : Ends (p.runWith perform) s t) : s.Evolves t := by
  induction p generalizing s with
  | done a =>
    rcases h with ⟨b, hb⟩ | ⟨e, he⟩
    · cases hb
      exact .refl _
    · cases he
  | stop e =>
    rcases h with ⟨b, hb⟩ | ⟨e, he⟩
    · cases hb
    · cases he
      exact .refl _
  | onStore x next ih =>
    rcases Ends.of_bind h with ⟨r, u, hr, hnext⟩ | ⟨e, he⟩
    · obtain ⟨v, rfl⟩ := ends_ofStore (exists_of_attempt hr)
      exact (State.evolves_withStore s v).trans (ih r hnext)
    · exact absurd he attempt_ne_error
  | onHost f next ih =>
    have hnext : Ends ((next (f s.host).1).runWith perform) { s with host := (f s.host).2 } t := h
    exact (State.evolves_withHost s _).trans (ih _ hnext)
  | look next ih => exact ih s.ledger h
  | delay callee args next ih =>
    have hnext : Ends ((next (.ofCall (s.ledger.add callee args).2)).runWith perform)
        { s with ledger := (s.ledger.add callee args).1 } t := h
    exact (State.evolves_add s callee args).trans (ih _ hnext)
  | request q next ih =>
    rcases Ends.of_bind h with ⟨r, u, hr, hnext⟩ | ⟨e, he⟩
    · exact (hp q s u (exists_of_attempt hr)).trans (ih r hnext)
    · exact absurd he attempt_ne_error

/-- The end of a call that was counted in. -/
lemma ends_of_leave {x : RunM β σ α} {t' : State β σ}
    (h : (∃ a, leave (x s) = .ok a t') ∨ ∃ e, leave (x s) = .error (.error e) t') :
    ∃ t, Ends x s t ∧ t' = { t with depth := t.depth - 1 } := by
  cases hx : x s with
  | ok a t =>
    rw [hx] at h
    rcases h with ⟨b, hb⟩ | ⟨e, he⟩
    · cases hb
      exact ⟨t, Or.inl ⟨a, hx⟩, rfl⟩
    · cases he
  | error e t =>
    rw [hx] at h
    cases e with
    | error e =>
      rcases h with ⟨b, hb⟩ | ⟨e', he⟩
      · cases hb
      · cases he
        exact ⟨t, Or.inr ⟨e, hx⟩, rfl⟩
    | _ =>
      rcases h with ⟨b, hb⟩ | ⟨e', he⟩
      · cases hb
      · cases he

lemma evolves_enter (hp : ∀ q s t, Ends (perform q) s t → s.Evolves t) {callee : Value}
    {args : Sequence} (h : Ends (enter host perform callee args) s t) : s.Evolves t := by
  rw [Ends, enter_eq] at h
  cases hr : Store.resolve s.store.config.maxTagLoop callee args s.store with
  | error e u =>
    rw [hr] at h
    rcases h with ⟨b, hb⟩ | ⟨e, he⟩
    · cases hb
    · cases he
      exact State.evolves_withStore s u
  | ok f u =>
    rw [hr] at h
    dsimp only at h
    split at h
    · rcases h with ⟨b, hb⟩ | ⟨e, he⟩
      · cases hb
      · cases he
        exact State.evolves_withStore s u
    · obtain ⟨v, hv, rfl⟩ := ends_of_leave h
      obtain ⟨hdepth, hcalls, hmade, hsettled⟩ := evolves_runWith hp _ hv
      refine ⟨?_, hcalls, hmade, hsettled⟩
      dsimp only at hdepth ⊢
      rw [hdepth, Nat.add_sub_cancel]

/-- How settling ends: with results at once, or by one more call. -/
lemma ends_settle {enter : Value → Sequence → RunM β σ Sequence} {n : Nat} {passed : List CallId}
    {q : Sequence} (h : Ends (settle enter n passed q) s t) :
    (∃ r, s.ledger.standing? q = some (.results r) ∧
        t = { s with ledger := s.ledger.recordAll r passed }) ∨
      ∃ m c callee args, n = m + 1 ∧ s.ledger.standing? q = some (.outstanding c callee args) ∧
        Ends (enter callee args >>= settle enter m (c :: passed)) s t := by
  cases hq : s.ledger.standing? q with
  | none =>
    rw [Ends, settle_unknown hq] at h
    simp at h
  | some st =>
    cases st with
    | results r =>
      rw [Ends, settle_results hq] at h
      refine Or.inl ⟨r, rfl, ?_⟩
      rcases h with ⟨a, ha⟩ | ⟨e, he⟩
      · cases ha
        rfl
      · cases he
    | outstanding c callee args =>
      cases n with
      | zero =>
        rw [Ends, settle_zero hq] at h
        simp at h
      | succ m =>
        rw [Ends, settle_outstanding hq] at h
        exact Or.inr ⟨m, c, callee, args, rfl, rfl, h⟩

/-- `s₀` is the state at the start: none of the calls passed since had results then. -/
lemma evolves_settle {enter : Value → Sequence → RunM β σ Sequence}
    (he : ∀ callee args s t, Ends (enter callee args) s t → s.Evolves t) {n : Nat}
    {passed : List CallId} {q : Sequence} {s₀ : State β σ} (hs : s₀.Evolves s)
    (hpassed : ∀ c ∈ passed, s₀.ledger.result? c = none)
    (h : Ends (settle enter n passed q) s t) : s₀.Evolves t := by
  induction n using Nat.strongRecOn generalizing passed q s with
  | ind n ih =>
    rcases ends_settle h with ⟨r, hq, rfl⟩ | ⟨m, c, callee, args, rfl, hq, h⟩
    · exact hs.recordAll hpassed fun hsettled => hsettled.of_results hq
    · rcases Ends.of_bind h with ⟨r, u, hr, hnext⟩ | ⟨e, he'⟩
      · have hu : s₀.Evolves u := hs.trans (he callee args s u (Or.inl ⟨r, hr⟩))
        refine ih m (Nat.lt_succ_self m) hu (fun d hd => ?_) hnext
        rcases List.mem_cons.1 hd with rfl | hd
        · exact hs.pending (Ledger.result?_of_outstanding hq)
        · exact hpassed d hd
      · exact hs.trans (he callee args s t (Or.inr ⟨e, he'⟩))

end Steps

/-- **Every run evolves the state**, whatever the host does. -/
theorem evolves_perform (n : Nat) (q : Request) (h : Ends (perform host n q) s t) : s.Evolves t := by
  induction n generalizing q s t with
  | zero =>
    rcases h with ⟨a, ha⟩ | ⟨e, he⟩
    · cases ha
    · cases he
  | succ n ih =>
    have henter : ∀ callee args s t, Ends (enter host (perform host n) callee args) s t →
        s.Evolves t := fun _ _ _ _ h => evolves_enter (fun q s t => ih q) h
    cases q with
    | invoke callee args =>
      rcases Ends.of_bind h with ⟨r, u, hr, hsettle⟩ | ⟨e, he⟩
      · exact (henter _ _ _ _ (Or.inl ⟨r, hr⟩)).trans
          (evolves_settle henter (.refl u) (by simp) hsettle)
      · exact henter _ _ _ _ (Or.inr ⟨e, he⟩)
    | settle q => exact evolves_settle henter (.refl s) (by simp) h

theorem evolves_run {n : Nat} (p : Program β σ α) (h : Ends (p.run host n) s t) : s.Evolves t :=
  evolves_runWith (fun q _ _ => evolves_perform n q) p h

end RunM

end LuaCore
