import LuaCore.Program.Run
import Mathlib.Tactic.Common

/-!
Running with enough fuel.

A run that does not use up its fuel is the same with more of it.  So what a run comes to is a matter of
the program, the host and the state: the outcome of all runs with enough fuel.
-/

namespace LuaCore

namespace RunM

variable {β σ α γ : Type} {x y : RunM β σ α} {s t : State β σ} {a : α} {e : Stop}
  {host : Host β σ} {n m : Nat}

/-- What a computation comes to. -/
abbrev Result (β σ α : Type) := EStateM.Result Stop (State β σ) α

/-! ### Computations, step by step -/

lemma bind_ok {f : α → RunM β σ γ} (hx : x s = .ok a t) : (x >>= f) s = f a t := by
  show EStateM.bind x f s = f a t
  rw [EStateM.bind, hx]

lemma bind_error {f : α → RunM β σ γ} (hx : x s = .error e t) : (x >>= f) s = .error e t := by
  show EStateM.bind x f s = .error e t
  rw [EStateM.bind, hx]

lemma attempt_ok (hx : x s = .ok a t) : attempt x s = .ok (.ok a) t := by rw [attempt, hx]

lemma attempt_error {e : Error} (hx : x s = .error (.error e) t) :
    attempt x s = .ok (.error e) t := by rw [attempt, hx]

lemma attempt_stop (hx : x s = .error e t) (he : ∀ e', e ≠ .error e') :
    attempt x s = .error e t := by
  cases e with
  | error e => exact absurd rfl (he e)
  | _ => rw [attempt, hx]

/-- The end of a call counts it out, unless there is no going on after it. -/
def leave : Result β σ α → Result β σ α
  | .ok a t => .ok a { t with depth := t.depth - 1 }
  | .error (.error e) t => .error (.error e) { t with depth := t.depth - 1 }
  | .error e t => .error e t

lemma inCall_eq (x : RunM β σ α) (s : State β σ) :
    inCall x s = leave (x { s with depth := s.depth + 1 }) := by
  have hin : inCall x s = ((attempt x >>= fun r => do
      modify fun s => { s with depth := s.depth - 1 }
      ofExcept r) : RunM β σ α) { s with depth := s.depth + 1 } := rfl
  rw [hin]
  cases hx : x { s with depth := s.depth + 1 } with
  | ok a t => exact bind_ok (attempt_ok hx)
  | error e t =>
    cases e with
    | error e => exact bind_ok (attempt_error hx)
    | _ => exact bind_error (attempt_stop hx (by simp))

/-- One call: it finds the function, and runs its body one call deeper. -/
lemma enter_eq (host : Host β σ) (perform : Request → RunM β σ Sequence) (callee : Value)
    (args : Sequence) (s : State β σ) :
    enter host perform callee args s =
      match Store.resolve s.store.config.maxTagLoop callee args s.store with
      | .ok (f, args) u =>
        if ({ s with store := u } : State β σ).isFull then
          .error (.error .stackOverflow) { s with store := u }
        else
          leave ((host f.body f.captures args).runWith perform
            { s with store := u, depth := s.depth + 1 })
      | .error e u => .error e { s with store := u } := by
  cases hr : Store.resolve s.store.config.maxTagLoop callee args s.store with
  | error e u =>
    have hstore : ofStore (Store.resolve s.store.config.maxTagLoop callee args) s =
        .error e { s with store := u } := by rw [ofStore, hr]
    exact (bind_ok (x := get) rfl).trans (bind_error hstore)
  | ok p u =>
    have hstore : ofStore (Store.resolve s.store.config.maxTagLoop callee args) s =
        .ok p { s with store := u } := by rw [ofStore, hr]
    refine (bind_ok (x := get) rfl).trans ((bind_ok hstore).trans ?_)
    refine (bind_ok (x := get) rfl).trans ?_
    dsimp only
    by_cases hfull : ({ s with store := u } : State β σ).isFull = true
    · rw [if_pos hfull, if_pos hfull]
      rfl
    · rw [if_neg hfull, if_neg hfull]
      exact inCall_eq _ _

/-! ### Settling, by how the sequence stands -/

section Settle

variable {enter : Value → Sequence → RunM β σ Sequence} {passed : List CallId} {q r : Sequence}
  {c : CallId} {callee : Value} {args : Sequence}

lemma settle_unknown (hq : s.ledger.standing? q = none) :
    settle enter n passed q s = .error .endless s := by
  unfold settle
  refine (bind_ok (x := get) rfl).trans ?_
  rw [hq]
  rfl

lemma settle_results (hq : s.ledger.standing? q = some (.results r)) :
    settle enter n passed q s = .ok r { s with ledger := s.ledger.recordAll r passed } := by
  unfold settle
  refine (bind_ok (x := get) rfl).trans ?_
  rw [hq]
  rfl

lemma settle_zero (hq : s.ledger.standing? q = some (.outstanding c callee args)) :
    settle enter 0 passed q s = .error .outOfFuel s := by
  unfold settle
  refine (bind_ok (x := get) rfl).trans ?_
  rw [hq]
  rfl

lemma settle_outstanding (hq : s.ledger.standing? q = some (.outstanding c callee args)) :
    settle enter (n + 1) passed q s =
      (enter callee args >>= settle enter n (c :: passed)) s := by
  rw [settle]
  refine (bind_ok (x := get) rfl).trans ?_
  rw [hq]

end Settle

/-! ### More fuel -/

/-- Wherever the first computation does not run out of fuel, the second does the same. -/
def Below (x y : RunM β σ α) : Prop := ∀ s, x s = y s ∨ ∃ t, x s = .error .outOfFuel t

lemma Below.refl (x : RunM β σ α) : Below x x := fun _ => Or.inl rfl

lemma Below.bind {f g : α → RunM β σ γ} (hxy : Below x y) (hfg : ∀ a, Below (f a) (g a)) :
    Below (x >>= f) (y >>= g) := by
  intro s
  rcases hxy s with h | ⟨t, ht⟩
  · cases hx : x s with
    | ok a t =>
      rw [bind_ok hx, bind_ok (h.symm.trans hx)]
      exact hfg a t
    | error e t =>
      rw [bind_error hx, bind_error (h.symm.trans hx)]
      exact Or.inl rfl
  · exact Or.inr ⟨t, bind_error ht⟩

lemma Below.attempt (hxy : Below x y) : Below (attempt x) (attempt y) := by
  intro s
  rcases hxy s with h | ⟨t, ht⟩
  · left
    rw [RunM.attempt, RunM.attempt, h]
  · exact Or.inr ⟨t, attempt_stop ht (by simp)⟩

lemma below_runWith {perform perform' : Request → RunM β σ Sequence}
    (hp : ∀ q, Below (perform q) (perform' q)) (p : Program β σ α) :
    Below (p.runWith perform) (p.runWith perform') := by
  induction p with
  | done a => exact .refl _
  | stop e => exact .refl _
  | onStore x next ih => exact (Below.refl _).bind ih
  | onHost f next ih => exact (Below.refl _).bind ih
  | look next ih => exact (Below.refl _).bind fun s => ih s.ledger
  | delay callee args next ih => exact (Below.refl _).bind fun c => ih (.ofCall c)
  | request q next ih => exact (hp q).attempt.bind ih

lemma below_enter {perform perform' : Request → RunM β σ Sequence}
    (hp : ∀ q, Below (perform q) (perform' q)) (callee : Value) (args : Sequence) :
    Below (enter host perform callee args) (enter host perform' callee args) := by
  intro s
  rw [enter_eq, enter_eq]
  cases Store.resolve s.store.config.maxTagLoop callee args s.store with
  | error e u => exact Or.inl rfl
  | ok f u =>
    dsimp only
    split
    · exact Or.inl rfl
    · rcases below_runWith hp (host f.1.body f.1.captures f.2)
        { s with store := u, depth := s.depth + 1 } with h | ⟨t, ht⟩
      · left
        rw [h]
      · right
        rw [ht]
        exact ⟨t, rfl⟩

lemma below_settle {enter enter' : Value → Sequence → RunM β σ Sequence}
    (he : ∀ callee args, Below (enter callee args) (enter' callee args)) (hnm : n ≤ m)
    (passed : List CallId) (q : Sequence) :
    Below (settle enter n passed q) (settle enter' m passed q) := by
  induction n using Nat.strongRecOn generalizing m passed q with
  | ind n ih =>
    intro s
    cases hq : s.ledger.standing? q with
    | none => rw [settle_unknown hq, settle_unknown hq]; exact Or.inl rfl
    | some st =>
      cases st with
      | results r => rw [settle_results hq, settle_results hq]; exact Or.inl rfl
      | outstanding c callee args =>
        cases n with
        | zero => exact Or.inr ⟨s, settle_zero hq⟩
        | succ n =>
          obtain ⟨m, rfl⟩ : ∃ j, m = j + 1 := ⟨m - 1, by omega⟩
          rw [settle_outstanding hq, settle_outstanding hq]
          exact (he callee args).bind (ih n (by omega) (by omega) (c :: passed)) s

/-- **More fuel changes nothing** but a run that has used up less. -/
theorem below_perform (hnm : n ≤ m) (q : Request) : Below (perform host n q) (perform host m q) := by
  induction n generalizing m q with
  | zero => exact fun s => Or.inr ⟨s, rfl⟩
  | succ n ih =>
    obtain ⟨m, rfl⟩ : ∃ j, m = j + 1 := ⟨m - 1, by omega⟩
    have hnm : n ≤ m := by omega
    have henter : ∀ callee args, Below (enter host (perform host n) callee args)
        (enter host (perform host m) callee args) := below_enter (ih hnm)
    cases q with
    | invoke callee args => exact (henter callee args).bind (below_settle henter hnm [])
    | settle s => exact below_settle henter hnm [] s

/-! ### Outcomes -/

/-- The computation, given enough fuel, comes to this. -/
def Comes (x : Nat → RunM β σ α) (s : State β σ) (o : Result β σ α) : Prop :=
  (∀ t, o ≠ .error .outOfFuel t) ∧ ∃ n, x n s = o

end RunM

end LuaCore
