import LuaCore.Proofs.Program.Trace

/-!
Programs under watch.

Whoever watches a run sees the calls that it asks for, each in the state at that time, and what the run
comes to.  One program after another is watched one after the other, and catching an error in the end
is catching it on the way.
-/

namespace LuaCore

lemma RunM.attempt_bind_attempt {β σ α γ : Type} (x : RunM β σ α)
    (f : Except Error α → RunM β σ γ) :
    attempt (attempt x >>= f) = attempt x >>= fun r => attempt (f r) := by
  funext s
  cases hx : attempt x s with
  | ok r t => rw [bind_ok hx, attempt, bind_ok hx, attempt]
  | error e t =>
    rw [bind_error hx]
    exact attempt_stop (bind_error hx) fun e' he => attempt_ne_error (he ▸ hx)

namespace Program

variable {β σ α γ ε : Type} {perform : Request → RunM β σ Sequence}
  {inner : Request → State β σ → List ε} {p : Program β σ α} {f : α → Program β σ γ}
  {x : StoreM β α} {s t : State β σ} {S : Store β} {a : α} {e : Stop}

lemma runWith_bind (p : Program β σ α) (f : α → Program β σ γ) :
    (p.bind f).runWith perform = p.runWith perform >>= fun a => (f a).runWith perform := by
  induction p with
  | done a => rfl
  | stop e => rfl
  | onStore x next ih => exact (congrArg _ (funext ih)).trans (LawfulMonad.bind_assoc _ _ _).symm
  | onHost g next ih => exact (congrArg _ (funext ih)).trans (LawfulMonad.bind_assoc _ _ _).symm
  | look next ih => exact funext fun s => congrFun (ih s.ledger) s
  | delay callee args next ih =>
    exact (congrArg _ (funext fun c => ih (.ofCall c))).trans (LawfulMonad.bind_assoc _ _ _).symm
  | request q next ih => exact (congrArg _ (funext ih)).trans (LawfulMonad.bind_assoc _ _ _).symm

/-- Errors are caught on the way as they are in the end. -/
lemma runWith_attempt (p : Program β σ α) :
    p.attempt.runWith perform = RunM.attempt (p.runWith perform) := by
  induction p with
  | done a => rfl
  | stop e => cases e <;> rfl
  | onStore x next ih =>
    exact (congrArg _ (funext ih)).trans (RunM.attempt_bind_attempt _ _).symm
  | onHost g next ih => exact funext fun s => congrFun (ih _) _
  | look next ih => exact funext fun s => congrFun (ih _) _
  | delay callee args next ih => exact funext fun s => congrFun (ih _) _
  | request q next ih =>
    exact (congrArg _ (funext ih)).trans (RunM.attempt_bind_attempt _ _).symm

lemma eventsWith_bind (p : Program β σ α) (f : α → Program β σ γ) (s : State β σ) :
    (p.bind f).eventsWith perform inner s = p.eventsWith perform inner s ++
      match p.runWith perform s with
      | .ok a t => (f a).eventsWith perform inner t
      | .error _ _ => [] := by
  induction p generalizing s with
  | done a => rfl
  | stop e => rfl
  | onStore x next ih =>
    rw [Program.bind, eventsWith, eventsWith, runWith]
    cases hr : RunM.attempt (RunM.ofStore x) s with
    | ok r t => rw [RunM.bind_ok hr]; exact ih r t
    | error e t => rw [RunM.bind_error hr]; rfl
  | onHost g next ih => exact ih _ _
  | look next ih => exact ih _ _
  | delay callee args next ih => exact ih _ _
  | request q next ih =>
    rw [Program.bind, eventsWith, eventsWith, runWith, List.append_assoc]
    cases hr : RunM.attempt (perform q) s with
    | ok r t => rw [RunM.bind_ok hr]; exact congrArg _ (ih r t)
    | error e t => rw [RunM.bind_error hr]; rfl

lemma eventsWith_attempt (p : Program β σ α) (s : State β σ) :
    p.attempt.eventsWith perform inner s = p.eventsWith perform inner s := by
  induction p generalizing s with
  | done a => rfl
  | stop e => cases e <;> rfl
  | onStore x next ih =>
    rw [attempt, eventsWith, eventsWith]
    cases RunM.attempt (RunM.ofStore x) s with
    | ok r t => exact ih r t
    | error e t => rfl
  | onHost g next ih => exact ih _ _
  | look next ih => exact ih _ _
  | delay callee args next ih => exact ih _ _
  | request q next ih =>
    rw [attempt, eventsWith, eventsWith]
    cases RunM.attempt (perform q) s with
    | ok r t => exact congrArg _ (ih r t)
    | error e t => rfl

/-- A run under watch: the calls that it asks for, each with the state at that time, and what it comes
to. -/
def watch (perform : Request → RunM β σ Sequence) (p : Program β σ α) (s : State β σ) :
    List (Request × State β σ) × RunM.Result β σ α :=
  (p.eventsWith perform (fun q t => [(q, t)]) s, p.runWith perform s)

variable {calls : List (Request × State β σ)}

lemma watch_bind_ok (hp : p.watch perform s = (calls, .ok a t)) :
    (p.bind f).watch perform s =
      (calls ++ ((f a).watch perform t).1, ((f a).watch perform t).2) := by
  obtain ⟨hcalls, hrun⟩ := Prod.mk.injEq .. ▸ hp
  rw [watch, eventsWith_bind, runWith_bind, RunM.bind_ok hrun, hrun, hcalls]
  rfl

lemma watch_bind_error (hp : p.watch perform s = (calls, .error e t)) :
    (p.bind f).watch perform s = (calls, .error e t) := by
  obtain ⟨hcalls, hrun⟩ := Prod.mk.injEq .. ▸ hp
  rw [watch, eventsWith_bind, runWith_bind, RunM.bind_error hrun, hrun, hcalls]
  exact congrArg (·, _) (List.append_nil calls)

lemma watch_attempt (p : Program β σ α) (s : State β σ) :
    p.attempt.watch perform s = ((p.watch perform s).1, RunM.attempt (p.runWith perform) s) := by
  rw [watch, eventsWith_attempt, runWith_attempt]
  rfl

lemma watch_bind_done {b : γ} (hp : p.watch perform s = (calls, .ok a t)) (hf : f a = done b) :
    (p.bind f).watch perform s = (calls, .ok b t) := by
  rw [watch_bind_ok hp, hf]
  exact congrArg (·, _) (List.append_nil calls)

section Attempt

variable {f : Except Error α → Program β σ γ} {b : γ}

lemma watch_attempt_ok (hp : p.watch perform s = (calls, .ok a t)) (hf : f (.ok a) = done b) :
    (p.attempt.bind f).watch perform s = (calls, .ok b t) := by
  refine watch_bind_done ?_ hf
  rw [watch_attempt, hp, RunM.attempt_ok (congrArg Prod.snd hp)]

lemma watch_attempt_error {e : Error} (hp : p.watch perform s = (calls, .error (.error e) t))
    (hf : f (.error e) = done b) : (p.attempt.bind f).watch perform s = (calls, .ok b t) := by
  refine watch_bind_done ?_ hf
  rw [watch_attempt, hp, RunM.attempt_error (congrArg Prod.snd hp)]

lemma watch_attempt_stop (hp : p.watch perform s = (calls, .error e t))
    (he : ∀ e', e ≠ .error e') : (p.attempt.bind f).watch perform s = (calls, .error e t) := by
  refine watch_bind_error ?_
  rw [watch_attempt, hp, RunM.attempt_stop (congrArg Prod.snd hp) he]

end Attempt

lemma watch_store (hx : x s.store = .ok a S) :
    ((store x).bind f).watch perform s = (f a).watch perform { s with store := S } := by
  have hr : RunM.attempt (RunM.ofStore x) s = .ok (.ok a) { s with store := S } := by
    apply RunM.attempt_ok
    rw [RunM.ofStore, hx]
  rw [watch, store, Program.bind, eventsWith, runWith, RunM.bind_ok hr, hr]
  rfl

lemma watch_store_stop (hx : x s.store = .error e S) (he : ∀ e', e ≠ .error e') :
    ((store x).bind f).watch perform s = ([], .error e { s with store := S }) := by
  have hr : RunM.attempt (RunM.ofStore x) s = .error e { s with store := S } := by
    refine RunM.attempt_stop ?_ he
    rw [RunM.ofStore, hx]
  rw [watch, store, Program.bind, eventsWith, runWith, RunM.bind_error hr, hr]

/-- The first result of a call takes no call but that one. -/
lemma watch_call (g : Value) (vs : List Value) (s : State β σ) :
    (call g vs).watch perform s =
      ([(.invoke g (.ofList vs), s)], (call g vs).runWith perform s) := by
  have hcall : (call g vs : Program β σ Value) =
      request (.invoke g (.ofList vs)) fun r => (ofExcept r).bind fun q => valueAt q 1 := rfl
  refine congrArg (·, _) ?_
  rw [hcall, eventsWith]
  refine List.append_right_eq_self.2 ?_
  cases RunM.attempt (perform (.invoke g (.ofList vs))) s with
  | error e t => rfl
  | ok r t =>
    cases r with
    | error e => rfl
    | ok q =>
      show (valueAt q 1).eventsWith perform _ t = []
      rw [valueAt, reading, eventsWith]
      cases q.get? t.ledger 1 <;> rfl

end Program

end LuaCore
