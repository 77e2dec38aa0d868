import LuaCore.Program.Index
import LuaCore.Program.Run
import LuaCore.Proofs.Store.Operations

/-!
Safe programs.

What a program does between the calls that it asks for is known without the host.  A program is safe in
a state if, up to its first call, it stops for nothing but an error, and leaves a sound store behind
then and at its end; a program that makes no call is so throughout.  Reading and writing through
handlers is safe.
-/

namespace LuaCore

namespace Program

variable {β σ α γ : Type} {p : Program β σ α} {s : State β σ}

/-- The program, started in a state, comes to its end without asking for a call. -/
def MakesNoCall : Program β σ α → State β σ → Prop
  | done _, _ => True
  | stop _, _ => True
  | onStore x next, s =>
    match RunM.attempt (RunM.ofStore x) s with
    | .ok r t => (next r).MakesNoCall t
    | .error _ _ => True
  | onHost f next, s => (next (f s.host).1).MakesNoCall { s with host := (f s.host).2 }
  | look next, s => (next s.ledger).MakesNoCall s
  | delay callee args next, s =>
    (next (.ofCall (s.ledger.add callee args).2)).MakesNoCall
      { s with ledger := (s.ledger.add callee args).1 }
  | request _ _, _ => False

lemma makesNoCall_store (x : StoreM β α) : (store x).MakesNoCall s := by
  unfold store MakesNoCall
  split
  · next r t _ => cases r <;> trivial
  · trivial

/-- **A safe program**: up to its first call it stops for an error at most, with a sound store, and if it
ends before that, `Q` holds of the result and the state. -/
def Safely : Program β σ α → State β σ → (α → State β σ → Prop) → Prop
  | done a, s, Q => Q a s
  | stop (.error _), s, _ => s.store.Sound
  | stop _, _, _ => False
  | onStore x next, s, Q =>
    match RunM.attempt (RunM.ofStore x) s with
    | .ok r t => (next r).Safely t Q
    | .error _ _ => False
  | onHost f next, s, Q => (next (f s.host).1).Safely { s with host := (f s.host).2 } Q
  | look next, s, Q => (next s.ledger).Safely s Q
  | delay callee args next, s, Q =>
    (next (.ofCall (s.ledger.add callee args).2)).Safely
      { s with ledger := (s.ledger.add callee args).1 } Q
  | request _ _, _, _ => True

variable {Q : α → State β σ → Prop}

lemma runWith_onStore {ι : Type} {x : StoreM β ι} {next : Except Error ι → Program β σ α}
    {perform : Request → RunM β σ Sequence} {r : Except Error ι} {t : State β σ}
    (hr : RunM.attempt (RunM.ofStore x) s = .ok r t) :
    (onStore x next).runWith perform s = (next r).runWith perform t := by
  show EStateM.bind (RunM.attempt (RunM.ofStore x)) _ s = _
  rw [EStateM.bind, hr]

/-- **Without calls, a safe program runs safely**, whatever would be done about calls. -/
theorem Safely.runWith (hp : p.Safely s Q) (hcall : p.MakesNoCall s)
    (perform : Request → RunM β σ Sequence) :
    (∃ a t, p.runWith perform s = .ok a t ∧ Q a t) ∨
      ∃ e t, p.runWith perform s = .error (.error e) t ∧ t.store.Sound := by
  induction p generalizing s with
  | done a => exact Or.inl ⟨a, s, rfl, hp⟩
  | stop e =>
    cases e with
    | error e => exact Or.inr ⟨e, s, rfl, hp⟩
    | _ => exact hp.elim
  | onStore x next ih =>
    rw [Safely] at hp
    rw [MakesNoCall] at hcall
    cases hr : RunM.attempt (RunM.ofStore x) s with
    | ok r t =>
      rw [hr] at hp hcall
      rw [runWith_onStore hr]
      exact ih r hp hcall
    | error e t =>
      rw [hr] at hp
      exact hp.elim
  | onHost f next ih => exact ih _ hp hcall
  | look next ih => exact ih _ hp hcall
  | delay callee args next ih => exact ih _ hp hcall
  | request q next ih => exact hcall.elim

/-! ### Rules -/

/-- One program after another, where the second is safe after whatever the first may give. -/
lemma Safely.andThen {f : α → Program β σ γ} {R : γ → State β σ → Prop} (hp : p.Safely s Q)
    (hf : ∀ a t, Q a t → (f a).Safely t R) : (p.bind f).Safely s R := by
  induction p generalizing s with
  | done a => exact hf a s hp
  | stop e => cases e <;> exact hp
  | onStore x next ih =>
    rw [Safely] at hp
    rw [Program.bind, Safely]
    cases hr : RunM.attempt (RunM.ofStore x) s with
    | ok r t =>
      rw [hr] at hp
      exact ih r hp
    | error e t =>
      rw [hr] at hp
      exact hp
  | onHost g next ih => exact ih _ hp
  | look next ih => exact ih _ hp
  | delay callee args next ih => exact ih _ hp
  | request q next ih => trivial

lemma Safely.bind {f : α → Program β σ γ} {R : γ → State β σ → Prop}
    (hp : p.Safely s fun a t => (f a).Safely t R) : (p >>= f).Safely s R :=
  hp.andThen fun _ _ h => h

lemma Safely.mono {R : α → State β σ → Prop} (hp : p.Safely s Q) (hQ : ∀ a t, Q a t → R a t) :
    p.Safely s R := by
  rw [← bind_done p]
  exact hp.andThen hQ

lemma safely_done {a : α} (hQ : Q a s) : (pure a : Program β σ α).Safely s Q := hQ

lemma safely_fail {e : Error} (hs : s.store.Sound) : (fail e : Program β σ α).Safely s Q := hs

lemma safely_store {x : StoreM β α}
    (hx : Store.Safely x s.store fun a t => Q a { s with store := t }) : (store x).Safely s Q := by
  unfold Store.Safely at hx
  unfold store Safely RunM.attempt RunM.ofStore
  cases hr : x s.store with
  | ok a t =>
    rw [hr] at hx
    exact hx
  | error e t =>
    rw [hr] at hx
    cases e with
    | error e => exact hx
    | _ => exact hx.elim

lemma safely_call {h : Value} {args : List Value} {Q : Value → State β σ → Prop} :
    (call h args).Safely s Q := trivial

end Program

namespace Store

variable {β : Type} {s : Store β} {t k : Value}

lemma safely_held? {Q : Option Value → Store β → Prop} (hs : s.Sound) (ht : s.isLive t = true)
    (hQ : ∀ r, (∀ v, r = some v → s.isLive v = true) → Q r s) : Safely (held? t k) s Q := by
  cases t with
  | table h =>
    refine Safely.bind (safely_table ht fun u hu => safely_pure (hQ _ fun v hv => ?_))
    split at hv
    · simp at hv
    · cases hv
      exact isLive_get hs hu k
  | _ => exact safely_pure (hQ none (by simp))

lemma safely_indexError {Q : Error → Store β → Prop} (hk : s.isLive k = true) (hQ : ∀ e, Q e s) :
    Safely (indexError t k) s Q :=
  Safely.bind (Safely.bind (safely_bytes? hk fun _ => safely_pure (safely_pure (hQ _))))

end Store

/-! ### Reading and writing through handlers -/

namespace Program

variable {β σ : Type} {s : State β σ} {t k v : Value}

/-- Without a handler, a value that is no table raises the error that names the key. -/
lemma safely_indexError {α : Type} {Q : α → State β σ → Prop} (hs : s.store.Sound)
    (hk : s.store.isLive k = true) :
    (store (Store.indexError t k) >>= fail : Program β σ α).Safely s Q :=
  Safely.bind (safely_store (Store.safely_indexError hk fun _ => safely_fail hs))

lemma safely_indexIn (n : Nat) (hs : s.store.Sound) (ht : s.store.isLive t = true)
    (hk : s.store.isLive k = true) :
    (indexIn n t k : Program β σ Value).Safely s
      fun v u => u.store.Sound ∧ u.store.isLive v = true := by
  induction n generalizing t with
  | zero => exact safely_fail hs
  | succ n ih =>
    refine Safely.bind (safely_store (Store.safely_held? hs ht fun r hr => ?_))
    cases r with
    | some v => exact safely_done ⟨hs, hr v rfl⟩
    | none =>
      refine Safely.bind (safely_store (Store.safely_handler? hs ht fun r hr => ?_))
      cases r with
      | none =>
        dsimp only
        split
        · exact safely_done ⟨hs, rfl⟩
        · exact safely_indexError hs hk
      | some h =>
        dsimp only
        split
        · exact safely_call
        · exact ih (hr h rfl)

lemma safely_assignIn (n : Nat) (hs : s.store.Sound) (ht : s.store.isLive t = true)
    (hk : s.store.isLive k = true) (hv : s.store.isLive v = true) :
    (assignIn n t k v : Program β σ Unit).Safely s fun _ u => u.store.Sound := by
  induction n generalizing t with
  | zero => exact safely_fail hs
  | succ n ih =>
    refine Safely.bind (safely_store (Store.safely_held? hs ht fun r _ => ?_))
    cases r with
    | some _ => exact safely_store (Store.safely_rawSet hs ht hk hv fun _ hu _ => hu)
    | none =>
      refine Safely.bind (safely_store (Store.safely_handler? hs ht fun r hr => ?_))
      cases r with
      | none =>
        dsimp only
        split
        · exact safely_store (Store.safely_rawSet hs ht hk hv fun _ hu _ => hu)
        · exact safely_indexError hs hk
      | some h =>
        dsimp only
        split
        · exact Safely.bind safely_call
        · exact ih (hr h rfl)

lemma safely_maxTagLoop {Q : Nat → State β σ → Prop} (hQ : ∀ n, Q n s) :
    (maxTagLoop : Program β σ Nat).Safely s Q :=
  safely_store (Store.Safely.bind (Store.safely_get (Store.safely_pure (hQ _))))

theorem safely_index (hs : s.store.Sound) (ht : s.store.isLive t = true)
    (hk : s.store.isLive k = true) :
    (index t k : Program β σ Value).Safely s
      fun v u => u.store.Sound ∧ u.store.isLive v = true :=
  Safely.bind (safely_maxTagLoop fun n => safely_indexIn n hs ht hk)

theorem safely_assign (hs : s.store.Sound) (ht : s.store.isLive t = true)
    (hk : s.store.isLive k = true) (hv : s.store.isLive v = true) :
    (assign t k v : Program β σ Unit).Safely s fun _ u => u.store.Sound :=
  Safely.bind (safely_maxTagLoop fun n => safely_assignIn n hs ht hk hv)

end Program

end LuaCore
