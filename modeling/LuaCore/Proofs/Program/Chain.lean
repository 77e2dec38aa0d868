import LuaCore.Proofs.Program.Evolution

/-!
Chains of deferred calls.

A function may end in a deferred call of another one, which may end in one in turn.  The calls of such
a chain are made one after the other, all of them one call deeper than the first was asked for, and
the outcome is that of the last.  Its results are entered for every call of the chain, and are there
whenever one of these is asked for later.
-/

namespace LuaCore

namespace RunM

variable {β σ α : Type} {host : Host β σ} {s t u v : State β σ} {f g : Value} {a b q r : Sequence}
  {c : CallId} {cs : List CallId} {n m : Nat}

/-! ### Outcomes -/

/-- The outcome does not depend on how much fuel is left. -/
lemma Comes.exists_forall_le {x : Nat → RunM β σ α} {o : Result β σ α}
    (hx : ∀ n m, n ≤ m → Below (x n) (x m)) (h : Comes x s o) : ∃ N, ∀ n, N ≤ n → x n s = o := by
  obtain ⟨hfuel, N, hN⟩ := h
  refine ⟨N, fun n hn => ?_⟩
  rcases hx N n hn s with heq | ⟨t, ht⟩
  · exact heq.symm.trans hN
  · exact absurd (hN.symm.trans ht) (hfuel t)

/-- **What invoking a function comes to**, with all that it defers. -/
def Invokes (host : Host β σ) (s : State β σ) (f : Value) (a : Sequence) (o : Result β σ Sequence) :
    Prop := Comes (fun n => perform host n (.invoke f a)) s o

/-- **What one call of a function comes to**; a deferred call is left as it is. -/
def CallsOnce (host : Host β σ) (s : State β σ) (f : Value) (a : Sequence)
    (o : Result β σ Sequence) : Prop := Comes (fun n => enter host (perform host n) f a) s o

/-- The results of an outcome are entered for some calls. -/
def entered (cs : List CallId) : Result β σ Sequence → Result β σ Sequence
  | .ok r t => .ok r { t with ledger := t.ledger.recordAll r cs }
  | .error e t => .error e t

@[simp] lemma entered_nil (o : Result β σ Sequence) : entered [] o = o := by
  cases o <;> rfl

lemma entered_append (cs ds : List CallId) (o : Result β σ Sequence) :
    entered (cs ++ ds) o = entered ds (entered cs o) := by
  cases o with
  | ok r t => simp [entered, Ledger.recordAll]
  | error e t => rfl

lemma entered_eq_error_iff {e : Stop} {o : Result β σ Sequence} :
    entered cs o = .error e t ↔ o = .error e t := by
  cases o <;> simp [entered]

/-- The calls passed before have no part in what follows, until the results are there. -/
lemma settle_append (enter : Value → Sequence → RunM β σ Sequence) (n : Nat) (ps cs : List CallId)
    (q : Sequence) (s : State β σ) :
    settle enter n (ps ++ cs) q s = entered cs (settle enter n ps q s) := by
  induction n using Nat.strongRecOn generalizing ps q s with
  | ind n ih =>
    cases hq : s.ledger.standing? q with
    | none => rw [settle_unknown hq, settle_unknown hq]; rfl
    | some st =>
      cases st with
      | results r =>
        rw [settle_results hq, settle_results hq]
        exact entered_append ps cs (.ok r s)
      | outstanding c f a =>
        cases n with
        | zero => rw [settle_zero hq, settle_zero hq]; rfl
        | succ n =>
          rw [settle_outstanding hq, settle_outstanding hq]
          cases he : enter f a s with
          | ok r t => rw [bind_ok he, bind_ok he]; exact ih n (Nat.lt_succ_self n) (c :: ps) r t
          | error e t => rw [bind_error he, bind_error he]; rfl

/-! ### One link -/

/-- One call, and settling what it gives, with fuel for each. -/
def callAndSettle (host : Host β σ) (n m : Nat) (f : Value) (a : Sequence) : RunM β σ Sequence :=
  enter host (perform host n) f a >>= settle (enter host (perform host n)) m []

lemma below_enter_perform (hnm : n ≤ m) (f : Value) (a : Sequence) :
    Below (enter host (perform host n) f a) (enter host (perform host m) f a) :=
  below_enter (below_perform hnm) f a

lemma below_callAndSettle (host : Host β σ) {n' m' : Nat} (hn : n ≤ n') (hm : m ≤ m') (f : Value)
    (a : Sequence) :
    Below (callAndSettle host n m f a) (callAndSettle host n' m' f a) :=
  (below_enter_perform hn f a).bind (below_settle (below_enter_perform hn) hm [])

lemma CallsOnce.exists_forall_le {o : Result β σ Sequence} (h : CallsOnce host s f a o) :
    ∃ N, ∀ n, N ≤ n → enter host (perform host n) f a s = o :=
  Comes.exists_forall_le (fun _ _ hnm => below_enter_perform hnm f a) h

lemma CallsOnce.evolves (h : CallsOnce host s f a (.ok r t)) : s.Evolves t := by
  obtain ⟨-, n, hn⟩ := h
  exact evolves_enter (fun q s t => evolves_perform n q) (Or.inl ⟨r, hn⟩)

lemma invokes_iff {o : Result β σ Sequence} :
    Invokes host s f a o ↔ (∀ t, o ≠ .error .outOfFuel t) ∧ ∃ N, ∀ n, N ≤ n →
      callAndSettle host n n f a s = o := by
  constructor
  · intro h
    obtain ⟨N, hN⟩ := Comes.exists_forall_le (fun _ _ hnm => below_perform hnm _) h
    exact ⟨h.1, N, fun n hn => hN (n + 1) (by omega)⟩
  · rintro ⟨hfuel, N, hN⟩
    exact ⟨hfuel, N + 1, hN N (Nat.le_refl N)⟩

/-- **A call that defers another**: the outcome is that of the other, entered for it. -/
lemma invokes_iff_of_outstanding (hcall : CallsOnce host s f a (.ok r t))
    (hr : t.ledger.standing? r = some (.outstanding c g b)) (o : Result β σ Sequence) :
    Invokes host s f a o ↔ ∃ o', Invokes host t g b o' ∧ o = entered [c] o' := by
  obtain ⟨N, hN⟩ := hcall.exists_forall_le
  -- one more unit of fuel is spent on the way than invoking `g` by itself would take
  have hstep : ∀ n, N ≤ n + 1 → callAndSettle host (n + 1) (n + 1) f a s =
      entered [c] (callAndSettle host (n + 1) n g b t) := by
    intro n hn
    rw [callAndSettle, bind_ok (hN (n + 1) hn), settle_outstanding hr, callAndSettle]
    cases he : enter host (perform host (n + 1)) g b t with
    | ok r' t' => rw [bind_ok he, bind_ok he]; exact settle_append _ n [] [c] r' t'
    | error e t' => rw [bind_error he, bind_error he]; rfl
  constructor
  · intro h
    obtain ⟨hfuel, M, hM⟩ := invokes_iff.1 h
    have ho := (hstep (N + M) (by omega)).symm.trans (hM (N + M + 1) (by omega))
    refine ⟨callAndSettle host (N + M + 1) (N + M) g b t, ⟨fun u hu => ?_, N + M + 2, ?_⟩, ho.symm⟩
    · rw [hu] at ho
      exact hfuel u ho.symm
    · rcases below_callAndSettle host (Nat.le_refl (N + M + 1)) (Nat.le_succ (N + M)) g b t
        with heq | ⟨u, hu⟩
      · exact heq.symm
      · rw [hu] at ho
        exact absurd ho.symm (hfuel u)
  · rintro ⟨o', h, rfl⟩
    obtain ⟨hfuel, M, hM⟩ := invokes_iff.1 h
    refine ⟨fun u hu => hfuel u (entered_eq_error_iff.1 hu), N + M + 2, ?_⟩
    have ho : callAndSettle host (N + M + 1) (N + M) g b t = o' := by
      rcases below_callAndSettle host (show M ≤ N + M + 1 by omega)
        (show M ≤ N + M by omega) g b t with heq | ⟨u, hu⟩
      · exact heq.symm.trans (hM M (Nat.le_refl M))
      · rw [hM M (Nat.le_refl M)] at hu
        exact absurd hu (hfuel u)
    rw [← ho]
    exact hstep (N + M) (by omega)

/-- A call whose results are at hand is the last. -/
lemma invokes_iff_of_results (hcall : CallsOnce host s f a (.ok r t))
    (hr : t.ledger.standing? r = some (.results q)) (o : Result β σ Sequence) :
    Invokes host s f a o ↔ o = .ok q t := by
  obtain ⟨N, hN⟩ := hcall.exists_forall_le
  have hlast : ∀ n, N ≤ n → callAndSettle host n n f a s = .ok q t := by
    intro n hn
    rw [callAndSettle, bind_ok (hN n hn)]
    exact settle_results hr
  rw [invokes_iff]
  constructor
  · rintro ⟨-, M, hM⟩
    exact (hM (N + M) (by omega)).symm.trans (hlast (N + M) (by omega))
  · rintro rfl
    exact ⟨by simp, N, hlast⟩

/-- So is a call that fails. -/
lemma invokes_iff_of_error {e : Stop} (hcall : CallsOnce host s f a (.error e t))
    (o : Result β σ Sequence) : Invokes host s f a o ↔ o = .error e t := by
  obtain ⟨N, hN⟩ := hcall.exists_forall_le
  have hlast : ∀ n, N ≤ n → callAndSettle host n n f a s = .error e t :=
    fun n hn => bind_error (hN n hn)
  rw [invokes_iff]
  constructor
  · rintro ⟨-, M, hM⟩
    exact (hM (N + M) (by omega)).symm.trans (hlast (N + M) (by omega))
  · rintro rfl
    exact ⟨hcall.1, N, hlast⟩

lemma Invokes.evolves (h : Invokes host s f a (.ok r t)) : s.Evolves t := by
  obtain ⟨-, n, hn⟩ := h
  exact evolves_perform n _ (Or.inl ⟨r, hn⟩)

/-- What settling gives is no deferred call. -/
lemma call?_of_settle {enter : Value → Sequence → RunM β σ Sequence}
    (he : ∀ f a s t, Ends (enter f a) s t → s.Evolves t) (hs : s.ledger.Settled) {ps : List CallId}
    (h : settle enter n ps q s = .ok r t) : r.call? = none := by
  induction n using Nat.strongRecOn generalizing ps q s with
  | ind n ih =>
    cases hq : s.ledger.standing? q with
    | none =>
      rw [settle_unknown hq] at h
      cases h
    | some st =>
      cases st with
      | results x =>
        rw [settle_results hq] at h
        cases h
        exact hs.of_results hq
      | outstanding c f a =>
        cases n with
        | zero =>
          rw [settle_zero hq] at h
          cases h
        | succ n =>
          rw [settle_outstanding hq] at h
          cases hf : enter f a s with
          | ok x u =>
            rw [bind_ok hf] at h
            exact ih n (Nat.lt_succ_self n) ((he f a s u (Or.inl ⟨x, hf⟩)).settled hs) h
          | error e u =>
            rw [bind_error hf] at h
            cases h

lemma Invokes.call?_eq_none (h : Invokes host s f a (.ok r t)) (hs : s.ledger.Settled) :
    r.call? = none := by
  obtain ⟨-, N, hN⟩ := RunM.invokes_iff.1 h
  have henter : ∀ f a s t, Ends (enter host (perform host N) f a) s t → s.Evolves t :=
    fun _ _ _ _ => evolves_enter fun q _ _ => evolves_perform N q
  have hrun := hN N (Nat.le_refl N)
  cases hf : enter host (perform host N) f a s with
  | ok x u =>
    rw [callAndSettle, bind_ok hf] at hrun
    exact call?_of_settle henter ((henter f a s u (Or.inl ⟨x, hf⟩)).settled hs) hrun
  | error e u =>
    rw [callAndSettle, bind_error hf] at hrun
    cases hrun

/-! ### Chains -/

/-- **A chain of deferred calls.**  Calling `f` on `a` once leaves the last call of the list to be made,
making this leaves the one before it, and so on; in the end, in the state `t`, it is for `g` to be
called on `b`. -/
inductive Chain (host : Host β σ) : State β σ → Value → Sequence → List CallId →
    State β σ → Value → Sequence → Prop where
  | nil {s : State β σ} {f : Value} {a : Sequence} : Chain host s f a [] s f a
  | link {s t u : State β σ} {f g h : Value} {a b d r : Sequence} {c : CallId} {cs : List CallId} :
      CallsOnce host s f a (.ok r t) → t.ledger.standing? r = some (.outstanding c g b) →
      Chain host t g b cs u h d → Chain host s f a (cs ++ [c]) u h d

lemma Chain.evolves (h : Chain host s f a cs t g b) : s.Evolves t := by
  induction h with
  | nil => exact .refl _
  | link hcall _ _ ih => exact hcall.evolves.trans ih

/-- The calls of a chain are in the ledger. -/
lemma Chain.isSome_get? (h : Chain host s f a cs t g b) (hc : c ∈ cs) :
    (t.ledger.get? c).isSome = true := by
  induction h with
  | nil => simp at hc
  | link hcall hr hchain ih =>
    rcases List.mem_append.1 hc with hc | hc
    · exact ih hc
    · rw [List.mem_singleton.1 hc]
      obtain ⟨x, hx⟩ := hchain.evolves.calls _ _ (Ledger.outstanding_iff.1 hr).2
      rw [hx]
      rfl

/-- **A chain has the outcome of its last call**, entered for all its calls. -/
lemma Chain.invokes_iff (h : Chain host s f a cs t g b) (o : Result β σ Sequence) :
    Invokes host s f a o ↔ ∃ o', Invokes host t g b o' ∧ o = entered cs o' := by
  induction h generalizing o with
  | nil => simp
  | link hcall hr _ ih =>
    rw [invokes_iff_of_outstanding hcall hr]
    constructor
    · rintro ⟨o', ho', rfl⟩
      obtain ⟨o'', ho'', rfl⟩ := (ih o').1 ho'
      exact ⟨o'', ho'', (entered_append _ _ o'').symm⟩
    · rintro ⟨o'', ho'', rfl⟩
      exact ⟨_, (ih _).2 ⟨o'', ho'', rfl⟩, entered_append _ _ o''⟩

/-! ### Depth -/

/-- The function behind a callee is found, and its body `p` starts in the state `u`. -/
def Starts (host : Host β σ) (s : State β σ) (f : Value) (a : Sequence) (p : Program β σ Sequence)
    (u : State β σ) : Prop :=
  ∃ k x v, Store.resolve s.store.config.maxTagLoop f a s.store = .ok (k, x) v ∧
    ({ s with store := v } : State β σ).isFull = false ∧ p = host k.body k.captures x ∧
    u = { s with store := v, depth := s.depth + 1 }

/-- One call is its body, counted in and out. -/
lemma Starts.enter_eq {p : Program β σ Sequence} (h : Starts host s f a p u)
    (perform : Request → RunM β σ Sequence) :
    enter host perform f a s = leave (p.runWith perform u) := by
  obtain ⟨k, x, v, hr, hfull, rfl, rfl⟩ := h
  rw [RunM.enter_eq, hr]
  exact if_neg (by simp [hfull])

/-! ### Later states -/

/-- **Later states**, as seen from a state in which `c` has results: any programs are run, calls are
begun and left, and results are entered for other calls than `c`, none of which is still under way. -/
inductive Later (host : Host β σ) (c : CallId) : State β σ → State β σ → Prop where
  | refl {s : State β σ} : Later host c s s
  | ran {s t u : State β σ} {α : Type} {p : Program β σ α} {n : Nat} :
      Later host c s t → Ends (p.run host n) t u → Later host c s u
  | atDepth {s t : State β σ} (d : Nat) : Later host c s t → Later host c s { t with depth := d }
  | entered {s t : State β σ} {r : Sequence} {cs : List CallId} :
      Later host c s t → c ∉ cs → Later host c s { t with ledger := t.ledger.recordAll r cs }

lemma Later.result? (h : Later host c s t) (hr : s.ledger.result? c = some r) :
    t.ledger.result? c = some r := by
  induction h with
  | refl => exact hr
  | ran _ hrun ih => exact (evolves_run _ hrun).made c r ih
  | atDepth d _ ih => exact ih
  | entered _ hc ih =>
    rw [Ledger.result?_recordAll, if_neg (by simp [hc])]
    exact ih

/-- A call that has been made is not made again. -/
lemma perform_settle_made (hr : s.ledger.result? c = some r) (n : Nat) :
    perform host (n + 1) (.settle (.ofCall c)) s = .ok r s :=
  settle_results (Ledger.standing?_of_result? hr)

/-- **Deferred calls are made as nested calls would be.**  Let calling `f` on `a` lead through the
deferred calls `cs` to a call of `g` on `b`; with one call in the list, `f` has deferred `g`.

Then invoking `f` has the outcome of invoking `g` from there, entered for the calls passed; and it has
the outcome of that one call of `g`, if this gives results, has them at hand by a call that was made
before, or fails.  The body of `g` runs one call deeper than `f` was invoked.  What comes out is no
deferred call, nor is anything that is entered in any run from a fresh state on; and if results come
out, they are there whenever one of the calls passed is asked for later. -/
theorem invoke_eq_last_call (hchain : Chain host s f a cs t g b) :
    (∀ o, Invokes host s f a o ↔ ∃ o', Invokes host t g b o' ∧ o = entered cs o') ∧
    (∀ r u q, CallsOnce host t g b (.ok r u) → u.ledger.standing? r = some (.results q) →
      ∀ o, Invokes host s f a o ↔ o = entered cs (.ok q u)) ∧
    (∀ e u, CallsOnce host t g b (.error e u) → ∀ o, Invokes host s f a o ↔ o = .error e u) ∧
    (∀ p u, Starts host t g b p u → u.depth = s.depth + 1 ∧
      ∀ n, enter host (perform host n) g b t = leave (p.runWith (perform host n) u)) ∧
    (∀ r u, s.ledger.Settled → Invokes host s f a (.ok r u) → r.call? = none ∧ u.ledger.Settled) ∧
    ((∀ config x, (State.init config x : State β σ).ledger.Settled) ∧
      ∀ (p : Program β σ Sequence) n u v, Ends (p.run host n) u v → u.ledger.Settled →
        v.ledger.Settled) ∧
    ∀ r u, Invokes host s f a (.ok r u) → ∀ c ∈ cs, u.ledger.result? c = some r ∧
      ∀ v, Later host c u v → ∀ n, perform host (n + 1) (.settle (.ofCall c)) v = .ok r v := by
  refine ⟨hchain.invokes_iff, fun r u q hcall hr o => ?_, fun e u hcall o => ?_, fun p u hp => ?_,
    fun r u hs h => ⟨h.call?_eq_none hs, h.evolves.settled hs⟩,
    ⟨fun _ _ => Ledger.settled_empty, fun p n u v h => (evolves_run p h).settled⟩,
    fun r u h c hc => ?_⟩
  · rw [hchain.invokes_iff]
    simp only [invokes_iff_of_results hcall hr, exists_eq_left]
  · rw [hchain.invokes_iff]
    simp only [invokes_iff_of_error hcall, exists_eq_left]
    rfl
  · refine ⟨?_, fun n => hp.enter_eq (perform host n)⟩
    obtain ⟨k, x, v, -, -, -, rfl⟩ := hp
    exact congrArg (· + 1) hchain.evolves.depth
  · have hmade : u.ledger.result? c = some r := by
      obtain ⟨o', ho', heq⟩ := (hchain.invokes_iff _).1 h
      cases o' with
      | error e v => cases heq
      | ok r' v =>
        cases heq
        obtain ⟨d, hd⟩ := Option.isSome_iff_exists.1 (hchain.isSome_get? hc)
        obtain ⟨y, hy⟩ := ho'.evolves.calls c d hd
        rw [Ledger.result?_recordAll, if_pos ⟨hc, by rw [hy]; rfl⟩]
    exact ⟨hmade, fun v hv n => perform_settle_made (hv.result? hmade) n⟩

/-! ### A chain of one link -/

section Relay

/-- A function with a capture defers a call of it on its own arguments; one without gives these back. -/
def relayHost : Host Unit Unit := fun _ captures args =>
  match captures with
  | f :: _ => Program.defer f args
  | [] => pure args

/-- Two functions, of which the first relays to the second. -/
def relayFunctions : Arena (Function Unit) where
  slots := #[
    ⟨0, false, some { name := "first", captures := [.function ⟨1, 0⟩], body := () }⟩,
    ⟨0, false, some { name := "last", captures := [], body := () }⟩]
  free := []
  live := 2

def relayState : State Unit Unit where
  store := { heap := { functions := relayFunctions } }
  host := ()

/-- The state after the first function has deferred the second. -/
def relayState' : State Unit Unit :=
  { relayState with ledger := (relayState.ledger.add (.function ⟨1, 0⟩) (.one (.int 7))).1 }

lemma chain_relay : Chain relayHost relayState (.function ⟨0, 0⟩) (.one (.int 7)) [⟨0⟩]
    relayState' (.function ⟨1, 0⟩) (.one (.int 7)) :=
  have h : Chain relayHost relayState (.function ⟨0, 0⟩) (.one (.int 7)) ([] ++ [⟨0⟩])
      relayState' (.function ⟨1, 0⟩) (.one (.int 7)) :=
    .link (r := .ofCall ⟨0⟩) ⟨by simp, 0, rfl⟩ rfl .nil
  h

theorem invoke_eq_last_call_relay :
    Chain relayHost relayState (.function ⟨0, 0⟩) (.one (.int 7)) [⟨0⟩]
        relayState' (.function ⟨1, 0⟩) (.one (.int 7)) ∧
      Invokes relayHost relayState (.function ⟨0, 0⟩) (.one (.int 7))
        (entered [⟨0⟩] (.ok (.one (.int 7)) relayState')) := by
  refine ⟨chain_relay, ?_⟩
  obtain ⟨-, hlast, -⟩ := invoke_eq_last_call chain_relay
  exact (hlast (.one (.int 7)) relayState' (.one (.int 7)) ⟨by simp, 0, rfl⟩ rfl _).2 rfl

end Relay

end RunM

end LuaCore
