import LuaCore.Proofs.Program.Chain
import LuaCore.Proofs.Program.Trace

/-!
The moments of a run.

A run goes from one request of its program to the next.  A call that it asks for starts the body of a
function, and then those of the calls deferred by it, one after the other; each body runs in the same
way, and may ask for calls in turn.  The states passed on the way, at any depth, are the moments of the
run.

What has been entered in the ledger by a moment is told by the events before it.
-/

namespace LuaCore

namespace RunM

variable {β σ α : Type}

/-- One step of a program.  A call that it asks for is one step, with all that is done inside. -/
inductive Goes (host : Host β σ) (n : Nat) :
    Program β σ α → State β σ → Program β σ α → State β σ → Prop where
  | onStore {ι : Type} {x : StoreM β ι} {next : Except Error ι → Program β σ α}
      {r : Except Error ι} {s t : State β σ} :
      attempt (ofStore x) s = .ok r t → Goes host n (.onStore x next) s (next r) t
  | onHost {ι : Type} {f : σ → ι × σ} {next : ι → Program β σ α} {s : State β σ} :
      Goes host n (.onHost f next) s (next (f s.host).1) { s with host := (f s.host).2 }
  | look {next : Ledger → Program β σ α} {s : State β σ} :
      Goes host n (.look next) s (next s.ledger) s
  | delay {callee : Value} {args : Sequence} {next : Sequence → Program β σ α} {s : State β σ} :
      Goes host n (.delay callee args next) s (next (.ofCall (s.ledger.add callee args).2))
        { s with ledger := (s.ledger.add callee args).1 }
  | request {q : Request} {next : Except Error Sequence → Program β σ α}
      {r : Except Error Sequence} {s t : State β σ} :
      attempt (perform host n q) s = .ok r t → Goes host n (.request q next) s (next r) t

/-- Any number of steps. -/
inductive Passes (host : Host β σ) (n : Nat) :
    Program β σ α → State β σ → Program β σ α → State β σ → Prop where
  | refl {p : Program β σ α} {s : State β σ} : Passes host n p s p s
  | step {p q r : Program β σ α} {s t u : State β σ} :
      Goes host n p s q t → Passes host n q t r u → Passes host n p s r u

/-- In settling a sequence, `g` comes to be called on `b`. -/
inductive Settling (enter : Value → Sequence → RunM β σ Sequence) :
    Nat → Sequence → State β σ → Value → Sequence → State β σ → Prop where
  | first {n : Nat} {q : Sequence} {s : State β σ} {c : CallId} {g : Value} {b : Sequence} :
      s.ledger.standing? q = some (.outstanding c g b) → Settling enter (n + 1) q s g b s
  | later {n : Nat} {q r : Sequence} {s t u : State β σ} {c : CallId} {f g : Value}
      {a b : Sequence} :
      s.ledger.standing? q = some (.outstanding c f a) → enter f a s = .ok r t →
      Settling enter n r t g b u → Settling enter (n + 1) q s g b u

/-- In doing what a program asks for, `g` comes to be called on `b`, with `m` units of fuel for its
body. -/
inductive Calls (host : Host β σ) :
    Nat → Request → State β σ → (m : Nat) → Value → Sequence → State β σ → Prop where
  | invoked {m : Nat} {g : Value} {b : Sequence} {s : State β σ} :
      Calls host (m + 1) (.invoke g b) s m g b s
  | deferred {m : Nat} {f g : Value} {a b r : Sequence} {s t u : State β σ} :
      enter host (perform host m) f a s = .ok r t →
      Settling (enter host (perform host m)) m r t g b u →
      Calls host (m + 1) (.invoke f a) s m g b u
  | settled {m : Nat} {q : Sequence} {g : Value} {b : Sequence} {s u : State β σ} :
      Settling (enter host (perform host m)) m q s g b u →
      Calls host (m + 1) (.settle q) s m g b u

/-- **The bodies of a run**: those of the calls that the program asks for, and those of the calls that
other bodies ask for.  Each has the fuel that is left for it, and the state in which it starts. -/
inductive Bodies (host : Host β σ) (n : Nat) (p : Program β σ α) (s : State β σ) :
    Nat → Program β σ Sequence → State β σ → Prop where
  | called {q : Request} {next : Except Error Sequence → Program β σ α} {t u v : State β σ}
      {m : Nat} {f : Value} {a : Sequence} {b : Program β σ Sequence} :
      Passes host n p s (.request q next) t → Calls host n q t m f a u →
      Starts host u f a b v → Bodies host n p s m b v
  | nested {q : Request} {next : Except Error Sequence → Program β σ Sequence}
      {t u v w : State β σ} {m k : Nat} {f : Value} {a : Sequence} {b b' : Program β σ Sequence} :
      Bodies host n p s k b w → Passes host k b w (.request q next) t → Calls host k q t m f a u →
      Starts host u f a b' v → Bodies host n p s m b' v

/-- **The moments of a run**: the states that the program passes, and those that a body passes. -/
def Moment (host : Host β σ) (n : Nat) (p : Program β σ α) (s t : State β σ) : Prop :=
  (∃ p', Passes host n p s p' t) ∨ ∃ m b u b', Bodies host n p s m b u ∧ Passes host m b u b' t

variable {host : Host β σ} {n m : Nat} {p p' : Program β σ α} {s t u : State β σ} {f g : Value}
  {a b q : Sequence} {req : Request}

/-- **A run that ends does so in one of its moments.** -/
lemma exists_passes_of_ends (h : Ends (p.run host n) s t) : ∃ p', Passes host n p s p' t := by
  induction p generalizing s with
  | done a =>
    rcases h with ⟨b, hb⟩ | ⟨e, he⟩
    · cases hb
      exact ⟨_, .refl⟩
    · cases he
  | stop e =>
    rcases h with ⟨b, hb⟩ | ⟨e, he⟩
    · cases hb
    · cases he
      exact ⟨_, .refl⟩
  | onStore x next ih =>
    rcases Ends.of_bind h with ⟨r, u, hr, hnext⟩ | ⟨e, he⟩
    · obtain ⟨p', hp'⟩ := ih r hnext
      exact ⟨p', .step (.onStore hr) hp'⟩
    · exact absurd he attempt_ne_error
  | onHost f next ih =>
    have hnext : Ends ((next (f s.host).1).run host n) { s with host := (f s.host).2 } t := h
    obtain ⟨p', hp'⟩ := ih _ hnext
    exact ⟨p', .step .onHost hp'⟩
  | look next ih =>
    obtain ⟨p', hp'⟩ := ih s.ledger h
    exact ⟨p', .step .look hp'⟩
  | delay callee args next ih =>
    have hnext : Ends ((next (.ofCall (s.ledger.add callee args).2)).run host n)
        { s with ledger := (s.ledger.add callee args).1 } t := h
    obtain ⟨p', hp'⟩ := ih _ hnext
    exact ⟨p', .step .delay hp'⟩
  | request q next ih =>
    rcases Ends.of_bind h with ⟨r, u, hr, hnext⟩ | ⟨e, he⟩
    · obtain ⟨p', hp'⟩ := ih r hnext
      exact ⟨p', .step (.request hr) hp'⟩
    · exact absurd he attempt_ne_error

lemma moment_of_ends (h : Ends (p.run host n) s t) : Moment host n p s t :=
  Or.inl (exists_passes_of_ends h)

/-! ### From the start to a moment -/

lemma Goes.evolves (h : Goes host n p s p' t) : s.Evolves t := by
  cases h with
  | onStore hr =>
    obtain ⟨v, rfl⟩ := ends_ofStore (exists_of_attempt hr)
    exact State.evolves_withStore s v
  | onHost => exact State.evolves_withHost s _
  | look => exact .refl s
  | delay => exact State.evolves_add s _ _
  | request hr => exact evolves_perform n _ (exists_of_attempt hr)

lemma Passes.evolves (h : Passes host n p s p' t) : s.Evolves t := by
  induction h with
  | refl => exact .refl _
  | step hgoes _ ih => exact hgoes.evolves.trans ih

lemma evolves_enter_perform (h : Ends (enter host (perform host n) f a) s t) : s.Evolves t :=
  evolves_enter (fun q _ _ => evolves_perform n q) h

lemma Settling.evolves (h : Settling (enter host (perform host n)) m q s g b t) : s.Evolves t := by
  induction h with
  | first hq => exact .refl _
  | later hq hf _ ih => exact (evolves_enter_perform (Or.inl ⟨_, hf⟩)).trans ih

/-- The calls asked for at one time are made one after the other, at one depth. -/
lemma Calls.evolves (h : Calls host n req s m g b t) : s.Evolves t := by
  cases h with
  | invoked => exact .refl s
  | deferred hf hg => exact (evolves_enter_perform (Or.inl ⟨_, hf⟩)).trans hg.evolves
  | settled hg => exact hg.evolves

section Kept

variable {R : State β σ → State β σ → Prop}

/-- **What holds of a moment.**  A relation leads from the start to every moment, if it leads along the
steps of every program that is run, and from where a call is asked for to the start of its body. -/
lemma Moment.rel (h : Moment host n p s t) (htrans : ∀ s t u, R s t → R t u → R s u)
    (htop : ∀ p' t, Passes host n p s p' t → R s t)
    (hpass : ∀ m u b b' v, Bodies host n p s m b u → Passes host m b u b' v → R u v)
    (hcall : ∀ m req u k g a v b w, Calls host m req u k g a v → Starts host v g a b w → R u w) :
    R s t := by
  have hbodies : ∀ m b u, Bodies host n p s m b u → R s u := by
    intro m b u hb
    induction hb with
    | called hp hc hs => exact htrans _ _ _ (htop _ _ hp) (hcall _ _ _ _ _ _ _ _ _ hc hs)
    | nested hb hp hc hs ih =>
      have hnext := htrans _ _ _ ih (hpass _ _ _ _ _ hb hp)
      exact htrans _ _ _ hnext (hcall _ _ _ _ _ _ _ _ _ hc hs)
  rcases h with ⟨p', hp⟩ | ⟨m, b, u, b', hb, hp⟩
  · exact htop p' t hp
  · exact htrans _ _ _ (hbodies m b u hb) (hpass m u b b' t hb hp)

end Kept

/-! ### The events before a moment -/

open CallEvent

lemma Goes.exists_events (h : Goes host n p s p' t) :
    ∃ pre, p.events host n s = pre ++ p'.events host n t ∧
      t.ledger.result? = replay s.ledger.result? pre := by
  cases h with
  | @onStore _ x next r _ _ hr =>
    obtain ⟨v, rfl⟩ := ends_ofStore (exists_of_attempt hr)
    refine ⟨[], ?_, rfl⟩
    rw [Program.events, Program.eventsWith, hr]
    rfl
  | onHost => exact ⟨[], rfl, rfl⟩
  | look => exact ⟨[], rfl, rfl⟩
  | delay => exact ⟨[], rfl, funext (Ledger.result?_add s.ledger _ _)⟩
  | @request q next r _ _ hr =>
    refine ⟨performEvents host n q s, ?_, (tracks_perform host n q s).replay t (exists_of_attempt hr)⟩
    rw [Program.events, Program.eventsWith, hr]
    rfl

lemma Passes.exists_events (h : Passes host n p s p' t) :
    ∃ pre, p.events host n s = pre ++ p'.events host n t ∧
      t.ledger.result? = replay s.ledger.result? pre := by
  induction h with
  | refl => exact ⟨[], rfl, rfl⟩
  | step hgoes _ ih =>
    obtain ⟨pre, hevents, hresult⟩ := hgoes.exists_events
    obtain ⟨pre', hevents', hresult'⟩ := ih
    refine ⟨pre ++ pre', ?_, ?_⟩
    · rw [hevents, hevents', List.append_assoc]
    · rw [hresult', hresult, replay_append]

lemma Settling.exists_events {enter : Value → Sequence → RunM β σ Sequence}
    {inner : Value → Sequence → State β σ → List CallEvent}
    (hinner : ∀ f a s, Tracks (enter f a) [] s (inner f a s)) (passed : List CallId)
    (h : Settling enter n q s g b t) :
    ∃ pre post, settleEvents enter inner n passed q s = pre ++ (inner g b t ++ post) ∧
      t.ledger.result? = replay s.ledger.result? pre := by
  induction h generalizing passed with
  | @first n q s c g b hq =>
    rw [settleEvents, hq]
    exact ⟨[.begins c], _, rfl, rfl⟩
  | @later n q r s t u c f g a b hq hf _ ih =>
    obtain ⟨pre, post, hevents, hresult⟩ := ih (c :: passed)
    refine ⟨.begins c :: inner f a s ++ pre, post, ?_, ?_⟩
    · rw [settleEvents, hq]
      dsimp only
      rw [hf]
      dsimp only
      rw [hevents, List.append_assoc]
    · rw [hresult, (hinner f a s).replay t (Or.inl ⟨r, hf⟩)]
      exact (replay_append _ (.begins c :: inner f a s) pre).symm

lemma Calls.exists_events (h : Calls host n req s m g b t) :
    ∃ pre post, performEvents host n req s =
        pre ++ (enterEvents host (perform host m) (performEvents host m) g b t ++ post) ∧
      t.ledger.result? = replay s.ledger.result? pre := by
  have hinner : ∀ f a s, Tracks (enter host (perform host m) f a) [] s
      (enterEvents host (perform host m) (performEvents host m) f a s) :=
    tracks_enter (tracks_perform host m)
  cases h with
  | invoked => exact ⟨[], _, rfl, rfl⟩
  | @deferred _ f _ a _ r _ v _ hf hg =>
    obtain ⟨pre, post, hevents, hresult⟩ := hg.exists_events hinner []
    refine ⟨enterEvents host (perform host m) (performEvents host m) f a s ++ pre, post, ?_, ?_⟩
    · rw [performEvents, hf]
      dsimp only
      rw [hevents, List.append_assoc]
    · rw [hresult, (hinner f a s).replay v (Or.inl ⟨r, hf⟩), replay_append]
  | settled hg => exact hg.exists_events hinner []

lemma Starts.enterEvents_eq {body : Program β σ Sequence} (h : Starts host s f a body u)
    (perform : Request → RunM β σ Sequence) (inner : Request → State β σ → List CallEvent) :
    enterEvents host perform inner f a s = body.eventsWith perform inner u := by
  obtain ⟨k, x, v, hr, hfull, rfl, rfl⟩ := h
  rw [enterEvents, hr]
  exact if_neg (by simp [hfull])

/-- Where a call is asked for, the events go on with those of its bodies. -/
lemma Passes.exists_events_of_calls {next : Except Error Sequence → Program β σ α}
    {body : Program β σ Sequence} {v : State β σ} (hp : Passes host n p s (.request req next) t)
    (hc : Calls host n req t m f a u) (hs : Starts host u f a body v) :
    ∃ pre post, p.events host n s = pre ++ (body.events host m v ++ post) ∧
      v.ledger.result? = replay s.ledger.result? pre := by
  obtain ⟨pre, hevents, hresult⟩ := hp.exists_events
  obtain ⟨pre', post, hevents', hresult'⟩ := hc.exists_events
  have hrequest : ∃ rest, (Program.request req next).events host n t =
      performEvents host n req t ++ rest := by
    rw [Program.events, Program.eventsWith]
    exact ⟨_, rfl⟩
  obtain ⟨rest, hrest⟩ := hrequest
  have hledger : v.ledger = u.ledger := by
    obtain ⟨-, -, -, -, -, -, rfl⟩ := hs
    rfl
  rw [hs.enterEvents_eq] at hevents'
  refine ⟨pre ++ pre', post ++ rest, ?_, ?_⟩
  · rw [hevents, hrest, hevents']
    simp only [List.append_assoc]
    rfl
  · rw [hledger, hresult', hresult, replay_append]

/-- The events of a body are among those of the run. -/
lemma Bodies.exists_events {body : Program β σ Sequence} (h : Bodies host n p s m body u) :
    ∃ pre post, p.events host n s = pre ++ (body.events host m u ++ post) ∧
      u.ledger.result? = replay s.ledger.result? pre := by
  induction h with
  | called hp hc hs => exact hp.exists_events_of_calls hc hs
  | nested _ hp hc hs ih =>
    obtain ⟨pre, post, hevents, hresult⟩ := ih
    obtain ⟨pre', post', hevents', hresult'⟩ := hp.exists_events_of_calls hc hs
    refine ⟨pre ++ pre', post' ++ post, ?_, ?_⟩
    · rw [hevents, hevents']
      simp only [List.append_assoc]
    · rw [hresult', hresult, replay_append]

/-- **The results at a moment are those of the events before it.** -/
lemma Moment.exists_events (h : Moment host n p s t) :
    ∃ pre post, p.events host n s = pre ++ post ∧
      t.ledger.result? = replay s.ledger.result? pre := by
  rcases h with ⟨p', hp⟩ | ⟨m, b, u, b', hb, hp⟩
  · obtain ⟨pre, hevents, hresult⟩ := hp.exists_events
    exact ⟨pre, _, hevents, hresult⟩
  · obtain ⟨pre, post, hevents, hresult⟩ := hb.exists_events
    obtain ⟨pre', hevents', hresult'⟩ := hp.exists_events
    refine ⟨pre ++ pre', b'.events host m t ++ post, ?_, ?_⟩
    · rw [hevents, hevents']
      simp only [List.append_assoc]
    · rw [hresult', hresult, replay_append]

end RunM

end LuaCore
