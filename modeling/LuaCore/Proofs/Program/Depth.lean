import LuaCore.Proofs.Program.Moves

/-!
The depth of calls.

A call is counted while its body runs.  So a run ends as many calls deep as it began, and all through a
body the count is the same: one more than where the call was asked for, and within the limit.  The
limit is what makes a call fail with a stack overflow: nothing else on the way to the body does, and
the body has then not been started.
-/

namespace LuaCore

namespace Store

variable {β α γ : Type} {s t : Store β} {e : Stop}

/-! ### Finding the function behind a callee -/

lemma bind_eq_error {x : StoreM β α} {f : α → StoreM β γ} (h : (x >>= f) s = .error e t) :
    x s = .error e t ∨ ∃ a u, x s = .ok a u ∧ f a u = .error e t := by
  cases hx : x s with
  | ok a u =>
    rw [bind_ok hx] at h
    exact Or.inr ⟨a, u, rfl, h⟩
  | error e' u =>
    rw [bind_error hx] at h
    cases h
    exact Or.inl rfl

/-- The computation stops for nothing but objects that have been freed. -/
def NeedsLive (x : StoreM β α) : Prop := ∀ s e t, x s = .error e t → ∃ kind, e = .freed kind

lemma needsLive_pure {a : α} : NeedsLive (pure a : StoreM β α) := by
  intro s e t h
  cases h

lemma needsLive_get : NeedsLive (get : StoreM β (Store β)) := by
  intro s e t h
  cases h

lemma needsLive_require {kind : ObjectKind} {o : Option α} :
    NeedsLive (require kind o : StoreM β α) := by
  intro s e t h
  cases o with
  | none =>
    cases h
    exact ⟨kind, rfl⟩
  | some a => cases h

lemma NeedsLive.bind {x : StoreM β α} {f : α → StoreM β γ} (hx : NeedsLive x)
    (hf : ∀ a, NeedsLive (f a)) : NeedsLive (x >>= f) := by
  intro s e t h
  rcases bind_eq_error h with h | ⟨a, u, -, h⟩
  · exact hx s e t h
  · exact hf a u e t h

lemma needsLive_table {h : Handle} : NeedsLive (table h : StoreM β Table) :=
  needsLive_get.bind fun _ => needsLive_require

lemma needsLive_function {h : Handle} : NeedsLive (function h : StoreM β (Function β)) :=
  needsLive_get.bind fun _ => needsLive_require

lemma needsLive_userdata {h : Handle} : NeedsLive (userdata h : StoreM β Userdata) :=
  needsLive_get.bind fun _ => needsLive_require

lemma needsLive_metatableOf {v : Value} : NeedsLive (metatableOf v : StoreM β (Option Handle)) := by
  cases v with
  | table h => exact needsLive_table.bind fun _ => needsLive_pure
  | userdata h => exact needsLive_userdata.bind fun _ => needsLive_pure
  | _ => exact needsLive_get.bind fun _ => needsLive_pure

lemma needsLive_handler? {v : Value} {ev : Event} :
    NeedsLive (handler? v ev : StoreM β (Option Value)) := by
  refine needsLive_metatableOf.bind fun mt => ?_
  cases mt with
  | none => exact needsLive_pure
  | some mt =>
    refine NeedsLive.bind ?_ fun _ => needsLive_pure
    exact needsLive_table.bind fun _ => needsLive_get.bind fun _ => needsLive_pure

/-- **Why there is no function behind a callee**: an object has been freed, the chain of handlers is too
long, or there is a value in it that can not be called. -/
lemma resolve_eq_error {n : Nat} {v : Value} {a : Sequence} (h : resolve n v a s = .error e t) :
    (∃ kind, e = .freed kind) ∨ e = .error (.runtime .callChain) ∨
      ∃ k, e = .error (.type (.call k)) := by
  induction n generalizing v a s with
  | zero =>
    cases h
    exact Or.inr (Or.inl rfl)
  | succ n ih =>
    cases v with
    | function g =>
      rcases bind_eq_error h with h | ⟨f, u, -, h⟩
      · exact Or.inl (needsLive_function s e t h)
      · cases h
    | _ =>
      -- a value that is no function is called through its handler
      rcases bind_eq_error h with h | ⟨r, u, -, h⟩
      · exact Or.inl (needsLive_handler? s e t h)
      · cases r with
        | some g => exact ih h
        | none =>
          cases h
          exact Or.inr (Or.inr ⟨_, rfl⟩)

lemma resolve_leaves {n : Nat} {v : Value} {a : Sequence} (h : Leaves (resolve n v a) s t) : t = s :=
  (moves_resolve (R := Eq) s t h).symm

/-- The configuration is the same. -/
def SameConfig (s t : Store β) : Prop := t.config = s.config

instance : IsPreorder (Store β) SameConfig where
  refl _ := rfl
  trans _ _ _ hst htu := Eq.trans htu hst

lemma Becomes.sameConfig (h : s.Becomes t) : s.SameConfig t := by
  induction h with
  | refl => rfl
  | withHeap heap _ ih => exact ih
  | withShared shared _ ih => exact ih
  | interned b _ ih => exact ih
  | @collected t u vs r _ hr ih =>
    cases hc : t.heap.collect t.strings (t.roots vs) with
    | error e =>
      rw [collect_error hc] at hr
      cases hr
    | ok x =>
      rw [collect_ok hc] at hr
      cases hr
      exact ih

end Store

namespace RunM

variable {β σ α : Type} {host : Host β σ} {n m : Nat} {p : Program β σ α} {s t u : State β σ}
  {f : Value} {a : Sequence} {body : Program β σ Sequence}

/-! ### The depth of bodies -/

/-- A body starts one call deeper, within the limit, in a state that is otherwise the same. -/
lemma Starts.eq (h : Starts host s f a body u) :
    u = { s with depth := s.depth + 1 } ∧ u.depth ≤ u.store.config.maxCallDepth := by
  obtain ⟨k, x, v, hr, hfull, rfl, rfl⟩ := h
  obtain rfl := Store.resolve_leaves (Or.inl ⟨_, hr⟩)
  have hlt : s.depth < s.store.config.maxCallDepth := by
    simpa [State.isFull] using hfull
  exact ⟨rfl, hlt⟩

lemma Bodies.depth (h : Bodies host n p s m body u) :
    s.depth < u.depth ∧ u.depth ≤ u.store.config.maxCallDepth := by
  induction h with
  | called hp hc hs =>
    obtain ⟨rfl, hle⟩ := hs.eq
    have hdepth := hc.evolves.depth.trans hp.evolves.depth
    refine ⟨?_, hle⟩
    dsimp only
    omega
  | nested _ hp hc hs ih =>
    obtain ⟨rfl, hle⟩ := hs.eq
    have hdepth := hc.evolves.depth.trans hp.evolves.depth
    refine ⟨?_, hle⟩
    dsimp only
    omega

/-! ### Overflow -/

lemma leave_eq_error_iff {o : Result β σ α} {e : Error} :
    leave o = .error (.error e) t ↔
      ∃ v, o = .error (.error e) v ∧ t = { v with depth := v.depth - 1 } := by
  constructor
  · intro h
    cases o with
    | ok b v => cases h
    | error e' v =>
      cases e' with
      | error e' =>
        cases h
        exact ⟨v, rfl, rfl⟩
      | _ => cases h
  · rintro ⟨v, rfl, rfl⟩
    rfl

lemma Starts.unique {b' : Program β σ Sequence} {u' : State β σ} (h : Starts host s f a body u)
    (h' : Starts host s f a b' u') : body = b' ∧ u = u' := by
  obtain ⟨k, x, v, hr, -, rfl, rfl⟩ := h
  obtain ⟨k', x', v', hr', -, rfl, rfl⟩ := h'
  cases hr.symm.trans hr'
  exact ⟨rfl, rfl⟩

/-- **When a call fails with a stack overflow**: there is a function behind the callee, and the depth is
at its limit; or else the body has been started, and ends in that error. -/
lemma enter_eq_stackOverflow_iff {perform : Request → RunM β σ Sequence} :
    enter host perform f a s = .error (.error .stackOverflow) t ↔
      (t = s ∧ s.store.config.maxCallDepth ≤ s.depth ∧
        ∃ k, Store.resolve s.store.config.maxTagLoop f a s.store = .ok k s.store) ∨
      ∃ body u v, Starts host s f a body u ∧
        body.runWith perform u = .error (.error .stackOverflow) v ∧
        t = { v with depth := v.depth - 1 } := by
  cases hr : Store.resolve s.store.config.maxTagLoop f a s.store with
  | error e v =>
    have hnot : enter host perform f a s ≠ .error (.error .stackOverflow) t := by
      rw [enter_eq, hr]
      intro h
      cases h
      rcases Store.resolve_eq_error hr with ⟨k, hk⟩ | hk | ⟨k, hk⟩ <;> cases hk
    refine iff_of_false hnot ?_
    rintro (⟨-, -, k, hk⟩ | ⟨b, u, v', ⟨k, x, w, hk, -⟩, -⟩)
    · cases hk
    · cases hr.symm.trans hk
  | ok k v =>
    obtain rfl := Store.resolve_leaves (Or.inl ⟨_, hr⟩)
    by_cases hfull : s.isFull = true
    · have henter : enter host perform f a s = .error (.error .stackOverflow) s := by
        rw [enter_eq, hr]
        exact if_pos hfull
      rw [henter]
      constructor
      · intro h
        cases h
        exact Or.inl ⟨rfl, by simpa [State.isFull] using hfull, k, rfl⟩
      · rintro (⟨rfl, -⟩ | ⟨b, u, w, ⟨k', x, w', hk, hnot, -⟩, -⟩)
        · rfl
        · cases hr.symm.trans hk
          exact absurd hfull (by simp [hnot])
    · have hstarts : Starts host s f a (host k.1.body k.1.captures k.2)
          { s with depth := s.depth + 1 } :=
        ⟨k.1, k.2, s.store, hr, by simpa using hfull, rfl, rfl⟩
      rw [hstarts.enter_eq, leave_eq_error_iff]
      constructor
      · rintro ⟨v, hv, rfl⟩
        exact Or.inr ⟨_, _, v, hstarts, hv, rfl⟩
      · rintro (⟨-, hle, -⟩ | ⟨b, u, v, hb, hv, rfl⟩)
        · exact absurd (by simpa [State.isFull] using hle) hfull
        · obtain ⟨rfl, rfl⟩ := hstarts.unique hb
          exact ⟨v, hv, rfl⟩

/-- **The depth of calls is balanced.**  A run ends at the depth at which it began, with a result or an
error.  All through every body in it the depth is the same, more than that of the run and within the
limit.  A call fails with a stack overflow by itself exactly if there is a function behind the callee
and the depth is at its limit, and the state is then left as it is.

No work of the library on the store changes the configuration.  So the limit is the one at the start of
the run, and a state that takes another call at the start does so at the end, whatever has failed in
between. -/
theorem call_depth_balanced (host : Host β σ) (n : Nat) (p : Program β σ α) (s : State β σ) :
    (∀ t, Ends (p.run host n) s t → t.depth = s.depth) ∧
    (∀ m body u, Bodies host n p s m body u →
      s.depth < u.depth ∧ u.depth ≤ u.store.config.maxCallDepth ∧
      ∀ rest t, Passes host m body u rest t → t.depth = u.depth) ∧
    (∀ f a t, enter host (perform host n) f a s = .error (.error .stackOverflow) t ↔
      (t = s ∧ s.store.config.maxCallDepth ≤ s.depth ∧
        ∃ k, Store.resolve s.store.config.maxTagLoop f a s.store = .ok k s.store) ∨
      ∃ body u v, Starts host s f a body u ∧
        body.run host n u = .error (.error .stackOverflow) v ∧
        t = { v with depth := v.depth - 1 }) ∧
    ((∀ op : Operation β, (op.program : Program β σ (List Value)).Moves Store.SameConfig) ∧
      ∀ task : Task, (task.program : Program β σ Sequence).Moves Store.SameConfig) ∧
    ((∀ b captures args, (host b captures args).Moves Store.SameConfig) →
      p.Moves Store.SameConfig →
      (∀ m body u, Bodies host n p s m body u → u.depth ≤ s.store.config.maxCallDepth) ∧
      ∀ t, Ends (p.run host n) s t → s.isFull = false →
        ∀ f a k S, Store.resolve t.store.config.maxTagLoop f a t.store = .ok k S →
          ∃ body u, Starts host t f a body u) := by
  refine ⟨fun t ht => (evolves_run p ht).depth, fun m body u hb => ?_,
    fun f a t => enter_eq_stackOverflow_iff,
    ⟨fun op => op.moves_program.mono fun _ _ h => h.sameConfig,
      fun task => task.moves_program.mono fun _ _ h => h.sameConfig⟩,
    fun hhost hp => ⟨fun m body u hb => ?_, fun t ht hfull f a k S hr => ?_⟩⟩
  · exact ⟨hb.depth.1, hb.depth.2, fun rest t hpass => hpass.evolves.depth⟩
  · have hconfig : u.store.config = s.store.config :=
      Moment.store_rel hhost hp (Or.inr ⟨m, body, u, body, hb, .refl⟩)
    rw [← hconfig]
    exact hb.depth.2
  · have hconfig : t.store.config = s.store.config :=
      Moment.store_rel hhost hp (moment_of_ends ht)
    have hdepth : t.depth = s.depth := (evolves_run p ht).depth
    obtain rfl := Store.resolve_leaves (Or.inl ⟨k, hr⟩)
    refine ⟨_, _, k.1, k.2, t.store, hr, ?_, rfl, rfl⟩
    simpa [State.isFull, hconfig, hdepth] using hfull

end RunM

end LuaCore
