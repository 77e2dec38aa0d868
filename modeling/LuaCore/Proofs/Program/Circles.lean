import LuaCore.Proofs.Program.Moments
import LuaCore.Proofs.Sequence.Circles

/-!
Results that lead back to their own call.

A function that is called for a deferred call may give results that end in that very call, or in one
whose results do.  These are entered like any others, and from then on the call leads into a circle.
There is no other way to one: as long as no results are entered that lead back to their call at that
time, every reading of every sequence has an end.
-/

namespace LuaCore

namespace CallEvent

variable {m : CallId → Option Sequence} {a b c d : CallId} {r : Sequence}

/-! ### Results as a map -/

/-- The results of one call end in another. -/
def Leads (m : CallId → Option Sequence) (c d : CallId) : Prop :=
  ∃ r, m c = some r ∧ r.last? = some d

/-- No results lead back to their own call. -/
def Acyclic (m : CallId → Option Sequence) : Prop := ∀ c, ¬ Relation.TransGen (Leads m) c c

/-- A sequence leads to a call: it ends in the call, or in one whose results lead there. -/
def ComesTo (m : CallId → Option Sequence) (r : Sequence) (c : CallId) : Prop :=
  ∃ d, r.last? = some d ∧ Relation.ReflTransGen (Leads m) d c

lemma acyclic_none : Acyclic fun _ => none := by
  intro c hc
  obtain ⟨d, ⟨r, hr, -⟩, -⟩ := Relation.TransGen.head'_iff.1 hc
  cases hr

lemma leads_update_self : Leads (Function.update m c (some r)) c d ↔ r.last? = some d := by
  constructor
  · rintro ⟨x, hx, hd⟩
    rw [Function.update_self] at hx
    cases hx
    exact hd
  · intro hd
    exact ⟨r, Function.update_self .., hd⟩

lemma leads_update_of_ne (ha : a ≠ c) : Leads (Function.update m c (some r)) a b ↔ Leads m a b := by
  unfold Leads
  rw [Function.update_of_ne ha]

/-- A way to `c` does not go on from `c`, so new results of `c` do not change it. -/
lemma reflTransGen_update (h : Relation.ReflTransGen (Leads m) a c) :
    Relation.ReflTransGen (Leads (Function.update m c (some r))) a c := by
  induction h using Relation.ReflTransGen.head_induction_on with
  | refl => exact .refl
  | @head a b hab _ ih =>
    by_cases ha : a = c
    · rw [ha]
    · exact .head ((leads_update_of_ne ha).2 hab) ih

/-- Results that lead back to their call make a circle. -/
lemma transGen_update (h : ComesTo m r c) :
    Relation.TransGen (Leads (Function.update m c (some r))) c c := by
  obtain ⟨d, hd, hdc⟩ := h
  exact .head' (leads_update_self.2 hd) (reflTransGen_update hdc)

/-- New results of `c` add only the ways through `c`. -/
lemma transGen_update_cases (h : Relation.TransGen (Leads (Function.update m c (some r))) a b) :
    Relation.TransGen (Leads m) a b ∨ Relation.ReflTransGen (Leads m) a c ∧ ComesTo m r b := by
  induction h with
  | @single b hab =>
    by_cases ha : a = c
    · subst ha
      exact Or.inr ⟨.refl, b, leads_update_self.1 hab, .refl⟩
    · exact Or.inl (.single ((leads_update_of_ne ha).1 hab))
  | @tail b e _ hbe ih =>
    by_cases hb : b = c
    · subst hb
      have hto : Relation.ReflTransGen (Leads m) a b := by
        rcases ih with hab | ⟨hab, -⟩
        · exact hab.to_reflTransGen
        · exact hab
      exact Or.inr ⟨hto, e, leads_update_self.1 hbe, .refl⟩
    · have hbe' : Leads m b e := (leads_update_of_ne hb).1 hbe
      rcases ih with hab | ⟨hac, d, hd, hdb⟩
      · exact Or.inl (hab.tail hbe')
      · exact Or.inr ⟨hac, d, hd, hdb.tail hbe'⟩

/-- **The first circle**: entering results makes one exactly if they lead back to their call. -/
lemma acyclic_update_iff (hm : Acyclic m) :
    Acyclic (Function.update m c (some r)) ↔ ¬ ComesTo m r c := by
  constructor
  · intro h hback
    exact h c (transGen_update hback)
  · intro h a ha
    rcases transGen_update_cases ha with haa | ⟨hac, d, hd, hda⟩
    · exact hm a haa
    · exact h ⟨d, hd, hda.trans hac⟩

/-! ### Straight events -/

/-- **Straight events**: whenever results are entered, they do not lead back to their call by the results
that there are at that time. -/
def Straight (m : CallId → Option Sequence) : List CallEvent → Prop
  | [] => True
  | gives c r :: es => ¬ ComesTo m r c ∧ Straight (Function.update m c (some r)) es
  | begins _ :: es => Straight m es
  | fails _ :: es => Straight m es

lemma straight_iff {es : List CallEvent} (hm : Acyclic m) :
    Straight m es ↔ ∀ pre post, es = pre ++ post → Acyclic (replay m pre) := by
  induction es generalizing m with
  | nil =>
    refine ⟨fun _ pre post hes => ?_, fun _ => trivial⟩
    rw [(List.append_eq_nil_iff.1 hes.symm).1]
    exact hm
  | cons e es ih =>
    -- one event more: the results before it have no circle, and the rest starts after it
    have hcons : ∀ m', (∀ pre, replay m (e :: pre) = replay m' pre) →
        ((∀ pre post, es = pre ++ post → Acyclic (replay m' pre)) ↔
          ∀ pre post, e :: es = pre ++ post → Acyclic (replay m pre)) := by
      intro m' hm'
      constructor
      · intro h pre post hes
        cases pre with
        | nil => exact hm
        | cons e' pre =>
          obtain ⟨rfl, htail⟩ := List.cons_eq_cons.1 hes
          rw [hm']
          exact h pre post htail
      · intro h pre post hes
        rw [← hm']
        exact h (e :: pre) post (congrArg (e :: ·) hes)
    cases e with
    | begins c => exact (ih hm).trans (hcons m fun _ => rfl)
    | fails c => exact (ih hm).trans (hcons m fun _ => rfl)
    | gives c r =>
      have hrest := hcons (Function.update m c (some r)) fun _ => rfl
      constructor
      · rintro ⟨hback, hes⟩
        exact hrest.1 ((ih ((acyclic_update_iff hm).2 hback)).1 hes)
      · intro h
        have hacyclic : Acyclic (Function.update m c (some r)) := h [gives c r] es rfl
        exact ⟨(acyclic_update_iff hm).1 hacyclic, (ih hacyclic).2 (hrest.2 h)⟩

end CallEvent

namespace RunM

open CallEvent

variable {β σ α : Type} {host : Host β σ} {n : Nat} {p : Program β σ α} {s t : State β σ}

/-- At no moment of a run are there results that are a deferred call. -/
lemma Moment.settled (h : Moment host n p s t) (hs : s.ledger.Settled) : t.ledger.Settled := by
  refine h.rel (R := fun s t => s.ledger.Settled → t.ledger.Settled)
    (fun _ _ _ hst htu hs => htu (hst hs)) (fun _ _ hp => hp.evolves.settled)
    (fun _ _ _ _ _ _ hp => hp.evolves.settled) ?_ hs
  rintro _ _ _ _ _ _ v _ _ hc ⟨-, -, -, -, -, -, rfl⟩
  exact hc.evolves.settled

lemma result?_init (config : Config) (x : σ) :
    (State.init config x : State β σ).ledger.result? = fun _ => none := by
  funext c
  simp [State.init, Ledger.result?, Ledger.get?]

/-- **When readings have an end.**  At every moment of a run from a fresh state, each position of each
sequence can be read.  A sequence can be counted and listed unless it leads to a call whose results
lead back to the call; then no number of hops comes to its end.

There are no such calls at any moment of a run in which no results are entered that lead back to their
call by the results at that time, and so everything can be counted and listed there; and as soon as
results do lead back, there is one. -/
theorem readings_end_without_circles (host : Host β σ) (n : Nat) (p : Program β σ α)
    (config : Config) (x : σ) :
    (∀ t, Moment host n p (.init config x) t → ∀ q : Sequence,
      (∀ i, ∃ v, q.get? t.ledger i = some v) ∧
      (q.count? t.ledger = none ↔ q.Circles t.ledger) ∧
      (q.values? t.ledger = none ↔ q.Circles t.ledger) ∧
      (q.Circles t.ledger ↔ ∀ hops, Sequence.countIn? t.ledger hops q = none)) ∧
    (Straight (fun _ => none) (p.events host n (.init config x)) →
      ∀ t, Moment host n p (.init config x) t → t.ledger.Acyclic ∧
        ∀ q : Sequence, ∃ vs, q.values? t.ledger = some vs ∧ q.count? t.ledger = some vs.length) ∧
    (Straight (fun _ => none) (p.events host n (.init config x)) ↔
      ∀ pre post, p.events host n (.init config x) = pre ++ post →
        Acyclic (replay (fun _ => none) pre)) := by
  have hiff : Straight (fun _ => none) (p.events host n (.init config x)) ↔
      ∀ pre post, p.events host n (.init config x) = pre ++ post →
        Acyclic (replay (fun _ => none) pre) := straight_iff acyclic_none
  refine ⟨fun t ht q => ⟨?_, Sequence.count?_eq_none_iff, Sequence.values?_eq_none_iff, ?_⟩,
    fun hstraight t ht => ?_, hiff⟩
  · exact Sequence.exists_get? (ht.settled Ledger.settled_empty) q
  · simp only [Sequence.countIn?_eq_none_iff, ← not_exists, Sequence.exists_within_iff, not_not]
  · obtain ⟨pre, post, hevents, hresult⟩ := ht.exists_events
    have hacyclic : t.ledger.Acyclic := by
      show Acyclic t.ledger.result?
      rw [hresult, result?_init]
      exact hiff.1 hstraight pre post hevents
    refine ⟨hacyclic, fun q => ?_⟩
    have hwithin := Sequence.within_size hacyclic q
    obtain ⟨vs, hv⟩ := hwithin.exists_lists
    exact ⟨vs, hwithin.values?_eq hv, hwithin.countIn? hv⟩

/-! ### A call in its own results -/

/-- A value, and behind it the first call of the ledger. -/
def ring : Sequence := .slice #[.int 1] 0 (by decide) (.ofCall ⟨0⟩)

def ringHost : Host Unit Unit := fun _ _ _ => pure ring

def ringFunction : Function Unit := { name := "ring", captures := [], body := () }

/-- Makes the function, defers a call of it, and makes that call. -/
def ringProgram : Program Unit Unit Sequence := do
  let f ← .store (Store.newFunction ringFunction)
  .settle (← .defer f .empty)

/-- The call is made, and can not be counted from then on. -/
lemma count?_ringProgram : ∃ t, Moment ringHost 2 ringProgram (.init {} ()) t ∧
    (Sequence.ofCall ⟨0⟩).count? t.ledger = none := by
  obtain ⟨u, hmade, hledger, hfull, hresolve⟩ :
      ∃ u : State Unit Unit, attempt (ofStore (Store.newFunction ringFunction)) (.init {} ()) =
          .ok (.ok (.function ⟨0, 0⟩)) u ∧
        u.ledger = {} ∧ u.isFull = false ∧
        Store.resolve u.store.config.maxTagLoop (.function ⟨0, 0⟩) .empty u.store =
          .ok (ringFunction, .empty) u.store := ⟨_, rfl, rfl, rfl, rfl⟩
  let v : State Unit Unit := { u with ledger := (u.ledger.add (.function ⟨0, 0⟩) .empty).1 }
  have hstanding : v.ledger.standing? (.ofCall ⟨0⟩) =
      some (.outstanding ⟨0⟩ (.function ⟨0, 0⟩) .empty) := by
    show (u.ledger.add (.function ⟨0, 0⟩) .empty).1.standing? _ = _
    rw [hledger]
    rfl
  have hstarts : Starts ringHost v (.function ⟨0, 0⟩) .empty (pure ring)
      { v with depth := v.depth + 1 } :=
    ⟨ringFunction, .empty, u.store, hresolve, hfull, rfl, rfl⟩
  have henter : enter ringHost (perform ringHost 1) (.function ⟨0, 0⟩) .empty v = .ok ring v :=
    hstarts.enter_eq _
  have hsettle : perform ringHost 2 (.settle (.ofCall ⟨0⟩)) v =
      .ok ring { v with ledger := v.ledger.recordAll ring [⟨0⟩] } :=
    (settle_outstanding hstanding).trans ((bind_ok henter).trans (settle_results rfl))
  have hcall : (u.ledger.add (.function ⟨0, 0⟩) .empty).2 = ⟨0⟩ := by rw [hledger]; rfl
  have hdelay : Goes ringHost 2 ((Program.defer (.function ⟨0, 0⟩) .empty).bind .settle) u
      (.settle (.ofCall ⟨0⟩)) v := by
    rw [← hcall]
    exact .delay
  have hrecord : v.ledger.recordAll ring [⟨0⟩] =
      ((({} : Ledger).add (.function ⟨0, 0⟩) .empty).1).recordAll ring [⟨0⟩] := by
    show (u.ledger.add (.function ⟨0, 0⟩) .empty).1.recordAll ring [⟨0⟩] = _
    rw [hledger]
  refine ⟨_, Or.inl ⟨_, .step (.onStore hmade) (.step hdelay (.step (.request (attempt_ok hsettle))
    .refl))⟩, ?_⟩
  rw [hrecord]
  rfl

theorem readings_end_without_circles_ring :
    ¬ Straight (fun _ => none) (ringProgram.events ringHost 2 (.init {} ())) ∧
      ∃ t, Moment ringHost 2 ringProgram (.init {} ()) t ∧
        (Sequence.ofCall ⟨0⟩).Circles t.ledger ∧
        ∀ i, ∃ v, (Sequence.ofCall ⟨0⟩).get? t.ledger i = some v := by
  obtain ⟨hread, hstraight, -⟩ := readings_end_without_circles ringHost 2 ringProgram {} ()
  obtain ⟨t, ht, hnone⟩ := count?_ringProgram
  obtain ⟨hget, hcount, -⟩ := hread t ht (.ofCall ⟨0⟩)
  refine ⟨fun h => ?_, t, ht, hcount.1 hnone, hget⟩
  obtain ⟨vs, -, hsome⟩ := (hstraight h t ht).2 (.ofCall ⟨0⟩)
  rw [hnone] at hsome
  cases hsome

end RunM

end LuaCore
