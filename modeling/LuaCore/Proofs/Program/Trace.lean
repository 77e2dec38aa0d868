import LuaCore.Proofs.Program.Evolution
import Mathlib.Data.List.Induction
import Mathlib.Logic.Function.Basic

/-!
How often a deferred call is made.

The events of a run tell when a function is called on behalf of a deferred call, when results are
entered for the call, and when the call is given up because of an error.  A call that has results is
not made again.  So there is a second time only while the first is under way, or after it has failed.
-/

namespace LuaCore

/-- What may become of a deferred call in the course of a run. -/
inductive CallEvent where
  /-- Its function is called, on its behalf. -/
  | begins (c : CallId)
  /-- Results are entered for it. -/
  | gives (c : CallId) (r : Sequence)
  /-- It is given up, because of an error on the way to its results. -/
  | fails (c : CallId)
deriving DecidableEq

/-! ### The events of a run -/

namespace Program

variable {β σ α ε : Type}

/-- The events of a program, where `inner` gives those of the calls that it asks for. -/
def eventsWith (perform : Request → RunM β σ Sequence)
    (inner : Request → State β σ → List ε) : Program β σ α → State β σ → List ε
  | done _, _ => []
  | stop _, _ => []
  | onStore x next, s =>
    match RunM.attempt (RunM.ofStore x) s with
    | .ok r t => (next r).eventsWith perform inner t
    | .error _ _ => []
  | onHost f next, s =>
    (next (f s.host).1).eventsWith perform inner { s with host := (f s.host).2 }
  | look next, s => (next s.ledger).eventsWith perform inner s
  | delay callee args next, s =>
    (next (.ofCall (s.ledger.add callee args).2)).eventsWith perform inner
      { s with ledger := (s.ledger.add callee args).1 }
  | request q next, s =>
    inner q s ++
      match RunM.attempt (perform q) s with
      | .ok r t => (next r).eventsWith perform inner t
      | .error _ _ => []

end Program

namespace RunM

variable {β σ : Type}

/-- The events of one call: those of the body. -/
def enterEvents (host : Host β σ) (perform : Request → RunM β σ Sequence)
    (inner : Request → State β σ → List CallEvent) (f : Value) (a : Sequence) (s : State β σ) :
    List CallEvent :=
  match Store.resolve s.store.config.maxTagLoop f a s.store with
  | .ok (k, x) u =>
    if ({ s with store := u } : State β σ).isFull then []
    else (host k.body k.captures x).eventsWith perform inner
      { s with store := u, depth := s.depth + 1 }
  | .error _ _ => []

/-- The events of settling a sequence, where `inner` gives those of a call. -/
def settleEvents (enter : Value → Sequence → RunM β σ Sequence)
    (inner : Value → Sequence → State β σ → List CallEvent) (fuel : Nat) (passed : List CallId)
    (q : Sequence) (s : State β σ) : List CallEvent :=
  match s.ledger.standing? q with
  | none => []
  | some (.results r) => passed.map (.gives · r)
  | some (.outstanding c f a) =>
    match fuel with
    | 0 => []
    | n + 1 =>
      .begins c :: inner f a s ++
        match enter f a s with
        | .ok r t => settleEvents enter inner n (c :: passed) r t
        | .error (.error _) _ => (c :: passed).map .fails
        | .error _ _ => []

/-- The events of what a program asks for. -/
def performEvents (host : Host β σ) : (fuel : Nat) → Request → State β σ → List CallEvent
  | 0, _, _ => []
  | n + 1, .invoke f a, s =>
    enterEvents host (perform host n) (performEvents host n) f a s ++
      match enter host (perform host n) f a s with
      | .ok r t => settleEvents (enter host (perform host n))
          (enterEvents host (perform host n) (performEvents host n)) n [] r t
      | .error _ _ => []
  | n + 1, .settle q, s =>
    settleEvents (enter host (perform host n))
      (enterEvents host (perform host n) (performEvents host n)) n [] q s

end RunM

/-- **The events of a run**, one after the other. -/
def Program.events {β σ α : Type} (host : Host β σ) (fuel : Nat) (p : Program β σ α) (s : State β σ) :
    List CallEvent :=
  p.eventsWith (RunM.perform host fuel) (RunM.performEvents host fuel) s

/-! ### Histories of events -/

namespace CallEvent

variable {l : CallId → Option Sequence} {es fs : List CallEvent} {c : CallId}

/-- The results that there are after some events. -/
def replay (l : CallId → Option Sequence) : List CallEvent → CallId → Option Sequence
  | [] => l
  | gives c r :: es => replay (Function.update l c (some r)) es
  | begins _ :: es => replay l es
  | fails _ :: es => replay l es

/-- **Orderly events**: a call is begun only as long as it has no results. -/
def Orderly (l : CallId → Option Sequence) : List CallEvent → Prop
  | [] => True
  | gives c r :: es => Orderly (Function.update l c (some r)) es
  | begins c :: es => l c = none ∧ Orderly l es
  | fails _ :: es => Orderly l es

lemma replay_append (l : CallId → Option Sequence) (es fs : List CallEvent) :
    replay l (es ++ fs) = replay (replay l es) fs := by
  induction es generalizing l with
  | nil => rfl
  | cons e es ih => cases e <;> exact ih _

lemma orderly_append : Orderly l (es ++ fs) ↔ Orderly l es ∧ Orderly (replay l es) fs := by
  induction es generalizing l with
  | nil => simp [Orderly, replay]
  | cons e es ih =>
    cases e with
    | begins c => exact (and_congr_right fun _ => ih).trans and_assoc.symm
    | gives c r => exact ih
    | fails c => exact ih

lemma replay_map_fails (cs : List CallId) : replay l (cs.map fails) = l := by
  induction cs with
  | nil => rfl
  | cons c cs ih => exact ih

lemma orderly_map_fails (cs : List CallId) : Orderly l (cs.map fails) := by
  induction cs with
  | nil => trivial
  | cons c cs ih => exact ih

lemma replay_map_gives (r : Sequence) (cs : List CallId) (d : CallId) :
    replay l (cs.map (gives · r)) d = if d ∈ cs then some r else l d := by
  induction cs generalizing l with
  | nil => rfl
  | cons c cs ih =>
    have hstep : replay l ((c :: cs).map (gives · r)) =
        replay (Function.update l c (some r)) (cs.map (gives · r)) := rfl
    rw [hstep, ih]
    by_cases hd : d = c
    · simp [hd]
    · simp [hd]

lemma orderly_map_gives (r : Sequence) (cs : List CallId) : Orderly l (cs.map (gives · r)) := by
  induction cs generalizing l with
  | nil => trivial
  | cons c cs ih => exact ih

/-- Results stay. -/
lemma replay_ne_none (h : l c ≠ none) : replay l es c ≠ none := by
  induction es generalizing l with
  | nil => exact h
  | cons e es ih =>
    cases e with
    | begins d => exact ih h
    | fails d => exact ih h
    | gives d r =>
      refine ih ?_
      by_cases hd : c = d
      · simp [hd]
      · simpa [hd] using h

lemma replay_ne_none_of_gives {r : Sequence} (h : gives c r ∈ es) : replay l es c ≠ none := by
  obtain ⟨pre, post, rfl⟩ := List.append_of_mem h
  rw [replay_append]
  exact replay_ne_none (l := Function.update (replay l pre) c (some r)) (by simp)

/-- **A call that has results is not begun again.** -/
lemma Orderly.of_begins {pre post : List CallEvent} (h : Orderly l (pre ++ begins c :: post)) :
    l c = none ∧ ∀ r, gives c r ∉ pre := by
  have hnone : replay l pre c = none := (orderly_append.1 h).2.1
  constructor
  · by_contra hc
    exact replay_ne_none hc hnone
  · intro r hr
    exact replay_ne_none_of_gives hr hnone

/-- The event is the end of an evaluation of the call, with results or without. -/
def isEnd (c : CallId) : CallEvent → Bool
  | gives d _ => d == c
  | fails d => d == c
  | begins _ => false

/-- No more evaluations of the call end than are begun, apart from some that were under way. -/
def EndsWithin (c : CallId) (n : Nat) (es : List CallEvent) : Prop :=
  es.countP (isEnd c) ≤ es.count (begins c) + n

lemma EndsWithin.append {n : Nat} (hes : EndsWithin c 0 es) (hfs : EndsWithin c n fs) :
    EndsWithin c n (es ++ fs) := by
  unfold EndsWithin at *
  rw [List.countP_append, List.count_append]
  omega

lemma EndsWithin.mono {n m : Nat} (h : EndsWithin c n es) (hnm : n ≤ m) : EndsWithin c m es := by
  unfold EndsWithin at *
  omega

lemma endsWithin_nil {n : Nat} : EndsWithin c n [] := Nat.zero_le _

/-- A call that is begun may end once more. -/
lemma EndsWithin.begins_cons {d : CallId} {passed : List CallId}
    (h : EndsWithin d ((c :: passed).count d) es) :
    EndsWithin d (passed.count d) (begins c :: es) := by
  unfold EndsWithin at *
  rw [List.count_cons] at h
  rw [List.countP_cons, List.count_cons]
  by_cases hd : c = d
  · subst hd
    simp only [beq_self_eq_true, if_true, isEnd, Bool.false_eq_true, if_false] at h ⊢
    omega
  · simp only [beq_iff_eq, hd, begins.injEq, if_false, isEnd, Bool.false_eq_true] at h ⊢
    omega

lemma countP_isEnd_map_gives (r : Sequence) (cs : List CallId) :
    (cs.map (gives · r)).countP (isEnd c) = cs.count c := by
  rw [List.countP_map]
  rfl

lemma countP_isEnd_map_fails (cs : List CallId) :
    (cs.map fails).countP (isEnd c) = cs.count c := by
  rw [List.countP_map]
  rfl

end CallEvent

/-! ### The events tell what happens -/

namespace RunM

open CallEvent

variable {β σ α : Type} {host : Host β σ} {s t : State β σ} {c : CallId}

/-- **Events that fit a computation**: they are orderly, they make for the results that there are in
the end, and no evaluation ends in them that was not begun in them, except for calls passed before. -/
structure Tracks (x : RunM β σ α) (passed : List CallId) (s : State β σ) (es : List CallEvent) :
    Prop where
  orderly : Orderly s.ledger.result? es
  replay : ∀ t, Ends x s t → t.ledger.result? = replay s.ledger.result? es
  ends : ∀ c, EndsWithin c (passed.count c) es

section Steps

variable {perform : Request → RunM β σ Sequence} {inner : Request → State β σ → List CallEvent}

lemma tracks_runWith (hp : ∀ q s, Tracks (perform q) [] s (inner q s)) (p : Program β σ α)
    (s : State β σ) : Tracks (p.runWith perform) [] s (p.eventsWith perform inner s) := by
  induction p generalizing s with
  | done a =>
    refine ⟨trivial, ?_, fun _ => endsWithin_nil⟩
    rintro t (⟨b, hb⟩ | ⟨e, he⟩)
    · cases hb
      rfl
    · cases he
  | stop e =>
    refine ⟨trivial, ?_, fun _ => endsWithin_nil⟩
    rintro t (⟨b, hb⟩ | ⟨e, he⟩)
    · cases hb
    · cases he
      rfl
  | onStore x next ih =>
    rw [Program.eventsWith]
    cases hx : attempt (ofStore x) s with
    | ok r u =>
      obtain ⟨v, rfl⟩ := ends_ofStore (exists_of_attempt hx)
      obtain ⟨horder, hreplay, hends⟩ := ih r { s with store := v }
      exact ⟨horder, fun t ht => hreplay t (Ends.of_bind_ok hx ht), hends⟩
    | error e u =>
      refine ⟨trivial, fun t ht => ?_, fun _ => endsWithin_nil⟩
      rcases Ends.of_bind ht with ⟨r, v, hr, -⟩ | ⟨e', he'⟩
      · simp [hx] at hr
      · exact absurd he' attempt_ne_error
  | onHost f next ih =>
    obtain ⟨horder, hreplay, hends⟩ := ih (f s.host).1 { s with host := (f s.host).2 }
    exact ⟨horder, fun t ht => hreplay t ht, hends⟩
  | look next ih =>
    obtain ⟨horder, hreplay, hends⟩ := ih s.ledger s
    exact ⟨horder, fun t ht => hreplay t ht, hends⟩
  | delay callee args next ih =>
    obtain ⟨horder, hreplay, hends⟩ := ih (.ofCall (s.ledger.add callee args).2)
      { s with ledger := (s.ledger.add callee args).1 }
    have hadd : (s.ledger.add callee args).1.result? = s.ledger.result? :=
      funext (Ledger.result?_add s.ledger callee args)
    dsimp only at horder hreplay
    rw [hadd] at horder hreplay
    exact ⟨horder, fun t ht => hreplay t ht, hends⟩
  | request q next ih =>
    obtain ⟨horder, hreplay, hends⟩ := hp q s
    rw [Program.eventsWith]
    cases hx : attempt (perform q) s with
    | ok r u =>
      have hu := hreplay u (exists_of_attempt hx)
      obtain ⟨horder', hreplay', hends'⟩ := ih r u
      rw [hu] at horder' hreplay'
      refine ⟨orderly_append.2 ⟨horder, horder'⟩, fun t ht => ?_, fun c => (hends c).append (hends' c)⟩
      rw [replay_append]
      exact hreplay' t (Ends.of_bind_ok hx ht)
    | error e u =>
      dsimp only
      rw [List.append_nil]
      refine ⟨horder, fun t ht => ?_, hends⟩
      rcases Ends.of_bind ht with ⟨r, v, hr, -⟩ | ⟨e', he'⟩
      · simp [hx] at hr
      · exact absurd he' attempt_ne_error

lemma tracks_enter (hp : ∀ q s, Tracks (perform q) [] s (inner q s)) (f : Value) (a : Sequence)
    (s : State β σ) :
    Tracks (enter host perform f a) [] s (enterEvents host perform inner f a s) := by
  rw [enterEvents]
  cases hr : Store.resolve s.store.config.maxTagLoop f a s.store with
  | error e u =>
    refine ⟨trivial, fun t ht => ?_, fun _ => endsWithin_nil⟩
    rw [Ends, enter_eq, hr] at ht
    rcases ht with ⟨b, hb⟩ | ⟨e', he⟩
    · cases hb
    · cases he
      rfl
  | ok k u =>
    dsimp only
    split
    · next hfull =>
      refine ⟨trivial, fun t ht => ?_, fun _ => endsWithin_nil⟩
      rw [Ends, enter_eq, hr] at ht
      dsimp only at ht
      rw [if_pos hfull] at ht
      rcases ht with ⟨b, hb⟩ | ⟨e', he⟩
      · cases hb
      · cases he
        rfl
    · next hfull =>
      obtain ⟨horder, hreplay, hends⟩ := tracks_runWith hp (host k.1.body k.1.captures k.2)
        { s with store := u, depth := s.depth + 1 }
      refine ⟨horder, fun t ht => ?_, hends⟩
      rw [Ends, enter_eq, hr] at ht
      dsimp only at ht
      rw [if_neg hfull] at ht
      obtain ⟨v, hv, rfl⟩ := ends_of_leave ht
      exact hreplay v hv

section Settle

variable {enter : Value → Sequence → RunM β σ Sequence}
  {inner : Value → Sequence → State β σ → List CallEvent} {passed : List CallId} {q r : Sequence}
  {c : CallId} {f : Value} {a : Sequence} {n : Nat}

/-- Results are entered for the calls that were passed. -/
lemma tracks_settle_results (hq : s.ledger.standing? q = some (.results r))
    (hpassed : ∀ c ∈ passed, (s.ledger.get? c).isSome = true) :
    Tracks (settle enter n passed q) passed s (settleEvents enter inner n passed q s) := by
  unfold settleEvents
  rw [hq]
  refine ⟨orderly_map_gives r passed, fun t ht => funext fun d => ?_, fun c => ?_⟩
  · rw [Ends, settle_results hq] at ht
    rcases ht with ⟨b, hb⟩ | ⟨e, he⟩
    · cases hb
      rw [replay_map_gives, Ledger.result?_recordAll]
      by_cases hd : d ∈ passed
      · simp [hd, hpassed d hd]
      · simp [hd]
    · cases he
  · unfold EndsWithin
    rw [countP_isEnd_map_gives]
    omega

/-- One more call: it begins, and what comes after it follows in the events. -/
lemma tracks_settle_outstanding (hq : s.ledger.standing? q = some (.outstanding c f a))
    (hinner : Tracks (enter f a) [] s (inner f a s))
    (hnext : ∀ r t, enter f a s = .ok r t →
      Tracks (settle enter n (c :: passed) r) (c :: passed) t
        (settleEvents enter inner n (c :: passed) r t)) :
    Tracks (settle enter (n + 1) passed q) passed s (settleEvents enter inner (n + 1) passed q s) := by
  rw [settleEvents, hq]
  dsimp only
  obtain ⟨horder, hreplay, hends⟩ := hinner
  have hbegin : Orderly s.ledger.result? (.begins c :: inner f a s) :=
    ⟨Ledger.result?_of_outstanding hq, horder⟩
  cases he : enter f a s with
  | ok r t =>
    obtain ⟨horder', hreplay', hends'⟩ := hnext r t he
    rw [hreplay t (Or.inl ⟨r, he⟩)] at horder' hreplay'
    refine ⟨orderly_append.2 ⟨hbegin, horder'⟩, fun u hu => ?_, fun d => ?_⟩
    · rw [Ends, settle_outstanding hq] at hu
      rw [replay_append]
      exact hreplay' u (Ends.of_bind_ok he hu)
    · exact ((hends d).append (hends' d)).begins_cons
  | error e t =>
    have hu : ∀ u, Ends (settle enter (n + 1) passed q) s u → Ends (enter f a) s u := by
      intro u hu
      rw [Ends, settle_outstanding hq] at hu
      rcases Ends.of_bind hu with ⟨r, v, hr, -⟩ | ⟨e', he'⟩
      · simp [he] at hr
      · exact Or.inr ⟨e', he'⟩
    cases e with
    | error e =>
      refine ⟨orderly_append.2 ⟨hbegin, orderly_map_fails _⟩, fun u h => ?_, fun d => ?_⟩
      · rw [replay_append, replay_map_fails]
        exact hreplay u (hu u h)
      · refine EndsWithin.begins_cons ((hends d).append ?_)
        unfold EndsWithin
        rw [countP_isEnd_map_fails]
        omega
    | _ =>
      dsimp only
      rw [List.append_nil]
      refine ⟨hbegin, fun u h => hreplay u (hu u h), fun d => EndsWithin.begins_cons ?_⟩
      exact (hends d).mono (Nat.zero_le _)

/-- Where settling comes to no end, it has no events. -/
lemma tracks_nil {x : RunM β σ Sequence} (hx : ∀ t, ¬ Ends x s t) : Tracks x passed s [] :=
  ⟨trivial, fun t ht => absurd ht (hx t), fun _ => endsWithin_nil⟩

lemma tracks_settle (hevolves : ∀ f a s t, Ends (enter f a) s t → s.Evolves t)
    (hinner : ∀ f a s, Tracks (enter f a) [] s (inner f a s)) (n : Nat) (q : Sequence)
    (hpassed : ∀ c ∈ passed, (s.ledger.get? c).isSome = true) :
    Tracks (settle enter n passed q) passed s (settleEvents enter inner n passed q s) := by
  induction n using Nat.strongRecOn generalizing passed q s with
  | ind n ih =>
    cases hq : s.ledger.standing? q with
    | none =>
      have hevents : settleEvents enter inner n passed q s = [] := by
        unfold settleEvents
        rw [hq]
      rw [hevents]
      exact tracks_nil fun t ht => by simp [Ends, settle_unknown hq] at ht
    | some st =>
      cases st with
      | results r => exact tracks_settle_results hq hpassed
      | outstanding c f a =>
        cases n with
        | zero =>
          have hevents : settleEvents enter inner 0 passed q s = [] := by
            unfold settleEvents
            rw [hq]
          rw [hevents]
          exact tracks_nil fun t ht => by simp [Ends, settle_zero hq] at ht
        | succ n =>
          refine tracks_settle_outstanding hq (hinner f a s) fun r t he => ?_
          refine ih n (Nat.lt_succ_self n) r fun d hd => ?_
          -- the call itself and those passed are still in the ledger when the function has ended
          have hds : (s.ledger.get? d).isSome = true := by
            rcases List.mem_cons.1 hd with rfl | hd
            · rw [(Ledger.outstanding_iff.1 hq).2]
              rfl
            · exact hpassed d hd
          obtain ⟨x, hx⟩ := Option.isSome_iff_exists.1 hds
          obtain ⟨y, hy⟩ := (hevolves f a s t (Or.inl ⟨r, he⟩)).calls d x hx
          rw [hy]
          rfl

end Settle

end Steps

/-- **The events of a run fit it.** -/
lemma tracks_perform (host : Host β σ) (n : Nat) (q : Request) (s : State β σ) :
    Tracks (perform host n q) [] s (performEvents host n q s) := by
  induction n generalizing q s with
  | zero =>
    refine ⟨trivial, fun t ht => ?_, fun _ => endsWithin_nil⟩
    rcases ht with ⟨b, hb⟩ | ⟨e, he⟩
    · cases hb
    · cases he
  | succ n ih =>
    have hevolves : ∀ f a s t, Ends (enter host (perform host n) f a) s t → s.Evolves t :=
      fun _ _ _ _ => evolves_enter fun q _ _ => evolves_perform n q
    have hinner : ∀ f a s, Tracks (enter host (perform host n) f a) [] s _ := tracks_enter ih
    cases q with
    | settle q => exact tracks_settle hevolves hinner n q (by simp)
    | invoke f a =>
      obtain ⟨horder, hreplay, hends⟩ := hinner f a s
      rw [performEvents]
      cases he : enter host (perform host n) f a s with
      | ok r t =>
        have hsettle : Tracks (settle (enter host (perform host n)) n [] r) [] t _ :=
          tracks_settle hevolves hinner n r (by simp)
        obtain ⟨horder', hreplay', hends'⟩ := hsettle
        rw [hreplay t (Or.inl ⟨r, he⟩)] at horder' hreplay'
        refine ⟨orderly_append.2 ⟨horder, horder'⟩, fun u hu => ?_,
          fun c => (hends c).append (hends' c)⟩
        rw [replay_append]
        exact hreplay' u (Ends.of_bind_ok he hu)
      | error e t =>
        dsimp only
        rw [List.append_nil]
        refine ⟨horder, fun u hu => ?_, hends⟩
        rcases Ends.of_bind hu with ⟨r, v, hr, -⟩ | ⟨e', he'⟩
        · simp [he] at hr
        · exact hreplay u (Or.inr ⟨e', he'⟩)

lemma tracks_run (host : Host β σ) (n : Nat) (p : Program β σ α) (s : State β σ) :
    Tracks (p.run host n) [] s (p.events host n s) :=
  tracks_runWith (tracks_perform host n) p s

/-! ### At most once -/

/-- No evaluation of the call is begun while another one is under way: as many have ended as were
begun. -/
def NeverNested (c : CallId) (es : List CallEvent) : Prop :=
  ∀ pre post, es = pre ++ .begins c :: post → pre.count (.begins c) ≤ pre.countP (isEnd c)

/-- What occurs twice occurs after itself. -/
lemma exists_split_of_two_le_count {e : CallEvent} {es : List CallEvent} (h : 2 ≤ es.count e) :
    ∃ pre post, es = pre ++ e :: post ∧ e ∈ pre := by
  have hmem : e ∈ es := List.count_pos_iff.1 (by omega)
  obtain ⟨pre, post, rfl⟩ := List.append_of_mem hmem
  by_cases hpre : e ∈ pre
  · exact ⟨pre, post, rfl, hpre⟩
  · have hpost : e ∈ post := by
      rw [List.count_append, List.count_cons_self, List.count_eq_zero_of_not_mem hpre] at h
      exact List.count_pos_iff.1 (by omega)
    obtain ⟨mid, rest, rfl⟩ := List.append_of_mem hpost
    exact ⟨pre ++ e :: mid, rest, by simp, by simp⟩

lemma count_begins_le_one {l : CallId → Option Sequence} {es : List CallEvent} (hes : Orderly l es)
    (hnested : NeverNested c es) (hfails : .fails c ∉ es) : es.count (.begins c) ≤ 1 := by
  by_contra htwo
  have htwice : 2 ≤ es.count (.begins c) := by omega
  obtain ⟨pre, post, rfl, hpre⟩ := exists_split_of_two_le_count htwice
  have hbegun : 0 < pre.count (.begins c) := List.count_pos_iff.2 hpre
  have hended := hnested pre post rfl
  obtain ⟨e, he, hend⟩ := List.countP_pos_iff.1 (Nat.lt_of_lt_of_le hbegun hended)
  cases e with
  | begins d => simp [isEnd] at hend
  | gives d r =>
    obtain rfl : d = c := by simpa [isEnd] using hend
    exact hes.of_begins.2 r he
  | fails d =>
    obtain rfl : d = c := by simpa [isEnd] using hend
    exact hfails (List.mem_append_left _ he)

/-- At most one evaluation of the call is under way at a time. -/
lemma NeverNested.count_begins_le {es : List CallEvent} (h : NeverNested c es) :
    es.count (.begins c) ≤ es.countP (isEnd c) + 1 := by
  induction es using List.reverseRecOn with
  | nil => simp
  | append_singleton es e ih =>
    have hes : NeverNested c es := fun pre post heq => h pre (post ++ [e]) (by simp [heq])
    have hle := ih hes
    rw [List.count_append, List.countP_append]
    by_cases he : e = .begins c
    · subst he
      have hnow := h es [] rfl
      simp only [List.count_singleton_self]
      omega
    · rw [List.count_singleton, if_neg (by simpa using he)]
      omega

/-- Results that are there at the start are not replaced. -/
lemma not_gives_of_made {l : CallId → Option Sequence} {es : List CallEvent} (hes : Orderly l es)
    (hends : EndsWithin c 0 es) (hmade : l c ≠ none) (r : Sequence) : .gives c r ∉ es := by
  intro hr
  have hbegun : 0 < es.count (.begins c) :=
    Nat.lt_of_lt_of_le (List.countP_pos_iff.2 ⟨.gives c r, hr, by simp [isEnd]⟩) hends
  obtain ⟨pre, post, rfl⟩ := List.append_of_mem (List.count_pos_iff.1 hbegun)
  exact hmade hes.of_begins.1

/-- Neither are those that are entered later, as long as no evaluations are nested. -/
lemma not_gives_again {l : CallId → Option Sequence} {pre post : List CallEvent} {r : Sequence}
    (hes : Orderly l (pre ++ .gives c r :: post)) (hends : EndsWithin c 0 (pre ++ .gives c r :: post))
    (hnested : NeverNested c (pre ++ .gives c r :: post)) (r' : Sequence) : .gives c r' ∉ post := by
  intro hr'
  -- from the first results on, the call is not begun
  have hpost : post.count (.begins c) = 0 := by
    rw [List.count_eq_zero]
    intro hmem
    obtain ⟨mid, rest, rfl⟩ := List.append_of_mem hmem
    have hsplit : pre ++ .gives c r :: (mid ++ .begins c :: rest) =
        (pre ++ .gives c r :: mid) ++ .begins c :: rest := by simp
    rw [hsplit] at hes
    exact hes.of_begins.2 r (by simp)
  have hpre : NeverNested c pre := fun a b hab => hnested a (b ++ .gives c r :: post) (by simp [hab])
  have hle := hpre.count_begins_le
  have htwo : 0 < post.countP (isEnd c) := List.countP_pos_iff.2 ⟨.gives c r', hr', by simp [isEnd]⟩
  unfold EndsWithin at hends
  rw [List.countP_append, List.countP_cons_of_pos (by simp [isEnd]), List.count_append,
    List.count_cons_of_ne (by simp), hpost] at hends
  omega

/-- **When a deferred call is made, and how often.**  Its function is called on its behalf only as long
as there are no results for it, and results that are there at the start are not replaced.  So in a run
in which no evaluation of the call fails, and none is begun while another is under way, its function is
called at most once, and results that are entered for it are never replaced by others. -/
theorem deferred_call_made_once (host : Host β σ) (n : Nat) (p : Program β σ α) (s : State β σ)
    (c : CallId) :
    (∀ t, Ends (p.run host n) s t →
      t.ledger.result? = replay s.ledger.result? (p.events host n s)) ∧
    (∀ pre post, p.events host n s = pre ++ .begins c :: post →
      s.ledger.result? c = none ∧ ∀ r, .gives c r ∉ pre) ∧
    (s.ledger.result? c ≠ none → ∀ r, .gives c r ∉ p.events host n s) ∧
    (NeverNested c (p.events host n s) → .fails c ∉ p.events host n s →
      (p.events host n s).count (.begins c) ≤ 1 ∧
      ∀ pre post r, p.events host n s = pre ++ .gives c r :: post → ∀ r', .gives c r' ∉ post) := by
  obtain ⟨horder, hreplay, hends⟩ := tracks_run host n p s
  generalize p.events host n s = es at *
  have hended : EndsWithin c 0 es := hends c
  refine ⟨hreplay, fun pre post hes => (hes ▸ horder).of_begins, fun hmade r => ?_,
    fun hnested hfails => ⟨count_begins_le_one horder hnested hfails, ?_⟩⟩
  · exact not_gives_of_made horder hended hmade r
  · rintro pre post r rfl r'
    exact not_gives_again horder hended hnested r'

end RunM

end LuaCore
