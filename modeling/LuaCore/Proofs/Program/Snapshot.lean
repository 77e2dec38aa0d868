import LuaCore.Proofs.Program.Moments
import LuaCore.Proofs.Sequence.Lists

/-!
Snapshots, and how a sequence grows.

A snapshot holds the values of a sequence as they are, and no call, so it is the same in every ledger.
The sequence itself may wait for a call.  Results that have been entered stay, as long as no call is
evaluated again during its own evaluation; so what a sequence lists at one time it lists at any later
time, and behind it, once there are results, what is listed of the call that it waits for.
-/

namespace LuaCore

/-- The results of one ledger are those of another, where there may be more. -/
def Ledger.Keeps (l m : Ledger) : Prop := ∀ c r, l.result? c = some r → m.result? c = some r

namespace Sequence

variable {l m : Ledger} {s t r : Sequence} {vs ws : List Value} {c : CallId}

/-! ### Sequences without a call -/

lemma last?_ofList (vs : List Value) : (ofList vs).last? = none := by
  rcases vs with _ | ⟨u, _ | ⟨v, _ | ⟨w, vs⟩⟩⟩ <;> rfl

/-- A snapshot contains no call. -/
lemma last?_of_snapshot? (h : s.snapshot? l = some t) : t.last? = none := by
  have hvalues : (s.values? l).map ofList = some t → t.last? = none := by
    intro hmap
    obtain ⟨vs, -, rfl⟩ := Option.map_eq_some_iff.1 hmap
    exact last?_ofList vs
  cases s with
  | empty => cases h; rfl
  | one v => cases h; rfl
  | pair v w => cases h; rfl
  | _ => exact hvalues h

/-- Where there is no call, a sequence reads as its own values in every ledger. -/
lemma readsAs_own (h : s.last? = none) (l : Ledger) : s.ReadsAs l s.own := by
  have hbehind : s.behind? l = none := by rw [behind?, h]; rfl
  exact Within.readsAs (.last hbehind) ((lists_iff_of_behind_none hbehind).2 rfl)

lemma Lists.eq_own (hv : Lists l s vs) (h : s.last? = none) : vs = s.own :=
  (lists_iff_of_behind_none (by rw [behind?, h]; rfl)).1 hv

lemma startingWith_congr (h : s.last? = none) (l m : Ledger)
    (later later' : Sequence → Nat → Option Sequence) (k : Nat) :
    s.startingWith l later k = s.startingWith m later' k := by
  induction s generalizing k with
  | slice values start inside more ih => simp only [startingWith, ih h]
  | prepend v rest ih => simp only [startingWith, ih h]
  | ofCall c => cases h
  | _ => rfl

lemma startingAt?_congr (h : s.last? = none) (l m : Ledger) (k : Nat) :
    s.startingAt? l k = s.startingAt? m k := by
  have hopen : ∀ l : Ledger, ∃ later, s.startingAt? l k = s.startingWith l later k := by
    intro l
    rw [startingAt?]
    cases l.size + k <;> exact ⟨_, rfl⟩
  obtain ⟨later, hl⟩ := hopen l
  obtain ⟨later', hm⟩ := hopen m
  rw [hl, hm]
  exact startingWith_congr h l m later later' k

/-! ### Growing -/

/-- **The call that a sequence waits for**: the one without results in which it ends, be it through the
results of other calls. -/
inductive WaitsFor (l : Ledger) : Sequence → CallId → Prop where
  | slice {values : Array Value} {start : Nat} {inside : start < values.size} {more : Sequence}
      {c : CallId} : WaitsFor l more c → WaitsFor l (.slice values start inside more) c
  | prepend {v : Value} {rest : Sequence} {c : CallId} :
      WaitsFor l rest c → WaitsFor l (.prepend v rest) c
  | pending {c : CallId} : l.result? c = none → WaitsFor l (.ofCall c) c
  | made {c d : CallId} {r : Sequence} :
      l.result? c = some r → WaitsFor l r d → WaitsFor l (.ofCall c) d

lemma lists_ofCall_iff (hr : l.result? c = some r) : Lists l (.ofCall c) vs ↔ Lists l r vs := by
  constructor
  · intro h
    cases h with
    | pending hnone => cases hnone.symm.trans hr
    | made hr' hv =>
      cases hr.symm.trans hr'
      exact hv
  · exact .made hr

/-- What is listed of the call comes behind what is listed already. -/
lemma Lists.of_waitsFor (hv : Lists l s vs) (hc : WaitsFor l s c) (hkeep : l.Keeps m) :
    Lists m s ws ↔ ∃ us, Lists m (.ofCall c) us ∧ ws = vs ++ us := by
  induction hv generalizing ws with
  | empty => cases hc
  | one v => cases hc
  | pair v w => cases hc
  | slice _ ih =>
    cases hc with
    | slice hc =>
      constructor
      · intro h
        cases h with
        | slice h =>
          obtain ⟨us, hus, rfl⟩ := (ih hc).1 h
          exact ⟨us, hus, (List.append_assoc _ _ _).symm⟩
      · rintro ⟨us, hus, rfl⟩
        rw [List.append_assoc]
        exact .slice ((ih hc).2 ⟨us, hus, rfl⟩)
  | prepend _ ih =>
    cases hc with
    | prepend hc =>
      constructor
      · intro h
        cases h with
        | prepend h =>
          obtain ⟨us, hus, rfl⟩ := (ih hc).1 h
          exact ⟨us, hus, rfl⟩
      · rintro ⟨us, hus, rfl⟩
        exact .prepend ((ih hc).2 ⟨us, hus, rfl⟩)
  | pending hnone =>
    cases hc with
    | pending _ => exact ⟨fun h => ⟨ws, h, rfl⟩, fun ⟨us, hus, heq⟩ => heq ▸ hus⟩
    | made hr _ => cases hnone.symm.trans hr
  | made hr _ ih =>
    cases hc with
    | pending hnone => cases hnone.symm.trans hr
    | made hr' hc =>
      cases hr.symm.trans hr'
      exact (lists_ofCall_iff (hkeep _ _ hr)).trans (ih hc)

lemma Lists.of_not_waitsFor (hv : Lists l s vs) (hc : ∀ c, ¬WaitsFor l s c) (hkeep : l.Keeps m) :
    Lists m s vs := by
  induction hv with
  | empty => exact .empty
  | one v => exact .one v
  | pair v w => exact .pair v w
  | slice _ ih => exact .slice (ih fun c h => hc c (.slice h))
  | prepend _ ih => exact .prepend (ih fun c h => hc c (.prepend h))
  | pending hnone => exact absurd (.pending hnone) (hc _)
  | made hr _ ih => exact .made (hkeep _ _ hr) (ih fun c h => hc c (.made hr h))

/-- **How a sequence grows** from one ledger to another.  If it waits for a call, what it lists is what it
has listed before, and then what is listed of that call; otherwise it lists the same.  So the former list
is a sublist of the latter. -/
structure Grows (l m : Ledger) (s : Sequence) : Prop where
  waiting : ∀ c vs ws, WaitsFor l s c → Lists l s vs →
    (Lists m s ws ↔ ∃ us, Lists m (.ofCall c) us ∧ ws = vs ++ us)
  complete : ∀ vs ws, (∀ c, ¬WaitsFor l s c) → Lists l s vs → (Lists m s ws ↔ ws = vs)
  sublist : ∀ vs ws, Lists l s vs → Lists m s ws → vs.Sublist ws

lemma grows_of_keeps (hkeep : l.Keeps m) (s : Sequence) : s.Grows l m := by
  have hcomplete : ∀ vs ws, (∀ c, ¬WaitsFor l s c) → Lists l s vs → (Lists m s ws ↔ ws = vs) := by
    intro vs ws hc hv
    have hm := hv.of_not_waitsFor hc hkeep
    exact ⟨fun hw => hw.unique hm, fun h => h ▸ hm⟩
  refine ⟨fun c vs ws hc hv => hv.of_waitsFor hc hkeep, hcomplete, fun vs ws hv hw => ?_⟩
  by_cases hc : ∃ c, WaitsFor l s c
  · obtain ⟨c, hc⟩ := hc
    obtain ⟨us, -, rfl⟩ := (hv.of_waitsFor hc hkeep).1 hw
    exact List.sublist_append_left vs us
  · obtain rfl := (hcomplete vs ws (not_exists.1 hc) hv).1 hw
    exact List.Sublist.refl _

end Sequence

/-! ### Results stay -/

namespace CallEvent

variable {l : CallId → Option Sequence} {es : List CallEvent} {c : CallId} {r : Sequence}

lemma replay_of_not_gives (h : ∀ r, gives c r ∉ es) : replay l es c = l c := by
  induction es generalizing l with
  | nil => rfl
  | cons e es ih =>
    have hes : ∀ r, gives c r ∉ es := fun r hr => h r (List.mem_cons_of_mem _ hr)
    cases e with
    | begins d => exact ih hes
    | fails d => exact ih hes
    | gives d r =>
      refine (ih hes).trans (Function.update_of_ne ?_ _ _)
      rintro rfl
      exact h r List.mem_cons_self

/-- Results that have been entered are not replaced. -/
lemma replay_append_eq {pre mid post : List CallEvent} (hes : Orderly l (pre ++ mid ++ post))
    (hends : EndsWithin c 0 (pre ++ mid ++ post)) (hnested : RunM.NeverNested c (pre ++ mid ++ post))
    (hr : replay l pre c = some r) : replay l (pre ++ mid) c = some r := by
  rw [replay_append, replay_of_not_gives, hr]
  intro r' hr'
  by_cases hgives : ∃ x, gives c x ∈ pre
  · obtain ⟨x, hx⟩ := hgives
    obtain ⟨a, b, rfl⟩ := List.append_of_mem hx
    have hsplit : a ++ gives c x :: b ++ mid ++ post = a ++ gives c x :: (b ++ mid ++ post) := by simp
    rw [hsplit] at hes hends hnested
    exact RunM.not_gives_again hes hends hnested r' (by simp [hr'])
  · rw [replay_of_not_gives (not_exists.1 hgives)] at hr
    exact RunM.not_gives_of_made hes hends (by simp [hr]) r' (by simp [hr'])

end CallEvent

namespace RunM

open CallEvent

variable {β σ α : Type} {host : Host β σ} {n : Nat} {p : Program β σ α} {s t : State β σ}

/-- Whatever is run, the results that there are at the start stay. -/
lemma Moment.keeps (h : Moment host n p s t) : s.ledger.Keeps t.ledger := by
  intro c r hr
  obtain ⟨horder, -, hends⟩ := tracks_run host n p s
  obtain ⟨pre, post, hevents, hresult⟩ := h.exists_events
  rw [hresult, replay_of_not_gives, hr]
  intro r' hr'
  refine not_gives_of_made horder (hends c) (by simp [hr]) r' ?_
  rw [hevents]
  exact List.mem_append_left post hr'

lemma keeps_of_events (hnested : ∀ c, NeverNested c (p.events host n s)) {pre mid post : List CallEvent}
    (hevents : p.events host n s = pre ++ mid ++ post) {l m : Ledger}
    (hl : l.result? = replay s.ledger.result? pre)
    (hm : m.result? = replay s.ledger.result? (pre ++ mid)) : l.Keeps m := by
  intro c r hr
  obtain ⟨horder, -, hends⟩ := tracks_run host n p s
  have hnested' := hnested c
  rw [hl] at hr
  rw [hm]
  rw [hevents] at horder hends hnested'
  exact replay_append_eq horder (hends c) hnested' hr

/-- **A snapshot stays as it is, while the sequence grows.**  In a ledger without a way back, the snapshot
of a sequence has the same list.  It contains no call, and so it is read in the same way in every ledger
whatsoever, and its parts are the same.

The sequence itself grows, as results are entered: from the start of any run to every moment of it; and
between any two times of a run, in which no call is begun during its own evaluation, be it in the course
of other evaluations.  The results at any moment of the run are those of the events up to some time. -/
theorem snapshot_fixed_while_growing (host : Host β σ) (n : Nat) (p : Program β σ α) (s : State β σ)
    (v : Sequence) :
    (∀ l : Ledger, l.Acyclic → ∃ vs t, v.Lists l vs ∧ v.snapshot? l = some t ∧ t.last? = none ∧
      ∀ m, t.ReadsAs m vs ∧ ∀ k, t.startingAt? m k = t.startingAt? l k) ∧
    (∀ t, Moment host n p s t → v.Grows s.ledger t.ledger) ∧
    ((∀ c, NeverNested c (p.events host n s)) →
      ∀ pre mid post, p.events host n s = pre ++ mid ++ post → ∀ l m : Ledger,
        l.result? = replay s.ledger.result? pre → m.result? = replay s.ledger.result? (pre ++ mid) →
        v.Grows l m) ∧
    (∀ t, Moment host n p s t → ∃ pre post, p.events host n s = pre ++ post ∧
      t.ledger.result? = replay s.ledger.result? pre) := by
  refine ⟨fun l hl => ?_, fun t ht => Sequence.grows_of_keeps ht.keeps v,
    fun hnested pre mid post hevents l m hresult hresult' =>
      Sequence.grows_of_keeps (keeps_of_events hnested hevents hresult hresult') v,
    fun t ht => ht.exists_events⟩
  have hw := Sequence.within_size hl v
  obtain ⟨vs, hv⟩ := hw.exists_lists
  obtain ⟨t, ht, hlists⟩ := hw.exists_snapshot? hv
  have hlast := Sequence.last?_of_snapshot? ht
  obtain rfl := hlists.eq_own hlast
  exact ⟨t.own, t, hv, ht, hlast,
    fun m => ⟨Sequence.readsAs_own hlast m, fun k => Sequence.startingAt?_congr hlast m l k⟩⟩

/-! ### A call through another -/

section Relay

/-- Defers a call of the function that relays, and makes it. -/
def relayProgram : Program Unit Unit Sequence := do
  .settle (← .defer (.function ⟨0, 0⟩) (.one (.int 7)))

/-- The calls after the run: the deferred one, and the one that it is relayed to. -/
def relayLedger : Ledger where
  calls := #[
    { callee := .function ⟨0, 0⟩, args := .one (.int 7), result := some (.one (.int 7)) },
    { callee := .function ⟨1, 0⟩, args := .one (.int 7), result := some (.one (.int 7)) }]

/-- A value, and behind it the results of the first call. -/
def sevenThenCall : Sequence := .prepend (.int 7) (.ofCall ⟨0⟩)

lemma events_relayProgram : relayProgram.events relayHost 3 relayState =
    [.begins ⟨0⟩, .begins ⟨1⟩, .gives ⟨1⟩ (.one (.int 7)), .gives ⟨0⟩ (.one (.int 7))] := by
  decide +kernel

lemma neverNested_relayProgram (c : CallId) :
    NeverNested c (relayProgram.events relayHost 3 relayState) := by
  have honce : (relayProgram.events relayHost 3 relayState).Nodup := by
    rw [events_relayProgram]
    decide
  intro pre post heq
  rw [heq] at honce
  have hpre : CallEvent.begins c ∉ pre := fun hmem =>
    (List.nodup_append.1 honce).2.2 _ hmem _ List.mem_cons_self rfl
  rw [List.count_eq_zero.2 hpre]
  exact Nat.zero_le _

lemma result?_relayLedger : relayLedger.result? =
    replay relayState.ledger.result? ([] ++ relayProgram.events relayHost 3 relayState) := by
  rw [events_relayProgram]
  funext c
  rcases c with ⟨_ | _ | i⟩ <;> rfl

/-- The snapshot of a sequence stays in every ledger, while the results of a call that is made come
behind what the sequence has listed before. -/
theorem snapshot_fixed_while_growing_relay :
    Sequence.threeCalls.Acyclic ∧
    (∃ t, sevenThenCall.snapshot? Sequence.threeCalls = some t ∧
      ∀ m, t.ReadsAs m [.int 7, .int 2, .int 3, .int 4, .nil]) ∧
    (∀ c, NeverNested c (relayProgram.events relayHost 3 relayState)) ∧
    sevenThenCall.Lists relayState.ledger [.int 7] ∧
    sevenThenCall.Lists relayLedger [.int 7, .int 7] := by
  obtain ⟨hsnapshot, -, hgrows, -⟩ :=
    snapshot_fixed_while_growing relayHost 3 relayProgram relayState sevenThenCall
  obtain ⟨vs, t, hv, ht, -, hreads⟩ := hsnapshot _ Sequence.acyclic_threeCalls
  have hlists : sevenThenCall.Lists Sequence.threeCalls [.int 7, .int 2, .int 3, .int 4, .nil] :=
    .prepend (.made rfl (.slice (.made rfl (.pair _ _))))
  obtain rfl := hv.unique hlists
  have hbefore : sevenThenCall.Lists relayState.ledger [.int 7] := .prepend (.pending rfl)
  have hgrown := hgrows neverNested_relayProgram [] _ [] (List.append_nil _).symm relayState.ledger
    relayLedger rfl result?_relayLedger
  have hafter := (hgrown.waiting ⟨0⟩ _ ([.int 7] ++ [.int 7]) (.prepend (.pending rfl)) hbefore).2
    ⟨[.int 7], .made rfl (.one _), rfl⟩
  exact ⟨Sequence.acyclic_threeCalls, ⟨t, ht, fun m => (hreads m).1⟩, neverNested_relayProgram,
    hbefore, hafter⟩

end Relay

end RunM

end LuaCore
