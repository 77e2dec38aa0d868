import LuaCore.Proofs.Program.Concat
import LuaCore.Proofs.Store.Lookup

/-!
Joining against concatenating in pairs.

A joiner is watched side by side with a value that is concatenated with one operand after the other:
which calls are asked for, how every step ends, and what has been joined after it.  Strings are watched
by their bytes, since a joiner makes fewer of them.  As long as handlers go by the content of their
operands, nobody can tell the two apart.
-/

namespace LuaCore

namespace Joiner

open Program (Agree ByContent see)

variable {β σ : Type}

/-! ### Two ways to put values together -/

/-- The content of what has been joined. -/
def content? (S : Store β) : Joiner → Option Content
  | bytes b => some (.text b)
  | value v => S.contentOf? v

/-- What is done to a joiner. -/
inductive Action where
  /-- An operand is joined at an end. -/
  | add (e : End) (c : Content)
  /-- What has been joined is asked for. -/
  | value
deriving DecidableEq

/-- An action on a joiner, with the values that it gives. -/
def Action.joined : Action → Joiner → Program β σ (Joiner × Except Error (List Value))
  | add e c, j => do
    let v ← Program.store c.toValue
    let (k, r) ← j.join e v
    return (k, r.map fun _ => [])
  | value, j => do
    let (k, v) ← Program.store j.read
    return (k, .ok [v])

/-- The same in pairs: every operand is concatenated with the value that there is so far. -/
def Action.paired : Action → Value → Program β σ (Value × Except Error (List Value))
  | add e c, acc => do
    let v ← Program.store c.toValue
    match ← (Program.concat (e.order acc v).1 (e.order acc v).2).attempt with
    | .ok w => return (w, .ok [])
    | .error err => return (acc, .error err)
  | value, acc => return (acc, .ok [acc])

/-! ### What is watched -/

/-- One action as it is watched. -/
structure Observation where
  action : Action
  /-- The calls that were asked for. -/
  calls : List (Option SeenCall)
  /-- How it ended, and what it gave. -/
  answer : Except Failure (List (Option Content))
  /-- What has been joined then. -/
  value : Option Content

/-- Actions, one after the other, as they are watched. -/
structure History where
  steps : List Observation
  /-- The calls of the action after which there was no going on, and the reason. -/
  cut : Option (List (Option SeenCall) × Stop)

/-- Watches some actions on an accumulator of any sort. -/
def observe {α : Type} (perform : Request → RunM β σ Sequence)
    (step : Action → α → Program β σ (α × Except Error (List Value)))
    (content? : Store β → α → Option Content) : List Action → α → State β σ → History
  | [], _, _ => { steps := [], cut := none }
  | x :: xs, a, s =>
    match see ((step x a).watch perform s) with
    | (calls, .ok (b, r) t) =>
      let rest := observe perform step content? xs b t
      { rest with steps := ⟨x, calls, t.store.answer r, content? t.store b⟩ :: rest.steps }
    | (calls, .error e _) => { steps := [], cut := some (calls, e) }

/-! ### One step -/

variable {R : State β σ → State β σ → Prop} {perform : Request → RunM β σ Sequence}
  {s t : State β σ} {S T : Store β} {v w acc : Value} {c d : Content} {j : Joiner} {e : End}

lemma plainBytes?_eq (hv : S.contentOf? v = some c) : plainBytes? v S = .ok c.bytes? S := by
  cases c with
  | text b =>
    obtain ⟨h, rfl, hh⟩ := Store.contentOf?_eq_text_iff.1 hv
    exact (Store.bind_ok (Store.bytes_of_get? hh)).trans rfl
  | object w hw =>
    obtain rfl := Store.contentOf?_eq_object_iff.1 hv
    cases v with
    | string h => cases hw
    | _ => rfl

lemma bytes?_eq (hj : j.content? S = some c) : j.bytes? S = .ok c.bytes? S := by
  cases j with
  | bytes b =>
    cases hj
    rfl
  | value v => exact plainBytes?_eq hj

lemma makes_toValue (hS : S.strings.arena.WellFormed) (hj : j.content? S = some c) :
    Store.Makes j.toValue S c := by
  cases j with
  | bytes b =>
    cases hj
    exact Store.makes_newString hS b
  | value v => exact ⟨v, S, rfl, .refl, hj⟩

lemma content?_of_keeps (hST : S.Keeps T) (hj : j.content? S = some c) : j.content? T = some c := by
  cases j with
  | bytes b => exact hj
  | value v => exact hST.contentOf? hj

/-- **Joining bytes** is by the contents of what has been joined and of what comes to it. -/
lemma joinPlain?_eq (hj : j.content? S = some c) (hv : S.contentOf? v = some d) :
    joinPlain? e j v S =
      .ok (c.bytes?.bind fun x => d.bytes?.map fun y =>
        bytes ((e.order x y).1 ++ (e.order x y).2)) S := by
  have hplain : (v.isString || v.isNumber) = d.bytes?.isSome := by
    cases d with
    | text b =>
      obtain ⟨h, rfl, -⟩ := Store.contentOf?_eq_text_iff.1 hv
      rfl
    | object w hw =>
      obtain rfl := Store.contentOf?_eq_object_iff.1 hv
      cases v <;> first | rfl | cases hw
  unfold joinPlain?
  rw [hplain]
  cases hd : d.bytes? with
  | none => cases c.bytes? <;> rfl
  | some y =>
    refine (Store.bind_ok (bytes?_eq hj)).trans ?_
    cases c.bytes? with
    | none => rfl
    | some x =>
      refine (Store.bind_ok (plainBytes?_eq hv)).trans ?_
      rw [hd]
      rfl

lemma order_contents (hv : S.contentOf? v = some c) (hw : S.contentOf? w = some d) :
    S.contentOf? (e.order v w).1 = some (e.order c d).1 ∧
      S.contentOf? (e.order v w).2 = some (e.order c d).2 := by
  cases e with
  | front => exact ⟨hw, hv⟩
  | back => exact ⟨hv, hw⟩

/-- **In step**: a joiner and a value have the same content again after the same calls and with the
same answer; where that is an error, the content is what it was. -/
inductive InStep (R : State β σ → State β σ → Prop) (c : Content) :
    List (Option SeenCall) × RunM.Result β σ (Joiner × Except Error (List Value)) →
      List (Option SeenCall) × RunM.Result β σ (Value × Except Error (List Value)) → Prop
  | goes {s t : State β σ} {k : Joiner} {w : Value} {d : Content} {r r' : Except Error (List Value)}
      (calls : List (Option SeenCall)) (hR : R s t) (hk : k.content? s.store = some d)
      (hw : t.store.contentOf? w = some d) (hr : s.store.answer r = t.store.answer r')
      (hfails : (∃ e, r = .error e) → d = c) :
      InStep R c (calls, .ok (k, r) s) (calls, .ok (w, r') t)
  | stops (calls : List (Option SeenCall)) (e : Stop) (s t : State β σ) :
      InStep R c (calls, .error e s) (calls, .error e t)

/-- What becomes of a concatenation: it is what there is from now on, or else an error leaves what
there was. -/
def afterConcat {α : Type} (new : Value → α) (old : α) :
    RunM.Result β σ Value → RunM.Result β σ (α × Except Error (List Value))
  | .ok w t => .ok (new w, .ok []) t
  | .error (.error err) t => .ok (old, .error err) t
  | .error e t => .error e t

lemma watch_joined_plain {k : Joiner} (hv : d.toValue s.store = .ok v S)
    (hk : joinPlain? e j v S = .ok (some k) T) :
    (Action.joined (.add e d) j).watch perform s = ([], .ok (k, .ok []) { s with store := T }) := by
  have hjoin : (join e j v).watch perform { s with store := S } =
      ([], .ok (k, .ok ()) { s with store := T }) := (Program.watch_store hk).trans rfl
  exact (Program.watch_store hv).trans (Program.watch_bind_done hjoin rfl)

lemma watch_joined {U : Store β} (hv : d.toValue s.store = .ok v S)
    (hk : joinPlain? e j v S = .ok none T) (ha : j.toValue T = .ok acc U) :
    (Action.joined (.add e d) j).watch perform s =
      ((Program.concat (e.order acc v).1 (e.order acc v).2).watch perform { s with store := U }).map id
        (afterConcat value (value acc)) := by
  refine (Program.watch_store hv).trans ?_
  cases hcat : (Program.concat (e.order acc v).1 (e.order acc v).2).watch perform
      { s with store := U } with
  | mk calls o =>
    cases o with
    | ok u t =>
      have hjoin : (join e j v).watch perform { s with store := S } =
          (calls, .ok (value u, .ok ()) t) := by
        refine (Program.watch_store hk).trans ((Program.watch_store ha).trans ?_)
        exact Program.watch_attempt_ok hcat rfl
      exact Program.watch_bind_done hjoin rfl
    | error err t =>
      cases err with
      | error err =>
        have hjoin : (join e j v).watch perform { s with store := S } =
            (calls, .ok (value acc, .error err) t) := by
          refine (Program.watch_store hk).trans ((Program.watch_store ha).trans ?_)
          exact Program.watch_attempt_error hcat rfl
        exact Program.watch_bind_done hjoin rfl
      | _ =>
        refine Program.watch_bind_error ?_
        refine (Program.watch_store hk).trans ((Program.watch_store ha).trans ?_)
        exact Program.watch_attempt_stop hcat (by simp)

/-- Concatenation in pairs, one step. -/
lemma watch_paired (hw : d.toValue t.store = .ok w T) :
    (Action.paired (.add e d) acc).watch perform t =
      ((Program.concat (e.order acc w).1 (e.order acc w).2).watch perform { t with store := T }).map id
        (afterConcat id acc) := by
  refine (Program.watch_store hw).trans ?_
  cases hcat : (Program.concat (e.order acc w).1 (e.order acc w).2).watch perform
      { t with store := T } with
  | mk calls o =>
    cases o with
    | ok u t' => exact Program.watch_attempt_ok hcat rfl
    | error err t' =>
      cases err with
      | error err => exact Program.watch_attempt_error hcat rfl
      | _ => exact Program.watch_attempt_stop hcat (by simp)

/-- Concatenations that agree keep a joiner and a value in step. -/
lemma inStep_of_agree {p q : List (Request × State β σ) × RunM.Result β σ Value}
    (hcalls : (see p).1 = (see q).1) (h : Agree R s t p.2 q.2) (hv : s.store.contentOf? v = some c)
    (hacc : t.store.contentOf? acc = some c) :
    InStep R c (see (p.map id (afterConcat value (value v)))) (see (q.map id (afterConcat id acc))) := by
  show InStep R c ((see p).1, afterConcat value (value v) p.2) ((see q).1, afterConcat id acc q.2)
  rw [hcalls]
  generalize p.2 = o at h
  generalize q.2 = o' at h
  cases h with
  | gives hvw hR hs ht =>
    obtain ⟨d, hv', hw'⟩ := hvw
    refine .goes _ hR hv' hw' rfl ?_
    rintro ⟨e, he⟩
    cases he
  | fails hef hR hs ht =>
    exact .goes _ hR (hs.contentOf? hv) (ht.contentOf? hacc) (congrArg Except.error hef) fun _ => rfl
  | @stops e he s' t' =>
    cases e with
    | error e => exact absurd rfl (he e)
    | _ => exact .stops _ _ s' t'

/-- Strings and numbers: no call is asked for, and a string is due in the end. -/
lemma inStep_texts {x y : Bytes} (hR : ByContent perform R) (hst : R s t)
    (hj : j.content? s.store = some c) (hacc : t.store.contentOf? acc = some c)
    (hx : c.bytes? = some x) (hy : d.bytes? = some y) :
    InStep R c (see ((Action.joined (.add e d) j).watch perform s))
      (see ((Action.paired (.add e d) acc).watch perform t)) := by
  obtain ⟨hs, ht⟩ := hR.strings hst
  obtain ⟨v, S, hv, hsS, hvd⟩ := Store.makes_toValue hs d
  obtain ⟨w, T, hw, htT, hwd⟩ := Store.makes_toValue ht d
  have hplain := joinPlain?_eq (e := e) (content?_of_keeps (hsS.keeps hs) hj) hvd
  rw [hx, hy] at hplain
  obtain ⟨hw₁, hw₂⟩ := order_contents (e := e) ((htT.keeps ht).contentOf? hacc) hwd
  have horder : (e.order c d).1.bytes? = some (e.order x y).1 ∧
      (e.order c d).2.bytes? = some (e.order x y).2 := by
    cases e with
    | front => exact ⟨hy, hx⟩
    | back => exact ⟨hx, hy⟩
  obtain ⟨u, U, hu, hTU, huc⟩ :=
    Store.concatAll_of_bytes? (htT.wellFormed ht) hw₁ hw₂ horder.1 horder.2
  have hrel := hR.interns hst hsS (htT.trans hTU)
  rw [watch_joined_plain hv hplain, watch_paired hw, Program.watch_concat_text hu]
  refine .goes [] hrel rfl huc rfl ?_
  rintro ⟨e, he⟩
  cases he

/-- Any other value: what has been joined becomes a value, and the two are concatenated. -/
lemma inStep_handled (hR : ByContent perform R) (hst : R s t) (hj : j.content? s.store = some c)
    (hacc : t.store.contentOf? acc = some c) (hcd : c.bytes? = none ∨ d.bytes? = none) :
    InStep R c (see ((Action.joined (.add e d) j).watch perform s))
      (see ((Action.paired (.add e d) acc).watch perform t)) := by
  obtain ⟨hs, ht⟩ := hR.strings hst
  obtain ⟨v, S, hv, hsS, hvd⟩ := Store.makes_toValue hs d
  obtain ⟨w, T, hw, htT, hwd⟩ := Store.makes_toValue ht d
  have hS := hsS.wellFormed hs
  have hjS := content?_of_keeps (hsS.keeps hs) hj
  have haccT := (htT.keeps ht).contentOf? hacc
  have hplain := joinPlain?_eq (e := e) hjS hvd
  have hnone : (c.bytes?.bind fun x => d.bytes?.map fun y =>
      bytes ((e.order x y).1 ++ (e.order x y).2)) = none := by
    rcases hcd with h | h <;> simp [h]
  rw [hnone] at hplain
  obtain ⟨a, U, ha, hSU, hac⟩ := makes_toValue hS hjS
  obtain ⟨hv₁, hv₂⟩ := order_contents (e := e) hac ((hSU.keeps hS).contentOf? hvd)
  obtain ⟨hw₁, hw₂⟩ := order_contents (e := e) haccT hwd
  have horder : (e.order c d).1.bytes? = none ∨ (e.order c d).2.bytes? = none := by
    cases e with
    | front => exact hcd.symm
    | back => exact hcd
  have hrel := hR.interns hst (hsS.trans hSU) htT
  obtain ⟨hcalls, hagree⟩ := hR.concat_agree hrel hv₁ hw₁ hv₂ hw₂ horder
  rw [watch_joined hv hplain ha, watch_paired hw]
  exact inStep_of_agree hcalls hagree hac haccT

lemma inStep_value (hR : ByContent perform R) (hst : R s t) (hj : j.content? s.store = some c)
    (hacc : t.store.contentOf? acc = some c) :
    InStep R c (see ((Action.joined .value j).watch perform s))
      (see ((Action.paired .value acc).watch perform t)) := by
  obtain ⟨v, S, hv, hsS, hvc⟩ := makes_toValue (hR.strings hst).1 hj
  have hread : j.read s.store = .ok (value v, v) S := (Store.bind_ok hv).trans rfl
  have hleft : (Action.joined .value j).watch perform s =
      ([], .ok (value v, .ok [v]) { s with store := S }) := (Program.watch_store hread).trans rfl
  rw [hleft]
  refine .goes [] (hR.interns hst hsS .refl) hvc hacc ?_ fun _ => rfl
  show Except.ok [S.contentOf? v] = Except.ok [t.store.contentOf? acc]
  rw [hvc, hacc]

/-- **One step**: whatever is done, a joiner and a value stay in step. -/
lemma inStep (hR : ByContent perform R) (hst : R s t) (hj : j.content? s.store = some c)
    (hacc : t.store.contentOf? acc = some c) (x : Action) :
    InStep R c (see ((x.joined j).watch perform s)) (see ((x.paired acc).watch perform t)) := by
  cases x with
  | add e d =>
    by_cases hcd : c.bytes? = none ∨ d.bytes? = none
    · exact inStep_handled hR hst hj hacc hcd
    · obtain ⟨x, hx⟩ := Option.ne_none_iff_exists'.1 fun h => hcd (.inl h)
      obtain ⟨y, hy⟩ := Option.ne_none_iff_exists'.1 fun h => hcd (.inr h)
      exact inStep_texts hR hst hj hacc hx hy
  | value => exact inStep_value hR hst hj hacc

/-! ### All steps -/

section Observe

variable {α : Type} {step : Action → α → Program β σ (α × Except Error (List Value))}
  {content : Store β → α → Option Content} {x : Action} {xs : List Action} {a b : α}
  {calls : List (Option SeenCall)} {r : Except Error (List Value)} {e : Stop}

lemma observe_cons_ok (h : see ((step x a).watch perform s) = (calls, .ok (b, r) t)) :
    observe perform step content (x :: xs) a s =
      { observe perform step content xs b t with
        steps := ⟨x, calls, t.store.answer r, content t.store b⟩ ::
          (observe perform step content xs b t).steps } := by
  rw [observe, h]

lemma observe_cons_error (h : see ((step x a).watch perform s) = (calls, .error e t)) :
    observe perform step content (x :: xs) a s = { steps := [], cut := some (calls, e) } := by
  rw [observe, h]

end Observe

/-- **A steady history**: an error leaves the content that there was; asking for it takes no call, and
gives and leaves it; and there always is one. -/
def Steady : Content → List Observation → Prop
  | _, [] => True
  | c, o :: os =>
    ((∃ f, o.answer = .error f) → o.value = some c) ∧
      (o.action = .value → o.calls = [] ∧ o.answer = .ok [some c] ∧ o.value = some c) ∧
        ∃ d, o.value = some d ∧ Steady d os

/-- A history without the actions that ask for what has been joined. -/
def History.withoutReads (h : History) : History :=
  { h with steps := h.steps.filter fun o => o.action ≠ .value }

/-- Side by side, a joiner and a value have one history. -/
lemma observe_joined_eq (hR : ByContent perform R) (xs : List Action) (hst : R s t)
    (hj : j.content? s.store = some c) (hacc : t.store.contentOf? acc = some c) :
    observe perform Action.joined content? xs j s =
      observe perform Action.paired Store.contentOf? xs acc t := by
  induction xs generalizing s t j acc c with
  | nil => rfl
  | cons x xs ih =>
    have hstep := inStep hR hst hj hacc x
    generalize hleft : see ((x.joined j).watch perform s) = o at hstep
    generalize hright : see ((x.paired acc).watch perform t) = o' at hstep
    cases hstep with
    | goes calls hst' hk hw hr _ =>
      rw [observe_cons_ok hleft, observe_cons_ok hright, ih hst' hk hw, hr, hk, hw]
    | stops calls e s' t' => rw [observe_cons_error hleft, observe_cons_error hright]

lemma exists_of_answer_error {r : Except Error (List Value)} {f : Failure}
    (hr : S.answer r = .error f) : ∃ e, r = .error e := by
  cases r with
  | ok vs => cases hr
  | error e => exact ⟨e, rfl⟩

lemma steady_observe (hR : ByContent perform R) (xs : List Action) (hst : R s t)
    (hj : j.content? s.store = some c) (hacc : t.store.contentOf? acc = some c) :
    Steady c (observe perform Action.joined content? xs j s).steps := by
  induction xs generalizing s t j acc c with
  | nil => trivial
  | cons x xs ih =>
    have hstep := inStep hR hst hj hacc x
    generalize hleft : see ((x.joined j).watch perform s) = o at hstep
    generalize hright : see ((x.paired acc).watch perform t) = o' at hstep
    cases hstep with
    | stops calls e s' t' => rw [observe_cons_error hleft]; trivial
    | @goes s' t' k w d r r' calls hst' hk hw hr hfails =>
      rw [observe_cons_ok hleft]
      refine ⟨?_, ?_, d, hk, ih hst' hk hw⟩
      · rintro ⟨f, hf⟩
        rw [← hfails (exists_of_answer_error hf)]
        exact hk
      · rintro rfl
        -- in pairs, asking is no more than a look
        cases hright
        obtain rfl := Option.some.inj (hacc.symm.trans hw)
        refine ⟨rfl, hr.trans ?_, hk⟩
        rw [Store.answer, List.map_singleton, hacc]

lemma observe_paired_withoutReads (xs : List Action) (acc : Value) (t : State β σ) :
    observe perform Action.paired Store.contentOf? (xs.filter (· ≠ .value)) acc t =
      (observe perform Action.paired Store.contentOf? xs acc t).withoutReads := by
  induction xs generalizing acc t with
  | nil => rfl
  | cons x xs ih =>
    cases hright : see ((x.paired acc).watch perform t) with
    | mk calls o =>
      cases x with
      | value =>
        cases hright
        rw [List.filter_cons_of_neg (by simp), ih, observe_cons_ok rfl, History.withoutReads,
          History.withoutReads, List.filter_cons_of_neg (by simp)]
      | add e d =>
        rw [List.filter_cons_of_pos (by simp)]
        cases o with
        | ok p t' =>
          rw [observe_cons_ok hright, observe_cons_ok hright, ih, History.withoutReads,
            History.withoutReads, List.filter_cons_of_pos (by simp)]
        | error err t' =>
          rw [observe_cons_error hright, observe_cons_error hright]
          rfl

/-- **Joining is concatenating in pairs.**  A joiner and a value that begin with the same content, in
related states, have the same history under any actions: the same calls in the same order on the same
operands, the same errors, and the same content after every action.  An error leaves what has been
joined, and asking for it changes nothing. -/
theorem joins_in_pairs (host : Host β σ) (fuel : Nat) (hR : ByContent (RunM.perform host fuel) R)
    (hst : R s t) (hj : j.content? s.store = some c) (hacc : t.store.contentOf? acc = some c)
    (xs : List Action) :
    observe (RunM.perform host fuel) Action.joined content? xs j s =
        observe (RunM.perform host fuel) Action.paired Store.contentOf? xs acc t ∧
      Steady c (observe (RunM.perform host fuel) Action.joined content? xs j s).steps ∧
        observe (RunM.perform host fuel) Action.joined content? (xs.filter (· ≠ .value)) j s =
          (observe (RunM.perform host fuel) Action.joined content? xs j s).withoutReads := by
  have hsame := observe_joined_eq hR xs hst hj hacc
  refine ⟨hsame, steady_observe hR xs hst hj hacc, ?_⟩
  rw [hsame, observe_joined_eq hR _ hst hj hacc]
  exact observe_paired_withoutReads xs acc t

/-! ### A handler that keeps its second operand -/

/-- The body of a handler: behind a string it gives its second operand; anything else in front of it is
raised. -/
def echoHost : Host Unit Unit := fun _ _ args => do
  let v ← Program.valueAt args 1
  let w ← Program.valueAt args 2
  if v.isString then return .one w else Program.fail (.value v)

/-- A fresh store. -/
def freshStore : Store Unit := .init {}

/-- A metatable with the handler. -/
def echoMeta : Table := freshStore.eventTable .concat (.function ⟨0, 0⟩) none

/-- The table that the handler is for, and its metatable. -/
def echoTables : List Table := [{ metatable := some ⟨2, 0⟩ }, echoMeta]

/-- A fresh store to which these tables and the handler have come, with any strings. -/
def echoState (strings : Interner) : State Unit Unit where
  store :=
    { freshStore with
      heap.tables := echoTables.foldl (fun a t => (a.alloc t).1) freshStore.heap.tables
      heap.functions :=
        (freshStore.heap.functions.alloc { name := "echo", captures := [], body := () }).1
      strings := strings }
  host := ()

/-- Strings beside the names of the events. -/
def Extends (I : Interner) : Prop :=
  I.arena.WellFormed ∧ ∀ h b, freshStore.strings.get? h = some b → I.get? h = some b

lemma extends_freshStore : Extends freshStore.strings :=
  ⟨(Store.sound_init {}).wellFormed.strings, fun _ _ hb => hb⟩

lemma Extends.intern {I : Interner} (hI : Extends I) (b : Bytes) : Extends (I.intern b).1 :=
  ⟨Interner.wellFormed_intern hI.1 b, fun h c hc => Interner.get?_intern_of_get? hI.1 (hI.2 h c hc)⟩

/-- States that differ in their strings at most, and have the names. -/
def EchoAlike (s t : State Unit Unit) : Prop :=
  ∃ I J : Interner, Extends I ∧ Extends J ∧ s = echoState I ∧ t = echoState J

lemma field_echo (I : Interner) :
    Store.field ⟨2, 0⟩ .concat (echoState I).store = .ok (.function ⟨0, 0⟩) (echoState I).store := by
  have htable : (echoState I).store.heap.tables.get? ⟨2, 0⟩ = some echoMeta := rfl
  have hheld : echoMeta.getName (freshStore.nameOf .concat) = .function ⟨0, 0⟩ :=
    (Store.getKey_eventTable _ _ _ _ _).trans (if_pos rfl)
  refine (Store.bind_ok (Store.table_of_get? htable)).trans ?_
  rw [← hheld]
  rfl

lemma handler?_echo (v : Value) :
    (∀ I, Store.handler? v .concat (echoState I).store = .ok none (echoState I).store) ∨
      (∀ I, Store.handler? v .concat (echoState I).store =
        .ok (some (.function ⟨0, 0⟩)) (echoState I).store) ∨
      ∃ kind, ∀ I, Store.handler? v .concat (echoState I).store =
        .error (.freed kind) (echoState I).store := by
  cases v with
  | table h =>
    have hread : ∀ I, Store.table h (echoState I).store =
        Store.require .table ((echoState default).store.heap.tables.get? h) (echoState I).store :=
      fun I => rfl
    cases ht : (echoState default).store.heap.tables.get? h with
    | none =>
      refine .inr (.inr ⟨.table, fun I => ?_⟩)
      have hfreed : Store.table h (echoState I).store = .error (.freed .table) _ :=
        (hread I).trans (by rw [ht]; rfl)
      exact Store.bind_error (Store.bind_error hfreed)
    | some t =>
      have hfound : ∀ I, Store.metatableOf (.table h) (echoState I).store =
          .ok t.metatable (echoState I).store := fun I =>
        (Store.bind_ok ((hread I).trans (by rw [ht]; rfl))).trans rfl
      have hmem := List.mem_map_of_mem (f := Prod.snd) (Arena.mem_entries_iff.2 ht)
      have htables : (echoState default).store.heap.tables.entries.map Prod.snd =
          .empty :: echoTables := rfl
      rw [htables] at hmem
      simp only [echoTables, List.mem_cons, List.not_mem_nil, or_false] at hmem
      rcases hmem with rfl | rfl | rfl
      · exact .inl fun I => (Store.bind_ok (hfound I)).trans rfl
      · exact .inr (.inl fun I =>
          (Store.bind_ok (hfound I)).trans ((Store.bind_ok (field_echo I)).trans rfl))
      · exact .inl fun I => (Store.bind_ok (hfound I)).trans rfl
  | userdata h => exact .inr (.inr ⟨.userdata, fun I => rfl⟩)
  | _ => exact .inl fun I => rfl

/-- What a call of the handler comes to. -/
lemma call_echo (I : Interner) (v w : Value) :
    (Program.call (.function ⟨0, 0⟩) [v, w]).runWith (RunM.perform echoHost 1) (echoState I) =
      if v.isString then .ok w (echoState I) else .error (.error (.value v)) (echoState I) := by
  cases v <;> rfl

lemma eq_of_handler?_echo {I : Interner} {v g : Value} {S : Store Unit}
    (h : Store.handler? v .concat (echoState I).store = .ok (some g) S) : g = .function ⟨0, 0⟩ := by
  rcases handler?_echo v with hv | hv | ⟨kind, hv⟩ <;> rw [hv I] at h <;> cases h
  rfl

lemma eq_of_binaryHandler?_echo {I : Interner} {v x g : Value} {S : Store Unit}
    (h : Store.binaryHandler? v x .concat (echoState I).store = .ok (some g) S) :
    g = .function ⟨0, 0⟩ := by
  unfold Store.binaryHandler? at h
  rcases handler?_echo v with hv | hv | ⟨kind, hv⟩
  · rw [Store.bind_ok (hv I)] at h
    exact eq_of_handler?_echo h
  · rw [Store.bind_ok (hv I)] at h
    cases h
    rfl
  · rw [Store.bind_error (hv I)] at h
    cases h

lemma byContent_echo : ByContent (RunM.perform echoHost 1) EchoAlike where
  strings := by
    rintro s t ⟨I, J, hI, hJ, rfl, rfl⟩
    exact ⟨hI.1, hJ.1⟩
  interning_left := by
    rintro s t ⟨I, J, hI, hJ, rfl, rfl⟩ b
    exact ⟨(I.intern b).1, J, hI.intern b, hJ, rfl, rfl⟩
  interning_right := by
    rintro s t ⟨I, J, hI, hJ, rfl, rfl⟩ b
    exact ⟨I, (J.intern b).1, hI, hJ.intern b, rfl, rfl⟩
  found := by
    rintro s t ⟨I, J, hI, hJ, rfl, rfl⟩ v w ⟨c, hv, hw⟩
    cases c with
    | text b =>
      obtain ⟨h, rfl, -⟩ := Store.contentOf?_eq_text_iff.1 hv
      obtain ⟨h', rfl, -⟩ := Store.contentOf?_eq_text_iff.1 hw
      exact .nothing
    | object u hu =>
      obtain rfl := Store.contentOf?_eq_object_iff.1 hv
      obtain rfl := Store.contentOf?_eq_object_iff.1 hw
      rcases handler?_echo w with h | h | ⟨kind, h⟩ <;> rw [h I, h J]
      · exact .nothing
      · exact .handler ⟨.object (.function ⟨0, 0⟩) rfl, rfl, rfl⟩
      · exact .freed kind
  called := by
    rintro s t ⟨I, J, hI, hJ, rfl, rfl⟩ v w x y g h ⟨c, hv, hw⟩ hxy hg hh
    obtain rfl := eq_of_binaryHandler?_echo hg
    obtain rfl := eq_of_binaryHandler?_echo hh
    have hstring : v.isString = w.isString := by
      cases c with
      | text b =>
        obtain ⟨h, rfl, -⟩ := Store.contentOf?_eq_text_iff.1 hv
        obtain ⟨h', rfl, -⟩ := Store.contentOf?_eq_text_iff.1 hw
        rfl
      | object u hu => rw [Store.contentOf?_eq_object_iff.1 hv, Store.contentOf?_eq_object_iff.1 hw]
    have hrel : EchoAlike (echoState I) (echoState J) := ⟨I, J, hI, hJ, rfl, rfl⟩
    rw [call_echo, call_echo, hstring]
    split
    · exact .gives hxy hrel (.refl _) (.refl _)
    · refine .fails ?_ hrel (.refl _) (.refl _)
      rw [Store.failure, Store.failure, hv, hw]

/-- Texts before and behind a table with the handler, where the last one is refused. -/
def echoActions : List Action :=
  [.add .back (.text [97]), .value, .add .back (.object (.table ⟨1, 0⟩) rfl),
    .add .front (.text [98]), .add .back (.object (.int 7) rfl), .value]

theorem joins_in_pairs_echo :
    ByContent (RunM.perform echoHost 1) EchoAlike ∧
      EchoAlike (echoState freshStore.strings) (echoState (freshStore.strings.intern []).1) ∧
      observe (RunM.perform echoHost 1) Action.joined content? echoActions empty
          (echoState freshStore.strings) =
        observe (RunM.perform echoHost 1) Action.paired Store.contentOf? echoActions
          (.string (freshStore.strings.intern []).2) (echoState (freshStore.strings.intern []).1) := by
  have hrel : EchoAlike (echoState freshStore.strings) (echoState (freshStore.strings.intern []).1) :=
    ⟨_, _, extends_freshStore, extends_freshStore.intern [], rfl, rfl⟩
  have hempty : (freshStore.strings.intern []).1.get? (freshStore.strings.intern []).2 = some [] := by
    rw [Interner.get?_intern extends_freshStore.1, if_pos rfl]
  have hacc : (echoState (freshStore.strings.intern []).1).store.contentOf?
      (.string (freshStore.strings.intern []).2) = some (.text []) :=
    Store.contentOf?_eq_text_iff.2 ⟨_, rfl, hempty⟩
  exact ⟨byContent_echo, hrel, (joins_in_pairs echoHost 1 byContent_echo hrel rfl hacc echoActions).1⟩

end Joiner

end LuaCore
