import LuaCore.Proofs.Program.Watch
import LuaCore.Proofs.Store.Content

/-!
Concatenation by content.

Two states may hold the same texts under different handles.  Runs in the two are compared by what is
seen of them: the contents of callees, arguments, results and errors.  Where handlers go by the content
of their operands, so does concatenation.
-/

namespace LuaCore

/-- A call as it is watched: by the contents of callee and arguments. -/
structure SeenCall where
  callee : Option Content
  args : Option (List (Option Content))
deriving DecidableEq

/-- A request as it is watched; one to settle a sequence is no call of a handler. -/
def Request.seen {β σ : Type} (s : State β σ) : Request → Option SeenCall
  | .invoke f a =>
    some
      { callee := s.store.contentOf? f
        args := (a.values? s.ledger).map fun vs => vs.map s.store.contentOf? }
  | .settle _ => none

/-- An error as it is watched: a value that was raised by its content. -/
inductive Failure where
  | raised (c : Option Content)
  | error (e : Error)
deriving DecidableEq

namespace Store

variable {β : Type}

def failure (S : Store β) : Error → Failure
  | .value v => .raised (S.contentOf? v)
  | e => .error e

/-- What a step gives, as it is watched. -/
def answer (S : Store β) : Except Error (List Value) → Except Failure (List (Option Content))
  | .ok vs => .ok (vs.map S.contentOf?)
  | .error e => .error (S.failure e)

/-- Two values in two stores with the same content. -/
def Alike (S T : Store β) (v w : Value) : Prop :=
  ∃ c, S.contentOf? v = some c ∧ T.contentOf? w = some c

/-- Two look-ups of a handler in two stores come to the same. -/
inductive Finds (S T : Store β) :
    EStateM.Result Stop (Store β) (Option Value) → EStateM.Result Stop (Store β) (Option Value) →
      Prop
  | nothing : Finds S T (.ok none S) (.ok none T)
  | handler {g h : Value} (hgh : Alike S T g h) : Finds S T (.ok (some g) S) (.ok (some h) T)
  | freed (kind : ObjectKind) : Finds S T (.error (.freed kind) S) (.error (.freed kind) T)

end Store

lemma Sequence.values?_pair (l : Ledger) (v w : Value) : (pair v w).values? l = some [v, w] := by
  have hcount : (pair v w).count? l = some 2 := by
    unfold count?
    cases l.size <;> rfl
  rw [values?, hcount]
  rfl

/-- Calls on operands with the same content look the same. -/
lemma Request.seen_pair {β σ : Type} {s t : State β σ} {f g v w x y : Value}
    (hfg : Store.Alike s.store t.store f g) (hvw : Store.Alike s.store t.store v w)
    (hxy : Store.Alike s.store t.store x y) :
    (Request.invoke f (.ofList [v, x])).seen s = (Request.invoke g (.ofList [w, y])).seen t := by
  have hseen : ∀ (u : State β σ) (f v x : Value), (Request.invoke f (.ofList [v, x])).seen u =
      some ⟨u.store.contentOf? f, some [u.store.contentOf? v, u.store.contentOf? x]⟩ := by
    intro u f v x
    rw [Sequence.ofList, seen, Sequence.values?_pair]
    rfl
  obtain ⟨k, hf, hg⟩ := hfg
  obtain ⟨c, hv, hw⟩ := hvw
  obtain ⟨d, hx, hy⟩ := hxy
  rw [hseen, hseen, hf, hg, hv, hw, hx, hy]

/-! ### What concatenation asks for -/

namespace Program

variable {β σ : Type} {R : State β σ → State β σ → Prop} {perform : Request → RunM β σ Sequence}
  {s t s' t' : State β σ} {S T : Store β} {v w x y u g : Value} {c d : Content}

lemma watch_concat_text (h : Store.concatAll [v, w] s.store = .ok (some u) S) :
    (concat v w).watch perform s = ([], .ok u { s with store := S }) :=
  watch_store h

lemma watch_concat_nothing (h : Store.concatAll [v, w] s.store = .ok none S)
    (hh : Store.binaryHandler? v w .concat S = .ok none T) :
    (concat v w).watch perform s =
      ([], .error (.error (.type (.concat v.kind w.kind))) { s with store := T }) :=
  (watch_store h).trans ((watch_store hh).trans rfl)

lemma watch_concat_handler (h : Store.concatAll [v, w] s.store = .ok none S)
    (hh : Store.binaryHandler? v w .concat S = .ok (some g) T) :
    (concat v w).watch perform s =
      ([(.invoke g (.ofList [v, w]), { s with store := T })],
        (call g [v, w]).runWith perform { s with store := T }) :=
  (watch_store h).trans ((watch_store hh).trans (watch_call g [v, w] _))

lemma watch_concat_freed {kind : ObjectKind} (h : Store.concatAll [v, w] s.store = .ok none S)
    (hh : Store.binaryHandler? v w .concat S = .error (.freed kind) T) :
    (concat v w).watch perform s = ([], .error (.freed kind) { s with store := T }) :=
  (watch_store h).trans (watch_store_stop hh (by simp))

/-- What is seen of a run: its calls by content, and what it comes to. -/
def see {α : Type} (o : List (Request × State β σ) × RunM.Result β σ α) :
    List (Option SeenCall) × RunM.Result β σ α :=
  (o.1.map fun q => q.1.seen q.2, o.2)

/-! ### Handlers that go by content -/

/-- Two runs, from `s` and `t`, come to the same value, error or stop, in states that are related
again; no string of `s` or `t` is freed on the way. -/
inductive Agree (R : State β σ → State β σ → Prop) (s t : State β σ) :
    RunM.Result β σ Value → RunM.Result β σ Value → Prop
  | gives {v w : Value} {s' t' : State β σ} (hvw : Store.Alike s'.store t'.store v w) (hR : R s' t')
      (hs : s.store.Keeps s'.store) (ht : t.store.Keeps t'.store) : Agree R s t (.ok v s') (.ok w t')
  | fails {e f : Error} {s' t' : State β σ} (hef : s'.store.failure e = t'.store.failure f)
      (hR : R s' t') (hs : s.store.Keeps s'.store) (ht : t.store.Keeps t'.store) :
      Agree R s t (.error (.error e) s') (.error (.error f) t')
  | stops {e : Stop} (he : ∀ e', e ≠ .error e') (s' t' : State β σ) :
      Agree R s t (.error e s') (.error e t')

/-- **Handlers go by content**: in related states, whatever strings have been made besides, operands
with the same content have the same handler, and calling it on them comes to the same. -/
structure ByContent (perform : Request → RunM β σ Sequence) (R : State β σ → State β σ → Prop) :
    Prop where
  strings : ∀ {s t}, R s t → s.store.strings.arena.WellFormed ∧ t.store.strings.arena.WellFormed
  interning_left : ∀ {s t}, R s t → ∀ b, R { s with store := s.store.interning b } t
  interning_right : ∀ {s t}, R s t → ∀ b, R s { t with store := t.store.interning b }
  found : ∀ {s t}, R s t → ∀ {v w}, Store.Alike s.store t.store v w →
    Store.Finds s.store t.store (Store.handler? v .concat s.store) (Store.handler? w .concat t.store)
  called : ∀ {s t}, R s t → ∀ {v w x y g h}, Store.Alike s.store t.store v w →
    Store.Alike s.store t.store x y →
    Store.binaryHandler? v x .concat s.store = .ok (some g) s.store →
    Store.binaryHandler? w y .concat t.store = .ok (some h) t.store →
    Agree R s t ((call g [v, x]).runWith perform s) ((call h [w, y]).runWith perform t)

lemma Agree.of_keeps {o o' : RunM.Result β σ Value} (h : Agree R s' t' o o')
    (hs : s.store.Keeps s'.store) (ht : t.store.Keeps t'.store) : Agree R s t o o' := by
  cases h with
  | gives hvw hR hs' ht' => exact .gives hvw hR (hs.trans hs') (ht.trans ht')
  | fails hef hR hs' ht' => exact .fails hef hR (hs.trans hs') (ht.trans ht')
  | stops he u u' => exact .stops he u u'

namespace ByContent

lemma interns (hR : ByContent perform R) (hst : R s t) (hS : s.store.Interns S)
    (hT : t.store.Interns T) : R { s with store := S } { t with store := T } := by
  have hleft : R { s with store := S } t := by
    induction hS with
    | refl => exact hst
    | step b _ ih => exact hR.interning_left ih b
  induction hT with
  | refl => exact hleft
  | step b _ ih => exact hR.interning_right ih b

/-- The handler of a pair: of the first operand, or else of the second. -/
lemma found_pair (hR : ByContent perform R) (hst : R s t) (hvw : Store.Alike s.store t.store v w)
    (hxy : Store.Alike s.store t.store x y) :
    Store.Finds s.store t.store (Store.binaryHandler? v x .concat s.store)
      (Store.binaryHandler? w y .concat t.store) := by
  have hfirst := hR.found hst hvw
  have hsecond := hR.found hst hxy
  unfold Store.binaryHandler?
  generalize hv : Store.handler? v .concat s.store = o at hfirst
  generalize hw : Store.handler? w .concat t.store = o' at hfirst
  cases hfirst with
  | nothing =>
    rw [Store.bind_ok hv, Store.bind_ok hw]
    exact hsecond
  | handler hgh =>
    rw [Store.bind_ok hv, Store.bind_ok hw]
    exact .handler hgh
  | freed kind =>
    rw [Store.bind_error hv, Store.bind_error hw]
    exact .freed kind

/-- **Concatenation by content**, where one of the operands is neither string nor number: the same
calls are asked for, and the outcome is the same. -/
lemma concat_agree (hR : ByContent perform R) (hst : R s t) (hv : s.store.contentOf? v = some c)
    (hw : t.store.contentOf? w = some c) (hx : s.store.contentOf? x = some d)
    (hy : t.store.contentOf? y = some d) (hcd : c.bytes? = none ∨ d.bytes? = none) :
    (see ((concat v x).watch perform s)).1 = (see ((concat w y).watch perform t)).1 ∧
      Agree R s t ((concat v x).watch perform s).2 ((concat w y).watch perform t).2 := by
  obtain ⟨hs, ht⟩ := hR.strings hst
  obtain ⟨S, hS, hsS⟩ := Store.concatAll_of_not_bytes? hs hv hx hcd
  obtain ⟨T, hT, htT⟩ := Store.concatAll_of_not_bytes? ht hw hy hcd
  have hST := hR.interns hst hsS htT
  have hkS := hsS.keeps hs
  have hkT := htT.keeps ht
  have hvw : Store.Alike S T v w := ⟨c, hkS.contentOf? hv, hkT.contentOf? hw⟩
  have hxy : Store.Alike S T x y := ⟨d, hkS.contentOf? hx, hkT.contentOf? hy⟩
  have hfound : Store.Finds S T (Store.binaryHandler? v x .concat S)
    (Store.binaryHandler? w y .concat T) := hR.found_pair hST hvw hxy
  generalize hvx : Store.binaryHandler? v x .concat S = o at hfound
  generalize hwy : Store.binaryHandler? w y .concat T = o' at hfound
  cases hfound with
  | nothing =>
    rw [watch_concat_nothing hS hvx, watch_concat_nothing hT hwy]
    have hkinds : v.kind = w.kind ∧ x.kind = y.kind := by
      rw [Store.kind_eq hv, Store.kind_eq hw, Store.kind_eq hx, Store.kind_eq hy]
      exact ⟨rfl, rfl⟩
    rw [hkinds.1, hkinds.2]
    exact ⟨rfl, .fails rfl hST hkS hkT⟩
  | handler hgh =>
    rw [watch_concat_handler hS hvx, watch_concat_handler hT hwy]
    refine ⟨?_, (hR.called hST hvw hxy hvx hwy).of_keeps hkS hkT⟩
    exact congrArg (fun q => [q]) (Request.seen_pair hgh hvw hxy)
  | freed kind =>
    rw [watch_concat_freed hS hvx, watch_concat_freed hT hwy]
    exact ⟨rfl, .stops (by simp) _ _⟩

end ByContent

end Program

end LuaCore
