import LuaCore.Proofs.Program.Closed
import LuaCore.Proofs.Program.Moments
import LuaCore.Proofs.Store.Moves

/-!
Programs by what they make of the store.

A program moves stores by a relation if all its work on the store does.  A run of such a program leads
from the store at its start to that of any moment by the same relation, provided that the bodies of
functions are such programs, too.  The operations of the library are, for what becomes of a store by
changes to its heap, by the making of strings and by collections.
-/

namespace LuaCore

namespace Program

variable {β σ α γ : Type} {R : Store β → Store β → Prop} {p : Program β σ α}

/-- **All work of the program on the store moves it by a relation.** -/
def Moves (R : Store β → Store β → Prop) : Program β σ α → Prop
  | done _ => True
  | stop _ => True
  | onStore x next => Store.Moves R x ∧ ∀ r, (next r).Moves R
  | onHost _ next => ∀ r, (next r).Moves R
  | look next => ∀ l, (next l).Moves R
  | delay _ _ next => ∀ q, (next q).Moves R
  | request _ next => ∀ r, (next r).Moves R

/-! ### Rules -/

lemma Moves.mono {R' : Store β → Store β → Prop} (h : p.Moves R) (hR : ∀ s t, R s t → R' s t) :
    p.Moves R' := by
  induction p with
  | done a => trivial
  | stop e => trivial
  | onStore x next ih => exact ⟨h.1.mono hR, fun r => ih r (h.2 r)⟩
  | onHost f next ih => exact fun r => ih r (h r)
  | look next ih => exact fun l => ih l (h l)
  | delay callee args next ih => exact fun q => ih q (h q)
  | request q next ih => exact fun r => ih r (h r)

@[simp] lemma moves_pure {a : α} : (pure a : Program β σ α).Moves R := trivial

@[simp] lemma moves_fail {e : Error} : (fail e : Program β σ α).Moves R := trivial

@[simp] lemma moves_ofExcept {r : Except Error α} : (ofExcept r : Program β σ α).Moves R := by
  cases r <;> trivial

@[simp] lemma moves_bind {f : α → Program β σ γ} (hp : p.Moves R) (hf : ∀ a, (f a).Moves R) :
    (p >>= f).Moves R := by
  induction p with
  | done a => exact hf a
  | stop e => trivial
  | onStore x next ih => exact ⟨hp.1, fun r => ih r (hp.2 r)⟩
  | onHost g next ih => exact fun r => ih r (hp r)
  | look next ih => exact fun l => ih l (hp l)
  | delay callee args next ih => exact fun q => ih q (hp q)
  | request q next ih => exact fun r => ih r (hp r)

lemma moves_attempt (hp : p.Moves R) : p.attempt.Moves R := by
  induction p with
  | done a => trivial
  | stop e => cases e <;> trivial
  | onStore x next ih => exact ⟨hp.1, fun r => ih r (hp.2 r)⟩
  | onHost g next ih => exact fun r => ih r (hp r)
  | look next ih => exact fun l => ih l (hp l)
  | delay callee args next ih => exact fun q => ih q (hp q)
  | request q next ih => exact fun r => ih r (hp r)

@[simp] lemma moves_store {x : StoreM β α} (hx : Store.Moves R x) : (store x : Program β σ α).Moves R :=
  ⟨hx, fun _ => moves_ofExcept⟩

@[simp] lemma moves_valueAt {q : Sequence} {i : Nat} : (valueAt q i : Program β σ Value).Moves R := by
  intro l
  dsimp only
  split <;> trivial

@[simp] lemma moves_invoke {f : Value} {a : Sequence} :
    (invoke f a : Program β σ Sequence).Moves R := fun _ => moves_ofExcept

@[simp] lemma moves_settle {q : Sequence} : (settle q : Program β σ Sequence).Moves R :=
  fun _ => moves_ofExcept

@[simp] lemma moves_call {f : Value} {vs : List Value} : (call f vs : Program β σ Value).Moves R :=
  moves_bind moves_invoke fun _ => moves_valueAt

end Program

/-! ### Runs -/

namespace RunM

open Program

variable {β σ α : Type} {R : Store β → Store β → Prop} {host : Host β σ} {p p' : Program β σ α}
  {s t u : State β σ} {n m : Nat} {f : Value} {a q : Sequence} {req : Request}
  {body : Program β σ Sequence}

lemma rel_ofStore {x : StoreM β α} (hx : Store.Moves R x) (h : Ends (ofStore x) s t) :
    R s.store t.store := by
  rcases h with ⟨a, ha⟩ | ⟨e, he⟩
  · rw [ofStore] at ha
    split at ha
    · next hr =>
      cases ha
      exact hx _ _ (Or.inl ⟨_, hr⟩)
    · cases ha
  · rw [ofStore] at he
    split at he
    · cases he
    · next hr =>
      cases he
      exact hx _ _ (Or.inr ⟨_, hr⟩)

variable [IsPreorder (Store β) R]

section Steps

variable {perform : Request → RunM β σ Sequence}

lemma rel_runWith (hp : ∀ q s t, Ends (perform q) s t → R s.store t.store) (hm : p.Moves R)
    (h : Ends (p.runWith perform) s t) : R s.store t.store := by
  induction p generalizing s with
  | done a =>
    rcases h with ⟨b, hb⟩ | ⟨e, he⟩
    · cases hb
      exact refl _
    · cases he
  | stop e =>
    rcases h with ⟨b, hb⟩ | ⟨e, he⟩
    · cases hb
    · cases he
      exact refl _
  | onStore x next ih =>
    rcases Ends.of_bind h with ⟨r, u, hr, hnext⟩ | ⟨e, he⟩
    · exact IsTrans.trans _ _ _ (rel_ofStore hm.1 (exists_of_attempt hr)) (ih r (hm.2 r) hnext)
    · exact absurd he attempt_ne_error
  | onHost f next ih =>
    have hnext : Ends ((next (f s.host).1).runWith perform) { s with host := (f s.host).2 } t := h
    have hrel := ih _ (hm _) hnext
    exact hrel
  | look next ih => exact ih s.ledger (hm _) h
  | delay callee args next ih =>
    have hnext : Ends ((next (.ofCall (s.ledger.add callee args).2)).runWith perform)
        { s with ledger := (s.ledger.add callee args).1 } t := h
    have hrel := ih _ (hm _) hnext
    exact hrel
  | request q next ih =>
    rcases Ends.of_bind h with ⟨r, u, hr, hnext⟩ | ⟨e, he⟩
    · exact IsTrans.trans _ _ _ (hp q s u (exists_of_attempt hr)) (ih r (hm r) hnext)
    · exact absurd he attempt_ne_error

lemma rel_enter (hhost : ∀ body captures args, (host body captures args).Moves R)
    (hp : ∀ q s t, Ends (perform q) s t → R s.store t.store)
    (h : Ends (enter host perform f a) s t) : R s.store t.store := by
  rw [Ends, enter_eq] at h
  cases hr : Store.resolve s.store.config.maxTagLoop f a s.store with
  | error e u =>
    have hu : R s.store u := Store.moves_resolve _ _ (Or.inr ⟨e, hr⟩)
    rw [hr] at h
    rcases h with ⟨b, hb⟩ | ⟨e, he⟩
    · cases hb
    · cases he
      exact hu
  | ok k u =>
    have hu : R s.store u := Store.moves_resolve _ _ (Or.inl ⟨k, hr⟩)
    rw [hr] at h
    dsimp only at h
    split at h
    · rcases h with ⟨b, hb⟩ | ⟨e, he⟩
      · cases hb
      · cases he
        exact hu
    · obtain ⟨v, hv, rfl⟩ := ends_of_leave h
      exact IsTrans.trans _ _ _ hu (rel_runWith hp (hhost _ _ _) hv)

lemma rel_settle {enter : Value → Sequence → RunM β σ Sequence} {passed : List CallId}
    (he : ∀ f a s t, Ends (enter f a) s t → R s.store t.store)
    (h : Ends (settle enter n passed q) s t) : R s.store t.store := by
  induction n using Nat.strongRecOn generalizing passed q s with
  | ind n ih =>
    rcases ends_settle h with ⟨r, hq, rfl⟩ | ⟨m, c, callee, args, rfl, hq, h⟩
    · exact refl _
    · rcases Ends.of_bind h with ⟨r, u, hr, hnext⟩ | ⟨e, he'⟩
      · have hu : R s.store u.store := he callee args s u (Or.inl ⟨r, hr⟩)
        exact IsTrans.trans _ _ _ hu (ih m (Nat.lt_succ_self m) hnext)
      · exact he callee args s t (Or.inr ⟨e, he'⟩)

end Steps

section Host

variable (hhost : ∀ body captures args, (host body captures args).Moves R)

include hhost

lemma rel_perform (h : Ends (perform host n req) s t) : R s.store t.store := by
  induction n generalizing req s t with
  | zero =>
    rcases h with ⟨a, ha⟩ | ⟨e, he⟩
    · cases ha
    · cases he
  | succ n ih =>
    have henter : ∀ f a s t, Ends (enter host (perform host n) f a) s t → R s.store t.store :=
      fun _ _ _ _ h => rel_enter hhost (fun _ _ _ => ih) h
    cases req with
    | invoke f a =>
      rcases Ends.of_bind h with ⟨r, u, hr, hsettle⟩ | ⟨e, he⟩
      · exact IsTrans.trans _ _ _ (henter f a s u (Or.inl ⟨r, hr⟩)) (rel_settle henter hsettle)
      · exact henter f a s t (Or.inr ⟨e, he⟩)
    | settle q => exact rel_settle henter h

lemma rel_enter_perform (h : Ends (enter host (perform host n) f a) s t) : R s.store t.store :=
  rel_enter hhost (fun _ _ _ h => rel_perform hhost h) h

lemma Goes.rel (hm : p.Moves R) (h : Goes host n p s p' t) : R s.store t.store ∧ p'.Moves R := by
  cases h with
  | onStore hr => exact ⟨rel_ofStore hm.1 (exists_of_attempt hr), hm.2 _⟩
  | onHost => exact ⟨refl _, hm _⟩
  | look => exact ⟨refl _, hm _⟩
  | delay => exact ⟨refl _, hm _⟩
  | request hr => exact ⟨rel_perform hhost (exists_of_attempt hr), hm _⟩

lemma Passes.rel (hm : p.Moves R) (h : Passes host n p s p' t) : R s.store t.store := by
  induction h with
  | refl => exact Std.Refl.refl _
  | step hgoes _ ih =>
    obtain ⟨hst, hm'⟩ := hgoes.rel hhost hm
    exact IsTrans.trans _ _ _ hst (ih hm')

lemma Settling.rel {k : Nat} (h : Settling (enter host (perform host n)) k q s f a t) :
    R s.store t.store := by
  induction h with
  | first hq => exact refl _
  | later hq hf _ ih => exact IsTrans.trans _ _ _ (rel_enter_perform hhost (Or.inl ⟨_, hf⟩)) ih

lemma Calls.rel (h : Calls host n req s m f a t) : R s.store t.store := by
  cases h with
  | invoked => exact refl _
  | deferred hf hg =>
    exact IsTrans.trans _ _ _ (rel_enter_perform hhost (Or.inl ⟨_, hf⟩)) (hg.rel hhost)
  | settled hg => exact hg.rel hhost

omit [IsPreorder (Store β) R] in
lemma Bodies.moves (h : Bodies host n p s m body u) : body.Moves R := by
  cases h with
  | called _ _ hs =>
    obtain ⟨-, -, -, -, -, rfl, -⟩ := hs
    exact hhost _ _ _
  | nested _ _ _ hs =>
    obtain ⟨-, -, -, -, -, rfl, -⟩ := hs
    exact hhost _ _ _

/-- **A run moves the store by the relation, up to any moment.** -/
theorem Moment.store_rel (hm : p.Moves R) (h : Moment host n p s t) : R s.store t.store := by
  refine h.rel (R := fun s t => R s.store t.store) (fun _ _ _ => IsTrans.trans _ _ _)
    (fun _ _ hp => hp.rel hhost hm) (fun _ _ _ _ _ hb hp => hp.rel hhost (hb.moves hhost)) ?_
  rintro _ _ v _ _ _ w _ _ hc ⟨k, x, S, hr, -, -, rfl⟩
  exact IsTrans.trans _ w.store _ (hc.rel hhost) (Store.moves_resolve _ _ (Or.inl ⟨_, hr⟩))

end Host

end RunM

/-! ### The programs of the library -/

namespace Program

variable {β σ α : Type} {a b v w k : Value}

/-- Work that may find something, and what follows in either case. -/
lemma moves_find {R : Store β → Store β → Prop} {γ : Type} {x : StoreM β (Option γ)}
    {f : Option γ → Program β σ α} (hx : Store.Moves R x) (hnone : (f none).Moves R)
    (hsome : ∀ c, (f (some c)).Moves R) : (store x >>= f).Moves R := by
  refine moves_bind (moves_store hx) fun r => ?_
  cases r with
  | none => exact hnone
  | some c => exact hsome c

lemma moves_ite {R : Store β → Store β → Prop} {c : Prop} [Decidable c] {p q : Program β σ α}
    (hp : p.Moves R) (hq : q.Moves R) : (if c then p else q).Moves R := by
  split
  · exact hp
  · exact hq

lemma moves_indexError : (store (Store.indexError v k) >>= fail : Program β σ α).Moves Store.Becomes :=
  moves_bind (moves_store Store.moves_indexError) fun _ => moves_fail

lemma moves_indexIn (n : Nat) : (indexIn n v k : Program β σ Value).Moves Store.Becomes := by
  induction n generalizing v with
  | zero => exact moves_fail
  | succ n ih =>
    refine moves_find Store.moves_held? ?_ fun _ => moves_pure
    refine moves_find Store.moves_handler? ?_ fun h => ?_
    · exact moves_ite moves_pure moves_indexError
    · exact moves_ite moves_call ih

lemma moves_assignIn (n : Nat) : (assignIn n v k w : Program β σ Unit).Moves Store.Becomes := by
  induction n generalizing v with
  | zero => exact moves_fail
  | succ n ih =>
    refine moves_find Store.moves_held? ?_ fun _ => moves_store Store.moves_rawSet
    refine moves_find Store.moves_handler? ?_ fun h => ?_
    · exact moves_ite (moves_store Store.moves_rawSet) moves_indexError
    · exact moves_ite (moves_bind moves_call fun _ => moves_pure) ih

lemma moves_maxTagLoop : (maxTagLoop : Program β σ Nat).Moves Store.Becomes :=
  moves_store (by simp)

lemma moves_index : (index v k : Program β σ Value).Moves Store.Becomes :=
  moves_bind moves_maxTagLoop moves_indexIn

lemma moves_assign : (assign v k w : Program β σ Unit).Moves Store.Becomes :=
  moves_bind moves_maxTagLoop moves_assignIn

lemma moves_invokeMethod {name : String} {q : Sequence} :
    (invokeMethod v name q : Program β σ Sequence).Moves Store.Becomes := by
  refine moves_bind ?_ fun _ => moves_invoke
  exact moves_bind (moves_store Store.moves_newString) fun _ => moves_index

lemma moves_arith {op : BinaryOp} : (arith op a b : Program β σ Value).Moves Store.Becomes := by
  refine moves_find Store.moves_binary? ?_ fun _ => moves_pure
  refine moves_find Store.moves_binaryHandler? ?_ fun _ => moves_call
  exact moves_bind (moves_store Store.moves_binaryError) fun _ => moves_fail

lemma moves_negate : (negate v : Program β σ Value).Moves Store.Becomes := by
  refine moves_find Store.moves_negate? ?_ fun _ => moves_pure
  refine moves_find Store.moves_handler? ?_ fun _ => moves_call
  exact moves_bind (moves_store Store.moves_unaryError) fun _ => moves_fail

lemma moves_complement : (complement v : Program β σ Value).Moves Store.Becomes := by
  refine moves_find Store.moves_complement? ?_ fun _ => moves_pure
  refine moves_find Store.moves_handler? ?_ fun _ => moves_call
  exact moves_bind (moves_store Store.moves_unaryError) fun _ => moves_fail

lemma moves_equals : (equals a b : Program β σ Bool).Moves Store.Becomes := by
  refine moves_ite moves_pure (moves_ite moves_pure ?_)
  refine moves_find Store.moves_metatableOf ?_ fun ma => ?_
  · refine moves_bind (moves_store Store.moves_metatableOf) fun mb => ?_
    exact moves_pure
  · refine moves_find Store.moves_metatableOf moves_pure fun mb => ?_
    refine moves_bind (moves_store Store.moves_field) fun ha => ?_
    refine moves_bind (moves_store Store.moves_field) fun hb => moves_ite moves_pure ?_
    exact moves_bind moves_call fun _ => moves_pure

lemma moves_notEquals : (notEquals a b : Program β σ Bool).Moves Store.Becomes :=
  moves_bind moves_equals fun _ => moves_pure

lemma moves_less : (less a b : Program β σ Bool).Moves Store.Becomes := by
  refine moves_find Store.moves_less? ?_ fun _ => moves_pure
  refine moves_find Store.moves_binaryHandler? moves_fail fun _ => ?_
  exact moves_bind moves_call fun _ => moves_pure

lemma moves_lessEq : (lessEq a b : Program β σ Bool).Moves Store.Becomes := by
  refine moves_find Store.moves_lessEq? ?_ fun _ => moves_pure
  refine moves_find Store.moves_binaryHandler? ?_ fun _ => moves_bind moves_call fun _ => moves_pure
  refine moves_find Store.moves_binaryHandler? moves_fail fun _ => ?_
  exact moves_bind moves_call fun _ => moves_pure

lemma moves_concat : (concat a b : Program β σ Value).Moves Store.Becomes := by
  refine moves_find Store.moves_concatAll ?_ fun _ => moves_pure
  exact moves_find Store.moves_binaryHandler? moves_fail fun _ => moves_call

lemma moves_length : (length v : Program β σ Value).Moves Store.Becomes := by
  refine moves_find Store.moves_stringLength? ?_ fun _ => moves_pure
  refine moves_find Store.moves_handler? (moves_ite ?_ moves_fail) fun _ => moves_call
  exact moves_bind (moves_store Store.moves_rawLen) fun _ => moves_pure

lemma moves_namedText? : (namedText? v : Program β σ (Option String)).Moves Store.Becomes := by
  refine moves_find Store.moves_handler? moves_pure fun w => ?_
  refine moves_bind (moves_store Store.moves_lossyText?) fun name => ?_
  split <;> exact moves_pure

lemma moves_text : (text v : Program β σ Value).Moves Store.Becomes := by
  refine moves_find Store.moves_handler? (moves_ite moves_pure ?_) fun h => ?_
  · refine moves_bind moves_namedText? fun r => ?_
    cases r with
    | some s => exact moves_bind moves_pure fun _ => moves_store Store.moves_newString
    | none =>
      refine moves_bind (moves_store Store.moves_display) fun _ => ?_
      exact moves_store Store.moves_newString
  · refine moves_bind moves_call fun r => ?_
    exact moves_find Store.moves_toString? moves_fail fun _ => moves_pure

lemma moves_join {e : Joiner.End} {j : Joiner} :
    (j.join e v : Program β σ (Joiner × Except Error Unit)).Moves Store.Becomes := by
  refine moves_find Joiner.moves_joinPlain? ?_ fun _ => moves_pure
  refine moves_bind (moves_store Joiner.moves_toValue) fun acc => ?_
  refine moves_bind (moves_attempt moves_concat) fun r => ?_
  cases r <;> exact moves_pure

end Program

/-- What a host may ask of a state that may call functions. -/
inductive Task where
  | invoke (f : Value) (args : Sequence)
  | call (f : Value) (args : List Value)
  | invokeMethod (v : Value) (name : String) (args : Sequence)
  | settle (q : Sequence)
  | index (v k : Value)
  | assign (v k w : Value)
  | arith (op : BinaryOp) (a b : Value)
  | negate (v : Value)
  | complement (v : Value)
  | equals (a b : Value)
  | notEquals (a b : Value)
  | less (a b : Value)
  | lessEq (a b : Value)
  | greater (a b : Value)
  | greaterEq (a b : Value)
  | concat (a b : Value)
  | length (v : Value)
  | text (v : Value)
  | join (e : Joiner.End) (j : Joiner) (v : Value)

namespace Task

variable {β σ : Type}

/-- The program of a task, which ends in the values that it gives. -/
def program : Task → Program β σ Sequence
  | invoke f args => Program.invoke f args
  | call f args => do return .one (← Program.call f args)
  | invokeMethod v name args => Program.invokeMethod v name args
  | settle q => Program.settle q
  | index v k => do return .one (← Program.index v k)
  | assign v k w => do Program.assign v k w; return .empty
  | arith op a b => do return .one (← Program.arith op a b)
  | negate v => do return .one (← Program.negate v)
  | complement v => do return .one (← Program.complement v)
  | equals a b => do return .one (.bool (← Program.equals a b))
  | notEquals a b => do return .one (.bool (← Program.notEquals a b))
  | less a b => do return .one (.bool (← Program.less a b))
  | lessEq a b => do return .one (.bool (← Program.lessEq a b))
  | greater a b => do return .one (.bool (← Program.greater a b))
  | greaterEq a b => do return .one (.bool (← Program.greaterEq a b))
  | concat a b => do return .one (← Program.concat a b)
  | length v => do return .one (← Program.length v)
  | text v => do return .one (← Program.text v)
  | join e j v => do
    Program.ofExcept (← j.join e v).2
    return .empty

open Program in
/-- **All tasks work on the store as the library does.** -/
theorem moves_program (task : Task) :
    (task.program : Program β σ Sequence).Moves Store.Becomes := by
  cases task with
  | invoke f args => exact moves_invoke
  | call f args => exact moves_bind moves_call fun _ => moves_pure
  | invokeMethod v name args => exact moves_invokeMethod
  | settle q => exact moves_settle
  | index v k => exact moves_bind moves_index fun _ => moves_pure
  | assign v k w => exact moves_bind moves_assign fun _ => moves_pure
  | arith op a b => exact moves_bind moves_arith fun _ => moves_pure
  | negate v => exact moves_bind moves_negate fun _ => moves_pure
  | complement v => exact moves_bind moves_complement fun _ => moves_pure
  | equals a b => exact moves_bind moves_equals fun _ => moves_pure
  | notEquals a b => exact moves_bind moves_notEquals fun _ => moves_pure
  | less a b | greater a b => exact moves_bind moves_less fun _ => moves_pure
  | lessEq a b | greaterEq a b => exact moves_bind moves_lessEq fun _ => moves_pure
  | concat a b => exact moves_bind moves_concat fun _ => moves_pure
  | length v => exact moves_bind moves_length fun _ => moves_pure
  | text v => exact moves_bind moves_text fun _ => moves_pure
  | join e j v =>
    exact moves_bind moves_join fun _ => moves_bind moves_ofExcept fun _ => moves_pure

end Task

open Program in
/-- **So do all operations.** -/
theorem Operation.moves_program {β σ : Type} (op : Operation β) :
    (op.program : Program β σ (List Value)).Moves Store.Becomes := by
  cases op with
  | index t k => exact moves_bind moves_index fun _ => moves_pure
  | assign t k v => exact moves_bind moves_assign fun _ => moves_pure
  | _ => exact moves_store (by simp)

end LuaCore
