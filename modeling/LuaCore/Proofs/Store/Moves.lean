import LuaCore.Argument
import LuaCore.Joiner
import LuaCore.Program.Index
import LuaCore.Program.Run
import LuaCore.Proofs.Store.Content
import Mathlib.Order.Defs.Unbundled

/-!
What work on a store makes of it.

A store becomes another one by changes to its heap or to the shared metatables, by the making of strings,
and by collections.  All work of the library is of this kind, and a large part of it only reads.
-/

namespace LuaCore

namespace Store

variable {β α γ : Type} {s t u : Store β} {R : Store β → Store β → Prop}

/-- The computation, started in `s`, leaves `t`, whether it gives a result or stops. -/
def Leaves (x : StoreM β α) (s t : Store β) : Prop := (∃ a, x s = .ok a t) ∨ ∃ e, x s = .error e t

/-- **The computation moves stores by a relation.** -/
def Moves (R : Store β → Store β → Prop) (x : StoreM β α) : Prop := ∀ s t, Leaves x s t → R s t

/-! ### Rules -/

lemma Leaves.of_ok {x : StoreM β α} {a : α} (h : Leaves x s t) (hx : x s = .ok a u) : t = u := by
  rcases h with ⟨b, hb⟩ | ⟨e, he⟩
  · cases hx.symm.trans hb
    rfl
  · cases hx.symm.trans he

lemma Leaves.of_error {x : StoreM β α} {e : Stop} (h : Leaves x s t) (hx : x s = .error e u) :
    t = u := by
  rcases h with ⟨b, hb⟩ | ⟨e', he⟩
  · cases hx.symm.trans hb
  · cases hx.symm.trans he
    rfl

lemma Leaves.of_bind {x : StoreM β α} {f : α → StoreM β γ} (h : Leaves (x >>= f) s u) :
    Leaves x s u ∨ ∃ a t, Leaves x s t ∧ Leaves (f a) t u := by
  cases hx : x s with
  | ok a t =>
    refine Or.inr ⟨a, t, Or.inl ⟨a, hx⟩, ?_⟩
    rwa [Leaves, bind_ok hx] at h
  | error e t =>
    obtain rfl := h.of_error (bind_error hx)
    exact Or.inl (Or.inr ⟨e, hx⟩)

lemma Moves.mono {R' : Store β → Store β → Prop} {x : StoreM β α} (h : Moves R x)
    (hR : ∀ s t, R s t → R' s t) : Moves R' x := fun s t ht => hR s t (h s t ht)

section Preorder

variable [IsPreorder (Store β) R]

@[simp] lemma moves_pure {a : α} : Moves R (pure a) := by
  intro s t h
  obtain rfl := h.of_ok rfl
  exact refl t

@[simp] lemma moves_get : Moves R get := by
  intro s t h
  obtain rfl := h.of_ok rfl
  exact refl t

@[simp] lemma moves_throw {e : Stop} : Moves R (throw e : StoreM β α) := by
  intro s t h
  obtain rfl := h.of_error rfl
  exact refl t

@[simp] lemma moves_fail {e : Error} : Moves R (fail e : StoreM β α) := moves_throw

@[simp] lemma moves_bind {x : StoreM β α} {f : α → StoreM β γ} (hx : Moves R x)
    (hf : ∀ a, Moves R (f a)) : Moves R (x >>= f) := by
  intro s u h
  rcases h.of_bind with h | ⟨a, t, h, hnext⟩
  · exact hx s u h
  · exact IsTrans.trans s t u (hx s t h) (hf a t u hnext)

@[simp] lemma moves_map {x : StoreM β α} {f : α → γ} (hx : Moves R x) : Moves R (f <$> x) :=
  moves_bind hx fun _ => moves_pure

@[simp] lemma moves_ofExcept {r : Except Error α} : Moves R (ofExcept r : StoreM β α) := by
  cases r
  · exact moves_fail
  · exact moves_pure

@[simp] lemma moves_ofOutcome {r : Except Stop α} : Moves R (ofOutcome r : StoreM β α) := by
  cases r
  · exact moves_throw
  · exact moves_pure

@[simp] lemma moves_require {kind : ObjectKind} {o : Option α} :
    Moves R (require kind o : StoreM β α) := by
  cases o
  · exact moves_throw
  · exact moves_pure

/-! ### Readings -/

section Readings

variable {h : Handle} {v w k : Value} {i : Int64}

@[simp] lemma moves_table : Moves R (table h : StoreM β Table) := by simp [table]

@[simp] lemma moves_function : Moves R (function h) := by simp [function]

@[simp] lemma moves_userdata : Moves R (userdata h : StoreM β Userdata) := by simp [userdata]

@[simp] lemma moves_thread : Moves R (thread h : StoreM β Thread) := by simp [thread]

@[simp] lemma moves_bytes : Moves R (bytes h : StoreM β Bytes) := by simp [bytes]

@[simp] lemma moves_bytes? : Moves R (bytes? v : StoreM β (Option Bytes)) := by
  cases v <;> simp [bytes?]

@[simp] lemma moves_expectTable : Moves R (expectTable v : StoreM β Handle) := by
  cases v <;> simp [expectTable]

@[simp] lemma moves_expectUserdata : Moves R (expectUserdata v : StoreM β Handle) := by
  cases v <;> simp [expectUserdata]

@[simp] lemma moves_expectThread : Moves R (expectThread v : StoreM β Handle) := by
  cases v <;> simp [expectThread]

@[simp] lemma moves_tableOf : Moves R (tableOf v : StoreM β Table) := by simp [tableOf]

@[simp] lemma moves_userValue : Moves R (userValue v : StoreM β Value) := by simp [userValue]

@[simp] lemma moves_threadStatus : Moves R (threadStatus v : StoreM β ThreadStatus) := by
  simp [threadStatus]

@[simp] lemma moves_rawGet : Moves R (rawGet v k : StoreM β Value) := by simp [rawGet]

@[simp] lemma moves_rawGetAt : Moves R (rawGetAt v i : StoreM β Value) := by simp [rawGetAt]

@[simp] lemma moves_rawLen : Moves R (rawLen v : StoreM β Nat) := by cases v <;> simp [rawLen]

@[simp] lemma moves_next : Moves R (next v k : StoreM β (Option (Value × Value))) := by simp [next]

@[simp] lemma moves_nextAt : Moves R (nextAt v i : StoreM β (Option (Int64 × Value))) := by
  simp [nextAt]

@[simp] lemma moves_metatableOf : Moves R (metatableOf v : StoreM β (Option Handle)) := by
  cases v <;> simp [metatableOf]

variable {e : Event}

@[simp] lemma moves_field : Moves R (field h e : StoreM β Value) := by simp [field]

@[simp] lemma moves_handler? : Moves R (handler? v e : StoreM β (Option Value)) := by
  refine moves_bind moves_metatableOf fun mt => ?_
  cases mt <;> simp

@[simp] lemma moves_binaryHandler? : Moves R (binaryHandler? v w e : StoreM β (Option Value)) := by
  refine moves_bind moves_handler? fun r => ?_
  cases r <;> simp

@[simp] lemma moves_visibleMetatable : Moves R (visibleMetatable v : StoreM β Value) := by
  refine moves_bind moves_metatableOf fun mt => ?_
  cases mt <;> simp

@[simp] lemma moves_declaredMode {mt : Option Handle} :
    Moves R (declaredMode mt : StoreM β WeakMode) := by
  cases mt with
  | none => exact moves_pure
  | some mt =>
    refine moves_bind moves_field fun m => moves_bind moves_bytes? fun b => ?_
    cases b <;> exact moves_pure

@[simp] lemma moves_checkUnprotected : Moves R (checkUnprotected v : StoreM β Unit) := by
  refine moves_bind moves_metatableOf fun mt => ?_
  cases mt with
  | none => exact moves_pure
  | some mt =>
    refine moves_bind moves_field fun p => ?_
    split
    · exact moves_fail
    · exact moves_pure

/-- Finding the function behind a callee is a reading. -/
lemma moves_resolve {n : Nat} {a : Sequence} : Moves R (resolve n v a : StoreM β _) := by
  induction n generalizing v a with
  | zero => exact moves_fail
  | succ n ih =>
    cases v with
    | function h => simp [resolve]
    | _ =>
      refine moves_bind moves_handler? fun r => ?_
      cases r with
      | none => exact moves_fail
      | some h => exact ih

@[simp] lemma moves_toNumber? : Moves R (toNumber? v : StoreM β (Option Number)) := by
  rcases v with _ | _ | _ | _ | _ | _ | _ | _ <;> simp [toNumber?]

@[simp] lemma moves_toWord? : Moves R (toWord? v : StoreM β (Option Int64)) := by simp [toWord?]

@[simp] lemma moves_lossyText? : Moves R (lossyText? v : StoreM β (Option String)) := by
  simp [lossyText?]

@[simp] lemma moves_display : Moves R (display v : StoreM β String) := by
  cases v <;> simp [display]

@[simp] lemma moves_binary? {op : BinaryOp} :
    Moves R (binary? op v w : StoreM β (Option Value)) := by
  cases op with
  | arith op =>
    refine moves_bind moves_toNumber? fun m => moves_bind moves_toNumber? fun n => ?_
    cases m <;> cases n <;> simp
  | bit op =>
    refine moves_bind moves_toWord? fun m => moves_bind moves_toWord? fun n => ?_
    cases m <;> cases n <;> simp

@[simp] lemma moves_negate? : Moves R (negate? v : StoreM β (Option Value)) := by
  refine moves_bind moves_toNumber? fun r => ?_
  rcases r with _ | _ | _ <;> exact moves_pure

@[simp] lemma moves_complement? : Moves R (complement? v : StoreM β (Option Value)) := by
  simp [complement?]

@[simp] lemma moves_stringLength? : Moves R (stringLength? v : StoreM β (Option Nat)) := by
  simp [stringLength?]

@[simp] lemma moves_less? : Moves R (less? v w : StoreM β (Option Bool)) := by
  unfold less?
  split <;> simp

@[simp] lemma moves_lessEq? : Moves R (lessEq? v w : StoreM β (Option Bool)) := by
  unfold lessEq?
  split <;> simp

@[simp] lemma moves_held? : Moves R (held? v k : StoreM β (Option Value)) := by
  cases v <;> simp [held?]

@[simp] lemma moves_indexError : Moves R (indexError v k : StoreM β Error) := by simp [indexError]

@[simp] lemma moves_binaryError {op : BinaryOp} :
    Moves R (binaryError op v w : StoreM β Error) := by
  refine moves_bind moves_toNumber? fun m => moves_bind moves_toNumber? fun n => ?_
  split <;> exact moves_pure

@[simp] lemma moves_unaryError {bitwise : Bool} :
    Moves R (unaryError bitwise v : StoreM β Error) := by
  refine moves_bind moves_toNumber? fun n => ?_
  split <;> exact moves_pure

end Readings

end Preorder

/-! ### Becoming -/

/-- **What becomes of a store.**  The heap and the shared metatables may change in any way; strings are
made by interning, and freed by collections. -/
inductive Becomes (s : Store β) : Store β → Prop where
  | refl : Becomes s s
  | withHeap {t : Store β} (heap : Heap β) : Becomes s t → Becomes s { t with heap := heap }
  | withShared {t : Store β} (shared : SharedMetatables) :
      Becomes s t → Becomes s { t with shared := shared }
  | interned {t : Store β} (b : Bytes) : Becomes s t → Becomes s (t.interning b)
  | collected {t u : Store β} {vs : List Value} {r : CollectStats} :
      Becomes s t → collect vs t = .ok r u → Becomes s u

lemma Becomes.trans (hst : s.Becomes t) (htu : t.Becomes u) : s.Becomes u := by
  induction htu with
  | refl => exact hst
  | withHeap heap _ ih => exact .withHeap heap ih
  | withShared shared _ ih => exact .withShared shared ih
  | interned b _ ih => exact .interned b ih
  | collected _ hr ih => exact .collected ih hr

instance : IsPreorder (Store β) Becomes where
  refl _ := .refl
  trans _ _ _ := Becomes.trans

lemma moves_modifyGet {f : Store β → α × Store β} (hf : ∀ s, R s (f s).2) :
    Moves R (modifyGet f : StoreM β α) := by
  intro s t h
  obtain rfl := h.of_ok (show (modifyGet f : StoreM β α) s = .ok (f s).1 (f s).2 from rfl)
  exact hf s

section Work

variable {h : Handle} {v w k : Value} {i : Int64}

@[simp] lemma moves_newString {b : Bytes} : Moves Becomes (newString b : StoreM β Value) :=
  moves_modifyGet fun _ => .interned b .refl

@[simp] lemma moves_allocTable {t : Table} : Moves Becomes (allocTable t : StoreM β Handle) :=
  moves_modifyGet fun _ => .withHeap _ .refl

@[simp] lemma moves_newTable {t : Table} : Moves Becomes (newTable t : StoreM β Value) := by
  simp [newTable]

@[simp] lemma moves_newEmptyTable : Moves Becomes (newEmptyTable : StoreM β Value) := by
  simp [newEmptyTable]

@[simp] lemma moves_newFunction {f : Function β} : Moves Becomes (newFunction f) :=
  moves_modifyGet fun _ => .withHeap _ .refl

@[simp] lemma moves_newUserdata {p : Payload} : Moves Becomes (newUserdata p : StoreM β Value) :=
  moves_modifyGet fun _ => .withHeap _ .refl

@[simp] lemma moves_newThread : Moves Becomes (newThread v : StoreM β Value) :=
  moves_modifyGet fun _ => .withHeap _ .refl

@[simp] lemma moves_putTable {t : Table} : Moves Becomes (putTable h t : StoreM β Unit) :=
  moves_modifyGet fun _ => .withHeap _ .refl

@[simp] lemma moves_putUserdata {u : Userdata} : Moves Becomes (putUserdata h u : StoreM β Unit) :=
  moves_modifyGet fun _ => .withHeap _ .refl

@[simp] lemma moves_putThread {t : Thread} : Moves Becomes (putThread h t : StoreM β Unit) :=
  moves_modifyGet fun _ => .withHeap _ .refl

@[simp] lemma moves_setUserValue : Moves Becomes (setUserValue v w : StoreM β Unit) := by
  simp [setUserValue]

@[simp] lemma moves_setThreadStatus {status : ThreadStatus} :
    Moves Becomes (setThreadStatus v status : StoreM β Unit) := by
  simp [setThreadStatus]

@[simp] lemma moves_rawSet : Moves Becomes (rawSet v k w : StoreM β Unit) := by
  refine moves_bind moves_expectTable fun h => moves_bind moves_table fun t => ?_
  exact moves_bind moves_ofExcept fun _ => moves_putTable

@[simp] lemma moves_rawSetAll {pairs : List (Value × Value)} :
    Moves Becomes (rawSetAll v pairs : StoreM β Unit) := by
  induction pairs with
  | nil => exact moves_pure
  | cons e pairs ih => exact moves_bind moves_rawSet fun _ => ih

@[simp] lemma moves_newTableOfPairs {pairs : List (Value × Value)} :
    Moves Becomes (newTableOfPairs pairs : StoreM β Value) := by
  refine moves_bind moves_allocTable fun h => ?_
  exact moves_bind moves_rawSetAll fun _ => moves_pure

@[simp] lemma moves_rawSetAt : Moves Becomes (rawSetAt v i w : StoreM β Unit) := by
  simp [rawSetAt, modifyTable]

/-- Attaching a metatable, once it is known which one. -/
lemma moves_attach {new : Option Handle} : Moves Becomes (do
    checkUnprotected v
    match v with
    | .table h =>
      let mode ← declaredMode new
      let t ← table h
      putTable h { t with metatable := new, weakMode := mode }
    | .userdata h =>
      let u ← userdata h
      putUserdata h { u with metatable := new }
    | w => fail (.type (.ownMetatable w.kind)) : StoreM β Unit) := by
  refine moves_bind moves_checkUnprotected fun _ => ?_
  cases v <;> simp

@[simp] lemma moves_setMetatable : Moves Becomes (setMetatable v w : StoreM β Unit) := by
  cases w with
  | nil => exact moves_bind moves_pure fun _ => moves_attach
  | table h => exact moves_bind moves_pure fun _ => moves_attach
  | _ => exact moves_bind moves_fail fun _ => moves_attach

@[simp] lemma moves_setShared {k : Kind} {mt : Option Handle} :
    Moves Becomes (setShared k mt : StoreM β (Option Handle)) := by
  intro s t h
  cases hset : s.shared.set? k mt with
  | none =>
    have hrun : setShared k mt s = .error (.error (.type (.sharedMetatable k))) s := by
      refine (bind_ok (x := get) rfl).trans ?_
      rw [hset]
      rfl
    obtain rfl := h.of_error hrun
    exact .refl
  | some shared =>
    have hrun : setShared k mt s = .ok (s.shared.get? k) { s with shared := shared } := by
      refine (bind_ok (x := get) rfl).trans ?_
      rw [hset]
      rfl
    obtain rfl := h.of_ok hrun
    exact .withShared shared .refl

@[simp] lemma moves_restoreShared {shared : SharedMetatables} :
    Moves Becomes (restoreShared shared : StoreM β Unit) :=
  moves_modifyGet fun _ => .withShared shared .refl

@[simp] lemma moves_toString? : Moves Becomes (toString? v : StoreM β (Option Value)) := by
  rcases v with _ | _ | _ | _ | _ | _ | _ | _ <;> simp [toString?]

@[simp] lemma moves_joinBytes {vs : List Value} :
    Moves Becomes (joinBytes vs : StoreM β (Option Bytes)) := by
  induction vs with
  | nil => exact moves_pure
  | cons v vs ih =>
    refine moves_bind moves_toString? fun r => ?_
    cases r with
    | none => exact moves_pure
    | some s => exact moves_bind moves_bytes? fun b => moves_bind ih fun c => moves_pure

@[simp] lemma moves_concatAll {vs : List Value} :
    Moves Becomes (concatAll vs : StoreM β (Option Value)) := by
  refine moves_bind moves_joinBytes fun r => ?_
  cases r <;> simp

lemma collect_ok {vs : List Value} {r : Heap β × Interner × CollectStats}
    (hr : s.heap.collect s.strings (s.roots vs) = .ok r) :
    collect vs s = .ok r.2.2 { s with heap := r.1, strings := r.2.1 } := by
  refine (bind_ok (x := get) rfl).trans ?_
  rw [hr]
  rfl

lemma collect_error {vs : List Value} {e : Stop}
    (he : s.heap.collect s.strings (s.roots vs) = .error e) : collect vs s = .error e s := by
  refine (bind_ok (x := get) rfl).trans ?_
  rw [he]
  rfl

/-- A collection that fails leaves the store as it is. -/
@[simp] lemma moves_collect {vs : List Value} : Moves Becomes (collect vs : StoreM β CollectStats) := by
  intro s t h
  cases hr : s.heap.collect s.strings (s.roots vs) with
  | error e =>
    obtain rfl := h.of_error (collect_error hr)
    exact .refl
  | ok r =>
    obtain rfl := h.of_ok (collect_ok hr)
    exact .collected .refl (collect_ok hr)

end Work

end Store

namespace Joiner

open Store

variable {β : Type} {j : Joiner} {v : Value}

@[simp] lemma moves_plainBytes? {R : Store β → Store β → Prop} [IsPreorder (Store β) R] :
    Moves R (plainBytes? v : StoreM β (Option Bytes)) := by
  rcases v with _ | _ | _ | _ | _ | _ | _ | _ <;> simp [plainBytes?]

@[simp] lemma moves_toValue : Moves Becomes (j.toValue : StoreM β Value) := by
  cases j <;> simp [toValue]

@[simp] lemma moves_joinPlain? {e : End} :
    Moves Becomes (joinPlain? e j v : StoreM β (Option Joiner)) := by
  unfold joinPlain?
  split
  · exact moves_pure
  · refine moves_bind (by cases j <;> simp [bytes?]) fun r => ?_
    cases r <;> simp

end Joiner

end LuaCore
