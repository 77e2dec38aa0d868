import LuaCore.Program.Operator
import LuaCore.Proofs.Number.Comparison
import LuaCore.Proofs.Number.Word
import LuaCore.Proofs.Program.Index

/-!
Operators on numbers, without handlers.

An operator goes by the numbers of its operands: those that they are, or that they denote as strings.
Without a handler for its event, it fails if one of them is not there, if it is bitwise and one of them is
no integer, or if it divides an integer by the integer zero; and in no other case.
-/

namespace LuaCore

namespace Number

variable {n : Number} {i : Int64}

/-- The exact value of the number is that of a word. -/
def IsWord (n : Number) : Prop := ∃ i : Int64, n.value? = some (.ofRat i.toInt)

lemma toWord?_eq_some_iff : n.toWord? = some i ↔ n.value? = some (.ofRat i.toInt) := by
  cases n with
  | int j => simp [toWord?, value?, Int64.toInt_inj]
  | float x => exact Double.toWord?_eq_some_iff

lemma isWord_iff : n.IsWord ↔ ∃ i, n.toWord? = some i := by
  simp only [IsWord, toWord?_eq_some_iff]

end Number

/-! ### On numbers -/

namespace BinaryOp

/-- The operator divides an integer by the integer zero. -/
def DividesByZero (op : BinaryOp) (m n : Number) : Prop :=
  (op = .arith .idiv ∨ op = .arith .mod) ∧ (∃ i, m = .int i) ∧ n = .int 0

/-- The error of a division by zero. -/
def zeroError : BinaryOp → RuntimeError
  | .arith .idiv => .divisionByZero
  | _ => .moduloByZero

lemma DividesByZero.isBitwise_eq_false {op : BinaryOp} {m n : Number} (hz : op.DividesByZero m n) :
    op.isBitwise = false := by
  rcases hz.1 with rfl | rfl <;> rfl

/-- The operator gives an integer: a bitwise one always does, and one on two integers does unless it
gives doubles. -/
def GivesWord (op : BinaryOp) (m n : Number) : Prop :=
  op.isBitwise = true ∨
    (op ≠ .arith .div ∧ op ≠ .arith .pow ∧ (∃ i, m = .int i) ∧ ∃ j, n = .int j)

end BinaryOp

namespace ArithOp

variable {op : ArithOp} {a b : Int64} {m n : Number}

lemma exists_onWords (hop : op.givesDouble = false) (hb : op = .idiv ∨ op = .mod → b ≠ 0) :
    ∃ r, op.onWords a b = .ok r := by
  cases op with
  | add => exact ⟨_, rfl⟩
  | sub => exact ⟨_, rfl⟩
  | mul => exact ⟨_, rfl⟩
  | div => cases hop
  | pow => cases hop
  | mod =>
    have hb : b ≠ 0 := hb (Or.inr rfl)
    obtain ⟨r, hr⟩ := Word.exists_floorMod? hb a
    exact ⟨r, by rw [onWords, if_neg hb, hr]; rfl⟩
  | idiv =>
    have hb : b ≠ 0 := hb (Or.inl rfl)
    obtain ⟨r, hr⟩ := Word.exists_floorDiv? hb a
    exact ⟨r, by rw [onWords, if_neg hb, hr]; rfl⟩

lemma givesWord_iff : (BinaryOp.arith op).GivesWord m n ↔
    op.givesDouble = false ∧ (∃ i, m = .int i) ∧ ∃ j, n = .int j := by
  cases op <;> simp [BinaryOp.GivesWord, BinaryOp.isBitwise, givesDouble]

/-- Two integers that it does not divide by zero have an integer for a result. -/
lemma exists_apply_eq_int (hword : (BinaryOp.arith op).GivesWord m n)
    (hz : ¬(BinaryOp.arith op).DividesByZero m n) : ∃ i, op.apply m n = .ok (.int i) := by
  obtain ⟨hop, ⟨i, rfl⟩, j, rfl⟩ := givesWord_iff.1 hword
  have hj : op = .idiv ∨ op = .mod → j ≠ 0 := by
    rintro hop rfl
    exact hz ⟨hop.imp (congrArg _) (congrArg _), ⟨i, rfl⟩, rfl⟩
  obtain ⟨r, hr⟩ := exists_onWords (a := i) hop hj
  exact ⟨r, by simp [apply, hop, hr]⟩

/-- In all other cases the result is a double. -/
lemma exists_apply_eq_float (hword : ¬(BinaryOp.arith op).GivesWord m n) :
    ∃ x, op.apply m n = .ok (.float x) := by
  cases m with
  | float x => cases n <;> exact ⟨_, rfl⟩
  | int i =>
    cases n with
    | float y => exact ⟨_, rfl⟩
    | int j =>
      have hop : op.givesDouble = true := by
        by_contra hop
        exact hword (givesWord_iff.2 ⟨Bool.eq_false_iff.2 hop, ⟨i, rfl⟩, j, rfl⟩)
      exact ⟨_, if_pos hop⟩

lemma apply_of_dividesByZero (hz : (BinaryOp.arith op).DividesByZero m n) :
    op.apply m n = .error (.error (.runtime (BinaryOp.arith op).zeroError)) := by
  obtain ⟨hop, ⟨i, rfl⟩, rfl⟩ := hz
  rcases hop with hop | hop <;> cases hop <;> rfl

end ArithOp

lemma BitOp.exists_apply (op : BitOp) (i j : Int64) : ∃ r, op.apply i j = .ok r := by
  cases op with
  | band => exact ⟨_, rfl⟩
  | bor => exact ⟨_, rfl⟩
  | bxor => exact ⟨_, rfl⟩
  | shl =>
    obtain ⟨r, hr⟩ := Word.exists_shiftLeft? i j
    exact ⟨r, by rw [apply, hr]; rfl⟩
  | shr =>
    obtain ⟨r, hr⟩ := Word.exists_shiftRight? i j
    exact ⟨r, by rw [apply, hr]; rfl⟩

/-! ### In a sound store -/

namespace Store

variable {β : Type} {s : Store β} {v a b : Value} {op : BinaryOp} {m n : Number}

/-- The number that a value is, or that it denotes as a string. -/
def numberOf? (s : Store β) : Value → Option Number
  | .number n => some n
  | .string h => (s.strings.get? h).bind Number.ofNumeral?
  | _ => none

lemma toNumber?_eq (hv : s.isLive v = true) : toNumber? v s = .ok (s.numberOf? v) s := by
  cases v with
  | string h =>
    obtain ⟨b, hb⟩ := Interner.contains_iff.1 hv
    refine (bind_ok (bytes_of_get? hb)).trans ?_
    rw [numberOf?, hb]
    rfl
  | _ => rfl

lemma toWord?_eq (hv : s.isLive v = true) :
    toWord? v s = .ok ((s.numberOf? v).bind Number.toWord?) s :=
  (bind_ok (toNumber?_eq hv)).trans rfl

lemma binaryError_eq (op : BinaryOp) (ha : s.isLive a = true) (hb : s.isLive b = true) :
    binaryError op a b s = .ok
      (if op.isBitwise && (s.numberOf? a).isSome && (s.numberOf? b).isSome then .runtime .noInteger
        else .type (.binary op.isBitwise a.kind b.kind)) s := by
  refine (bind_ok (toNumber?_eq ha)).trans ((bind_ok (toNumber?_eq hb)).trans ?_)
  split <;> rfl

lemma binaryHandler?_eq_none {e : Event} (hs : s.Sound) (ha : s.isLive a = true)
    (hb : s.isLive b = true) (hha : s.handlerOf? e a = none) (hhb : s.handlerOf? e b = none) :
    binaryHandler? a b e s = .ok none s := by
  have hnone : handler? a e s = .ok none s := hha ▸ handler?_eq hs ha e
  refine (bind_ok hnone).trans ((handler?_eq hs hb e).trans ?_)
  rw [hhb]

/-- An operator whose operands are no numbers leaves it to a handler. -/
lemma binary?_of_no_number (op : BinaryOp) (ha : s.isLive a = true) (hb : s.isLive b = true)
    (h : s.numberOf? a = none ∨ s.numberOf? b = none) : binary? op a b s = .ok none s := by
  cases op with
  | arith op =>
    refine (bind_ok (toNumber?_eq ha)).trans ((bind_ok (toNumber?_eq hb)).trans ?_)
    rcases h with h | h <;> rw [h]
    · rfl
    · cases s.numberOf? a <;> rfl
  | bit op =>
    refine (bind_ok (toWord?_eq ha)).trans ((bind_ok (toWord?_eq hb)).trans ?_)
    rcases h with h | h <;> rw [h]
    · rfl
    · cases (s.numberOf? a).bind Number.toWord? <;> rfl

/-- So does a bitwise one, if one of them is no integer. -/
lemma binary?_of_not_isWord (ha : s.isLive a = true) (hb : s.isLive b = true)
    (hm : s.numberOf? a = some m) (hn : s.numberOf? b = some n) (hop : op.isBitwise = true)
    (hword : ¬(m.IsWord ∧ n.IsWord)) : binary? op a b s = .ok none s := by
  cases op with
  | arith op => cases hop
  | bit op =>
    rw [Number.isWord_iff, Number.isWord_iff] at hword
    refine (bind_ok (toWord?_eq ha)).trans ((bind_ok (toWord?_eq hb)).trans ?_)
    rw [hm, hn, Option.bind_some, Option.bind_some]
    cases hi : m.toWord? with
    | none => rfl
    | some i =>
      cases hj : n.toWord? with
      | none => rfl
      | some j => exact absurd ⟨⟨i, hi⟩, j, hj⟩ hword

lemma binary?_of_dividesByZero (ha : s.isLive a = true) (hb : s.isLive b = true)
    (hm : s.numberOf? a = some m) (hn : s.numberOf? b = some n) (hz : op.DividesByZero m n) :
    binary? op a b s = .error (.error (.runtime op.zeroError)) s := by
  cases op with
  | bit op => cases hz.isBitwise_eq_false
  | arith op =>
    refine (bind_ok (toNumber?_eq ha)).trans ((bind_ok (toNumber?_eq hb)).trans ?_)
    rw [hm, hn]
    dsimp only
    rw [ArithOp.apply_of_dividesByZero hz]
    rfl

/-- **In all other cases there is a result.** -/
lemma exists_binary?_eq (ha : s.isLive a = true) (hb : s.isLive b = true)
    (hm : s.numberOf? a = some m) (hn : s.numberOf? b = some n)
    (hword : op.isBitwise = true → m.IsWord ∧ n.IsWord) (hz : ¬op.DividesByZero m n) :
    ∃ v, binary? op a b s = .ok (some v) s ∧ (op.GivesWord m n → ∃ i, v = .int i) ∧
      (¬op.GivesWord m n → ∃ x, v = .float x) := by
  cases op with
  | arith op =>
    have hread : ∀ r, op.apply m n = .ok r →
        binary? (.arith op) a b s = .ok (some (.number r)) s := by
      intro r hr
      refine (bind_ok (toNumber?_eq ha)).trans ((bind_ok (toNumber?_eq hb)).trans ?_)
      rw [hm, hn]
      dsimp only
      rw [hr]
      rfl
    by_cases hgives : (BinaryOp.arith op).GivesWord m n
    · obtain ⟨i, hi⟩ := ArithOp.exists_apply_eq_int hgives hz
      exact ⟨_, hread _ hi, fun _ => ⟨i, rfl⟩, fun h => absurd hgives h⟩
    · obtain ⟨x, hx⟩ := ArithOp.exists_apply_eq_float hgives
      exact ⟨_, hread _ hx, fun h => absurd h hgives, fun _ => ⟨x, rfl⟩⟩
  | bit op =>
    obtain ⟨hwm, hwn⟩ := hword rfl
    obtain ⟨i, hi⟩ := Number.isWord_iff.1 hwm
    obtain ⟨j, hj⟩ := Number.isWord_iff.1 hwn
    obtain ⟨r, hr⟩ := op.exists_apply i j
    refine ⟨.int r, ?_, fun _ => ⟨r, rfl⟩, fun h => absurd (Or.inl rfl) h⟩
    refine (bind_ok (toWord?_eq ha)).trans ((bind_ok (toWord?_eq hb)).trans ?_)
    rw [hm, hn, Option.bind_some, Option.bind_some, hi, hj]
    dsimp only
    rw [hr]
    rfl

/-- **The four outcomes of an operator without handlers**, each with its condition. -/
inductive Verdict (s : Store β) (op : BinaryOp) (a b : Value) : Except Error Value → Prop where
  | value {m n : Number} {v : Value} :
      s.numberOf? a = some m → s.numberOf? b = some n →
      (op.isBitwise = true → m.IsWord ∧ n.IsWord) → ¬op.DividesByZero m n →
      (op.GivesWord m n → ∃ i, v = .int i) → (¬op.GivesWord m n → ∃ x, v = .float x) →
      Verdict s op a b (.ok v)
  | zero {m n : Number} :
      s.numberOf? a = some m → s.numberOf? b = some n → op.DividesByZero m n →
      Verdict s op a b (.error (.runtime op.zeroError))
  | noWord {m n : Number} :
      s.numberOf? a = some m → s.numberOf? b = some n → op.isBitwise = true →
      ¬(m.IsWord ∧ n.IsWord) → Verdict s op a b (.error (.runtime .noInteger))
  | noNumber :
      s.numberOf? a = none ∨ s.numberOf? b = none →
      Verdict s op a b (.error (.type (.binary op.isBitwise a.kind b.kind)))

namespace Verdict

variable {o : Except Error Value}

lemma exists_ok_iff (h : Verdict s op a b o) : (∃ v, o = .ok v) ↔
    ∃ m n, s.numberOf? a = some m ∧ s.numberOf? b = some n ∧
      (op.isBitwise = true → m.IsWord ∧ n.IsWord) ∧ ¬op.DividesByZero m n := by
  cases h with
  | value hm hn hword hz hint hfloat => exact ⟨fun _ => ⟨_, _, hm, hn, hword, hz⟩, fun _ => ⟨_, rfl⟩⟩
  | zero hm hn hz => simp [hm, hn, hz]
  | noWord hm hn hop hword => simp [hm, hn, hop, hword]
  | noNumber hnone => rcases hnone with h | h <;> simp [h]

lemma kind_of_ok (h : Verdict s op a b (.ok v)) (hm : s.numberOf? a = some m)
    (hn : s.numberOf? b = some n) :
    (op.GivesWord m n → ∃ i, v = .int i) ∧ (¬op.GivesWord m n → ∃ x, v = .float x) := by
  cases h with
  | value hm' hn' hword hz hint hfloat =>
    cases hm.symm.trans hm'
    cases hn.symm.trans hn'
    exact ⟨hint, hfloat⟩

lemma error_of_dividesByZero {e : Error} (h : Verdict s op a b (.error e))
    (hm : s.numberOf? a = some m) (hn : s.numberOf? b = some n) (hz : op.DividesByZero m n) :
    e = .runtime op.zeroError := by
  cases h with
  | zero => rfl
  | noWord hm' hn' hop => cases hz.isBitwise_eq_false.symm.trans hop
  | noNumber hnone => rcases hnone with h | h <;> simp_all

lemma error_eq_noInteger_iff {e : Error} (h : Verdict s op a b (.error e)) :
    e = .runtime .noInteger ↔
      op.isBitwise = true ∧ (s.numberOf? a).isSome = true ∧ (s.numberOf? b).isSome = true := by
  cases h with
  | zero hm hn hz =>
    have hne : op.zeroError ≠ .noInteger := by
      rcases hz.1 with rfl | rfl <;> simp [BinaryOp.zeroError]
    simp [hne, hz.isBitwise_eq_false]
  | noWord hm hn hop hword => simp [hm, hn, hop]
  | noNumber hnone => rcases hnone with h | h <;> simp [h]

lemma error_of_no_number {e : Error} (h : Verdict s op a b (.error e))
    (hnone : s.numberOf? a = none ∨ s.numberOf? b = none) :
    e = .type (.binary op.isBitwise a.kind b.kind) := by
  cases h with
  | noNumber => rfl
  | _ => rcases hnone with h | h <;> simp_all

end Verdict

end Store

/-! ### Without handlers -/

namespace Program

variable {β σ : Type} {perform : Request → RunM β σ Sequence} {s : State β σ} {op : BinaryOp}
  {a b v : Value}

/-- Where there is neither a result nor a handler, the operands are looked at again for the error. -/
lemma watch_arith_of_none (hs : s.store.Sound) (ha : s.store.isLive a = true)
    (hb : s.store.isLive b = true) (hha : s.store.handlerOf? op.event a = none)
    (hhb : s.store.handlerOf? op.event b = none)
    (hnone : Store.binary? op a b s.store = .ok none s.store) :
    (arith op a b).watch perform s = ([], .error (.error
      (if op.isBitwise && (s.store.numberOf? a).isSome && (s.store.numberOf? b).isSome then
        .runtime .noInteger else .type (.binary op.isBitwise a.kind b.kind))) s) :=
  (watch_reading hnone).trans ((watch_reading (Store.binaryHandler?_eq_none hs ha hb hha hhb)).trans
    (watch_reading (Store.binaryError_eq op ha hb)))

/-- What a run comes to with an outcome, in a state. -/
def ending (o : Except Error Value) (s : State β σ) : RunM.Result β σ Value :=
  match o with
  | .ok v => .ok v s
  | .error e => .error (.error e) s

lemma exists_watch_arith (perform : Request → RunM β σ Sequence) (hs : s.store.Sound)
    (ha : s.store.isLive a = true) (hb : s.store.isLive b = true)
    (hha : s.store.handlerOf? op.event a = none) (hhb : s.store.handlerOf? op.event b = none) :
    ∃ o, (arith op a b).watch perform s = ([], ending o s) ∧ s.store.Verdict op a b o := by
  by_cases hnumbers : ∃ m n, s.store.numberOf? a = some m ∧ s.store.numberOf? b = some n
  · obtain ⟨m, n, hm, hn⟩ := hnumbers
    by_cases hz : op.DividesByZero m n
    · exact ⟨_, watch_bind_error (watch_store_error (Store.binary?_of_dividesByZero ha hb hm hn hz)),
        .zero hm hn hz⟩
    · by_cases hword : op.isBitwise = true → m.IsWord ∧ n.IsWord
      · obtain ⟨v, hv, hint, hfloat⟩ := Store.exists_binary?_eq ha hb hm hn hword hz
        exact ⟨.ok v, watch_reading hv, .value hm hn hword hz hint hfloat⟩
      · obtain ⟨hop, hword⟩ := Classical.not_imp.1 hword
        have hnone := Store.binary?_of_not_isWord ha hb hm hn hop hword
        refine ⟨_, (watch_arith_of_none hs ha hb hha hhb hnone).trans ?_, .noWord hm hn hop hword⟩
        rw [hop, hm, hn]
        rfl
  · have hmissing : s.store.numberOf? a = none ∨ s.store.numberOf? b = none := by
      cases hm : s.store.numberOf? a with
      | none => exact Or.inl rfl
      | some m =>
        cases hn : s.store.numberOf? b with
        | none => exact Or.inr rfl
        | some n => exact absurd ⟨m, n, hm, hn⟩ hnumbers
    have hnone := Store.binary?_of_no_number op ha hb hmissing
    refine ⟨_, (watch_arith_of_none hs ha hb hha hhb hnone).trans ?_, .noNumber hmissing⟩
    rw [if_neg (by rcases hmissing with h | h <;> simp [h])]
    rfl

/-- **When an operator fails without handlers.**  In a sound store, let neither of two live operands have a
handler for the event of the operator.  Then the operator asks for no call and leaves the state as it is,
and it comes to a value or to an error: to nothing else, such as an operation that is not defined.

It comes to a value exactly if both operands have numbers, which for a bitwise operator are integers by
their exact values, and no integer is divided by the integer zero.  Then it gives an integer if it is
bitwise, or if both numbers are integers and it is no division or power; otherwise it gives a double.

The errors say which of these fails: division or remainder by zero; no integer, exactly if the operator
is bitwise and both numbers are there; and otherwise the kinds of the operands, in their order. -/
theorem arith_without_handlers (perform : Request → RunM β σ Sequence) (s : State β σ) (op : BinaryOp)
    (a b : Value) (hs : s.store.Sound) (ha : s.store.isLive a = true) (hb : s.store.isLive b = true)
    (hha : s.store.handlerOf? op.event a = none) (hhb : s.store.handlerOf? op.event b = none) :
    ∃ o : Except Error Value, (arith op a b).watch perform s = ([], ending o s) ∧
      ((∃ v, o = .ok v) ↔
        ∃ m n, s.store.numberOf? a = some m ∧ s.store.numberOf? b = some n ∧
          (op.isBitwise = true → m.IsWord ∧ n.IsWord) ∧ ¬op.DividesByZero m n) ∧
      (∀ v m n, o = .ok v → s.store.numberOf? a = some m → s.store.numberOf? b = some n →
        (op.GivesWord m n → ∃ i, v = .int i) ∧ (¬op.GivesWord m n → ∃ x, v = .float x)) ∧
      (∀ e, o = .error e →
        (∀ m n, s.store.numberOf? a = some m → s.store.numberOf? b = some n → op.DividesByZero m n →
          e = .runtime op.zeroError) ∧
        (e = .runtime .noInteger ↔ op.isBitwise = true ∧ (s.store.numberOf? a).isSome = true ∧
          (s.store.numberOf? b).isSome = true) ∧
        (s.store.numberOf? a = none ∨ s.store.numberOf? b = none →
          e = .type (.binary op.isBitwise a.kind b.kind))) ∧
      (Error.runtime .divisionByZero).message = "attempt to perform 'n//0'" ∧
      (Error.runtime .moduloByZero).message = "attempt to perform 'n%%0'" ∧
      (Error.runtime .noInteger).message = "number has no integer representation" ∧
      ∀ bitwise (k l : Kind), (Error.type (.binary bitwise k l)).message =
        "attempt to perform " ++ (if bitwise then "bitwise operation" else "arithmetic") ++ " on " ++
          k.name ++ " and " ++ l.name := by
  obtain ⟨o, hwatch, hverdict⟩ := exists_watch_arith perform hs ha hb hha hhb
  refine ⟨o, hwatch, hverdict.exists_ok_iff, ?_, ?_, rfl, rfl, rfl,
    fun bitwise k l => by cases bitwise <;> rfl⟩
  · rintro v m n rfl hm hn
    exact hverdict.kind_of_ok hm hn
  · rintro e rfl
    exact ⟨fun m n => hverdict.error_of_dividesByZero, hverdict.error_eq_noInteger_iff,
      hverdict.error_of_no_number⟩

/-- Seven divided by zero, seven and two and a half by bits, nil and one, and one shifted by the least
count, in a fresh state. -/
theorem arith_without_handlers_fresh :
    (Store.init {} : Store Unit).Sound ∧
    (arith (.arith .idiv) (.int 7) (.int 0)).watch (fun _ => throw .endless) (.init {} ()) =
      ([], .error (.error (.runtime .divisionByZero)) (.init {} () : State Unit Unit)) ∧
    (arith (.bit .band) (.int 7) (.float ⟨0x4004000000000000⟩)).watch (fun _ => throw .endless)
        (.init {} ()) =
      ([], .error (.error (.runtime .noInteger)) (.init {} () : State Unit Unit)) ∧
    (arith (.arith .add) .nil (.int 1)).watch (fun _ => throw .endless) (.init {} ()) =
      ([], .error (.error (.type (.binary false .nil .number))) (.init {} () : State Unit Unit)) ∧
    ∃ i, (arith (.bit .shr) (.int 1) (.int Int64.minValue)).watch (fun _ => throw .endless)
        (.init {} ()) = ([], .ok (.int i) (.init {} () : State Unit Unit)) := by
  have hs : (State.init {} () : State Unit Unit).store.Sound := Store.sound_init {}
  have hfraction : ¬(Number.float ⟨0x4004000000000000⟩).IsWord := by
    rw [Number.isWord_iff]
    rintro ⟨i, hi⟩
    have hnone : (Number.float ⟨0x4004000000000000⟩).toWord? = none := by decide +kernel
    cases hnone.symm.trans hi
  refine ⟨hs, ?_, ?_, ?_, ?_⟩
  · obtain ⟨o, hwatch, hok, -, herror, -⟩ := arith_without_handlers (fun _ => throw .endless)
      (.init {} () : State Unit Unit) (.arith .idiv) (.int 7) (.int 0) hs rfl rfl rfl rfl
    rw [hwatch]
    have hz : (BinaryOp.arith .idiv).DividesByZero (.int 7) (.int 0) := ⟨Or.inl rfl, ⟨7, rfl⟩, rfl⟩
    cases o with
    | ok v =>
      obtain ⟨m, n, hm, hn, -, hnot⟩ := hok.1 ⟨v, rfl⟩
      cases hm
      cases hn
      exact absurd hz hnot
    | error e => rw [(herror e rfl).1 _ _ rfl rfl hz]; rfl
  · obtain ⟨o, hwatch, hok, -, herror, -⟩ := arith_without_handlers (fun _ => throw .endless)
      (.init {} () : State Unit Unit) (.bit .band) (.int 7) (.float ⟨0x4004000000000000⟩)
      hs rfl rfl rfl rfl
    rw [hwatch]
    cases o with
    | ok v =>
      obtain ⟨m, n, hm, hn, hword, -⟩ := hok.1 ⟨v, rfl⟩
      cases hm
      cases hn
      exact absurd (hword rfl).2 hfraction
    | error e => rw [(herror e rfl).2.1.2 ⟨rfl, rfl, rfl⟩]; rfl
  · obtain ⟨o, hwatch, hok, -, herror, -⟩ := arith_without_handlers (fun _ => throw .endless)
      (.init {} () : State Unit Unit) (.arith .add) .nil (.int 1) hs rfl rfl rfl rfl
    rw [hwatch]
    cases o with
    | ok v =>
      obtain ⟨m, n, hm, -⟩ := hok.1 ⟨v, rfl⟩
      cases hm
    | error e => rw [(herror e rfl).2.2 (Or.inl rfl)]; rfl
  · obtain ⟨o, hwatch, hok, hkind, -⟩ := arith_without_handlers (fun _ => throw .endless)
      (.init {} () : State Unit Unit) (.bit .shr) (.int 1) (.int Int64.minValue) hs rfl rfl rfl rfl
    have hnot : ¬(BinaryOp.bit .shr).DividesByZero (.int 1) (.int Int64.minValue) :=
      fun hz => by cases hz.isBitwise_eq_false
    obtain ⟨v, rfl⟩ := hok.2 ⟨_, _, rfl, rfl, fun _ => ⟨⟨1, rfl⟩, Int64.minValue, rfl⟩, hnot⟩
    obtain ⟨i, rfl⟩ := (hkind v _ _ rfl rfl rfl).1 (Or.inl rfl)
    exact ⟨i, hwatch⟩

end Program

end LuaCore
