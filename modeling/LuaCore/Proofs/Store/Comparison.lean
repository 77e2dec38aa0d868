import LuaCore.Proofs.Interner.Content
import LuaCore.Proofs.Number.Comparison
import LuaCore.Proofs.Store.Content
import LuaCore.Store.Operator

/-!
Comparison is exact.

Numbers of both kinds are compared by their exact values, and strings by their bytes.  Strings are
equal if they are the same string, so that this is equality of bytes is the work of the interner.  Main
statement: the three comparisons answer for any two numbers and for any two stored strings, as the order
of the values and the lexicographic order of the bytes have it; so each of the two is a linear order,
the NaNs left out.
-/

namespace LuaCore

namespace Bytes

lemma lt_iff (b c : Bytes) : lt b c = true ↔ List.Lex (· < ·) b c := by
  induction b generalizing c with
  | nil =>
    cases c with
    | nil => exact iff_of_false Bool.false_ne_true nofun
    | cons y c => exact iff_of_true rfl .nil
  | cons x b ih =>
    cases c with
    | nil => exact iff_of_false Bool.false_ne_true nofun
    | cons y c =>
      simp only [lt, Bool.or_eq_true, Bool.and_eq_true, decide_eq_true_eq, beq_iff_eq, ih]
      exact List.cons_lt_cons_iff.symm

lemma le_iff (b c : Bytes) : le b c = true ↔ ¬ List.Lex (· < ·) c b := by
  rw [le, Bool.not_eq_true', ← Bool.not_eq_true, lt_iff]

lemma not_lex_iff {b c : Bytes} : ¬ List.Lex (· < ·) c b ↔ b = c ∨ List.Lex (· < ·) b c := by
  have hle : ¬ c < b ↔ b < c ∨ b = c := Std.not_lt.trans Std.le_iff_lt_or_eq
  exact hle.trans or_comm

end Bytes

lemma Number.compares_iff {r : Extended → Extended → Prop} {m n : Number} {a b : Extended}
    (hm : m.value? = some a) (hn : n.value? = some b) : m.Compares r n ↔ r a b := by
  simp [Compares, hm, hn]

/-- One of three propositions holds, and no two of them. -/
def ExactlyOne (p q r : Prop) : Prop := p ∧ ¬ q ∧ ¬ r ∨ ¬ p ∧ q ∧ ¬ r ∨ ¬ p ∧ ¬ q ∧ r

namespace Store

variable {β : Type} {S : Store β} {u v w : Value}

/-! ### The answers of comparisons -/

/-- **How two values compare.**  Both orders answer, without an event and with the store as it was, and
the answers are the given propositions, as is equality. -/
structure Answers (S : Store β) (u v : Value) (lt le eq : Prop) : Prop where
  less : ∃ answer, less? u v S = .ok (some answer) S ∧ (answer = true ↔ lt)
  lessEq : ∃ answer, lessEq? u v S = .ok (some answer) S ∧ (answer = true ↔ le)
  rawEq : u.rawEq v = true ↔ eq

/-- The first value is less than the second. -/
def Less (S : Store β) (u v : Value) : Prop := less? u v S = .ok (some true) S

/-- The first value is less than the second or equal to it. -/
def LessEq (S : Store β) (u v : Value) : Prop := lessEq? u v S = .ok (some true) S

/-- The values that have a place in the order of their kind: numbers other than NaN, and strings that
are stored. -/
def Ranked (S : Store β) : Value → Prop
  | .number m => m.value? ≠ none
  | .string h => S.strings.contains h = true
  | _ => False

lemma Answers.less_iff {lt le eq : Prop} (h : S.Answers u v lt le eq) : S.Less u v ↔ lt := by
  obtain ⟨answer, hrun, hiff⟩ := h.less
  rw [Less, hrun, ← hiff]
  simp

lemma Answers.lessEq_iff {lt le eq : Prop} (h : S.Answers u v lt le eq) : S.LessEq u v ↔ le := by
  obtain ⟨answer, hrun, hiff⟩ := h.lessEq
  rw [LessEq, hrun, ← hiff]
  simp

lemma answers_number (S : Store β) (m n : Number) :
    S.Answers (.number m) (.number n) (m.Compares (· < ·) n) (m.Compares (· ≤ ·) n)
      (m.Compares (· = ·) n) where
  less := ⟨m.lt n, rfl, m.lt_iff n⟩
  lessEq := ⟨m.le n, rfl, m.le_iff n⟩
  rawEq := m.eq_iff n

lemma answers_string (hS : S.strings.WellFormed) {g h : Handle} {b c : Bytes}
    (hg : S.strings.get? g = some b) (hh : S.strings.get? h = some c) :
    S.Answers (.string g) (.string h) (List.Lex (· < ·) b c) (b = c ∨ List.Lex (· < ·) b c)
      (b = c) where
  less := by
    refine ⟨Bytes.lt b c, ?_, Bytes.lt_iff b c⟩
    rw [less?]
    exact (bind_ok (bytes_of_get? hg)).trans ((bind_ok (bytes_of_get? hh)).trans rfl)
  lessEq := by
    refine ⟨Bytes.le b c, ?_, (Bytes.le_iff b c).trans Bytes.not_lex_iff⟩
    rw [lessEq?]
    exact (bind_ok (bytes_of_get? hg)).trans ((bind_ok (bytes_of_get? hh)).trans rfl)
  rawEq := by
    rw [show Value.rawEq (.string g) (.string h) = (Value.string g == Value.string h) from rfl,
      beq_iff_eq, Value.string.injEq]
    constructor
    · rintro rfl
      exact Option.some_inj.1 (hg.symm.trans hh)
    · rintro rfl
      exact hS.eq_of_get? g h b hg hh

/-! ### The laws of an order -/

lemma Answers.congr {lt le eq lt' le' eq' : Prop} (h : S.Answers u v lt le eq) (hlt : lt ↔ lt')
    (hle : le ↔ le') (heq : eq ↔ eq') : S.Answers u v lt' le' eq' := by
  rwa [hlt, hle, heq] at h

/-- Values with places on one scale keep the laws of a linear order. -/
lemma laws_of_scale {α : Type} {r : α → α → Prop} {place : Value → α → Prop} {x y z : α}
    (hirrefl : ∀ x, ¬ r x x) (htrans : ∀ x y z, r x y → r y z → r x z)
    (htotal : ∀ x y, ¬ r x y → ¬ r y x → x = y)
    (hanswers : ∀ {u v x y}, place u x → place v y → S.Answers u v (r x y) (¬ r y x) (x = y))
    (hu : place u x) (hv : place v y) (hw : place w z) :
    ExactlyOne (S.Less u v) (u.rawEq v = true) (S.Less v u) ∧ (S.LessEq u v ↔ ¬ S.Less v u) ∧
      (S.Less u v → S.Less v w → S.Less u w) := by
  rw [(hanswers hu hv).less_iff, (hanswers hv hu).less_iff, (hanswers hv hw).less_iff,
    (hanswers hu hw).less_iff, (hanswers hu hv).lessEq_iff, (hanswers hu hv).rawEq]
  refine ⟨?_, Iff.rfl, htrans x y z⟩
  by_cases hxy : r x y
  · refine Or.inl ⟨hxy, ?_, fun hyx => hirrefl x (htrans x y x hxy hyx)⟩
    rintro rfl
    exact hirrefl x hxy
  · by_cases hyx : r y x
    · refine Or.inr (Or.inr ⟨hxy, ?_, hyx⟩)
      rintro rfl
      exact hirrefl x hyx
    · exact Or.inr (Or.inl ⟨hxy, htotal x y hxy hyx, hyx⟩)

/-- A number other than NaN, by its exact value. -/
def HasValue (u : Value) (a : Extended) : Prop := ∃ m, u = .number m ∧ m.value? = some a

/-- A stored string, by its bytes. -/
def HasBytes (S : Store β) (u : Value) (b : Bytes) : Prop :=
  ∃ h, u = .string h ∧ S.strings.get? h = some b

lemma answers_of_hasValue {a b : Extended} (hu : HasValue u a) (hv : HasValue v b) :
    S.Answers u v (a < b) (¬ b < a) (a = b) := by
  obtain ⟨m, rfl, hm⟩ := hu
  obtain ⟨n, rfl, hn⟩ := hv
  exact (S.answers_number m n).congr (Number.compares_iff hm hn)
    ((Number.compares_iff hm hn).trans not_lt.symm) (Number.compares_iff hm hn)

lemma answers_of_hasBytes (hS : S.strings.WellFormed) {b c : Bytes} (hu : S.HasBytes u b)
    (hv : S.HasBytes v c) :
    S.Answers u v (List.Lex (· < ·) b c) (¬ List.Lex (· < ·) c b) (b = c) := by
  obtain ⟨g, rfl, hg⟩ := hu
  obtain ⟨h, rfl, hh⟩ := hv
  exact (answers_string hS hg hh).congr Iff.rfl Bytes.not_lex_iff.symm Iff.rfl

/-- A value with a place has it on the scale of the numbers, or on that of the strings. -/
lemma Ranked.cases (h : S.Ranked u) :
    (u.kind = .number ∧ ∃ a, HasValue u a) ∨ (u.kind = .string ∧ ∃ b, S.HasBytes u b) := by
  cases u with
  | number m =>
    obtain ⟨a, ha⟩ := Option.ne_none_iff_exists'.1 h
    exact Or.inl ⟨rfl, a, m, rfl, ha⟩
  | string h' =>
    obtain ⟨b, hb⟩ := Interner.contains_iff.1 h
    exact Or.inr ⟨rfl, b, h', rfl, hb⟩
  | _ => exact h.elim

/-- **Comparison is exact.**  Two numbers compare as their exact values, integers and doubles alike, and
a NaN with nothing; two stored strings compare as their bytes.  So of two numbers other than NaN, or of
two strings, exactly one is less or they are equal, less or equal is the opposite of greater, and less is
transitive. -/
theorem comparison_exact (S : Store β) (ops : List Interner.Op) :
    let T : Store β := { S with strings := Interner.empty.run ops }
    (∀ m n : Number, T.Answers (.number m) (.number n) (m.Compares (· < ·) n)
      (m.Compares (· ≤ ·) n) (m.Compares (· = ·) n)) ∧
    (∀ g h b c, T.strings.get? g = some b → T.strings.get? h = some c →
      T.Answers (.string g) (.string h) (List.Lex (· < ·) b c) (b = c ∨ List.Lex (· < ·) b c)
        (b = c)) ∧
    ∀ u v w, T.Ranked u → T.Ranked v → T.Ranked w → u.kind = v.kind → v.kind = w.kind →
      ExactlyOne (T.Less u v) (u.rawEq v = true) (T.Less v u) ∧ (T.LessEq u v ↔ ¬ T.Less v u) ∧
        (T.Less u v → T.Less v w → T.Less u w) := by
  intro T
  have hT : T.strings.WellFormed := Interner.wellFormed_empty.run ops
  refine ⟨T.answers_number, fun g h b c => answers_string hT, ?_⟩
  intro u v w hu hv hw huv hvw
  rcases hu.cases with ⟨hk, a, ha⟩ | ⟨hk, a, ha⟩ <;>
    rcases hv.cases with ⟨hk', b, hb⟩ | ⟨hk', b, hb⟩ <;>
    rcases hw.cases with ⟨hk'', c, hc⟩ | ⟨hk'', c, hc⟩ <;>
    simp only [hk, hk', hk'', reduceCtorEq] at huv hvw
  · exact laws_of_scale lt_irrefl (fun _ _ _ => lt_trans)
      (fun _ _ h h' => le_antisymm (not_lt.1 h') (not_lt.1 h)) answers_of_hasValue ha hb hc
  · have htotal : ∀ b c : Bytes, ¬ b < c → ¬ c < b → b = c :=
      Std.Trichotomous.trichotomous (r := fun b c : Bytes => b < c)
    exact laws_of_scale (fun _ => Std.lt_irrefl (α := Bytes)) (fun _ _ _ => Std.lt_trans (α := Bytes))
      htotal (answers_of_hasBytes hT) ha hb hc

-- around the integers that no double is equal to, and at the ends of the words
example :
    (Number.float ⟨0x4340000000000000⟩).lt (.int 9007199254740993) = true ∧
      (Number.int 9007199254740993).lt (.float ⟨0x4340000000000001⟩) = true ∧
      (Number.int Int64.maxValue).lt (.float ⟨0x43e0000000000000⟩) = true ∧
      (Number.int Int64.minValue).eq (.float ⟨0xc3e0000000000000⟩) = true := by
  decide +kernel

end Store

end LuaCore
