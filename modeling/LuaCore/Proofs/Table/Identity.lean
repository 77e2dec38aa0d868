import LuaCore.Proofs.Number.Comparison
import LuaCore.Proofs.Table.Border

/-!
Two values address the same entry of a table exactly if they are equal without the events of
metatables.

A value is brought into a normal form to be used as a key, and numbers are compared by their exact
values.  The two agree: the normal form of a number that is equal to a word is this word, and any other
number is a double that no other number is equal to.
-/

namespace LuaCore

/-- Only the two zeros are different doubles of the same value, and they are equal to a word. -/
lemma Double.eq_of_value? {x y : Double} {a : Extended} (hx : x.value? = some a)
    (hy : y.value? = some a) (hword : x.toWord? = none) : x = y := by
  refine eq_of_rank_eq ((value_eq_iff hx hy).1 rfl) fun hzero => ?_
  have hvalue : a = .ofRat (0 : Int64).toInt := (value_eq_iff hx value?_zero).2 hzero
  rw [toWord?_eq_some_iff.2 (hx.trans (congrArg some hvalue))] at hword
  cases hword

namespace Key

variable {m n : Number} {i : Int64} {x : Double} {k : Key}

/-! ### The keys of numbers -/

/-- The key of a number is a word exactly if the number is equal to it. -/
lemma ofNumber?_eq_some_int_iff :
    ofNumber? n = some (.int i) ↔ n.value? = some (.ofRat i.toInt) := by
  cases n with
  | int j => simp [ofNumber?, Number.value?, Int64.toInt_inj]
  | float y =>
    rw [Number.value?, ofNumber?]
    split
    · next hnan => simp [Double.value?_eq_none_iff.2 hnan]
    · rw [← Double.toWord?_eq_some_iff]
      cases y.toWord? <;> simp

/-- The key of a number is a double only if the number is this double. -/
lemma ofNumber?_eq_some_float_iff :
    ofNumber? n = some (.float x) ↔ n = .float x ∧ x.isNaN = false ∧ x.toWord? = none := by
  cases n with
  | int j => simp [ofNumber?]
  | float y =>
    rw [ofNumber?, Number.float.injEq]
    constructor
    · intro h
      split at h
      · cases h
      · next hnan =>
        split at h
        · cases h
        · next hword =>
          cases h
          exact ⟨rfl, by simpa using hnan, hword⟩
    · rintro ⟨rfl, hnan, hword⟩
      simp only [hnan, hword, Bool.false_eq_true, if_false]

lemma ofNumber?_cases (h : ofNumber? n = some k) : (∃ i, k = .int i) ∨ ∃ x, k = .float x := by
  unfold ofNumber? at h
  split at h
  · exact Or.inl ⟨_, (Option.some.inj h).symm⟩
  · split at h
    · cases h
    · split at h
      · exact Or.inl ⟨_, (Option.some.inj h).symm⟩
      · exact Or.inr ⟨_, (Option.some.inj h).symm⟩

/-- **Numbers are equal exactly if they have the same key.** -/
lemma eq_iff_ofNumber? (h : ofNumber? m = some k) : m.eq n = true ↔ ofNumber? n = some k := by
  rw [Number.eq_iff]
  rcases ofNumber?_cases h with ⟨i, rfl⟩ | ⟨x, rfl⟩
  · rw [ofNumber?_eq_some_int_iff] at h ⊢
    constructor
    · rintro ⟨a, _, ha, hb, rfl⟩
      rw [hb, ← ha, h]
    · intro hn
      exact ⟨_, _, h, hn, rfl⟩
  · obtain ⟨rfl, hnan, hword⟩ := ofNumber?_eq_some_float_iff.1 h
    rw [ofNumber?_eq_some_float_iff]
    constructor
    · rintro ⟨a, _, hx, hn, rfl⟩
      refine ⟨?_, hnan, hword⟩
      cases n with
      | int j =>
        -- then the double would be equal to a word
        have hj : x.toWord? = some j := Double.toWord?_eq_some_iff.2 (hx.trans hn.symm)
        rw [hword] at hj
        cases hj
      | float y => rw [Double.eq_of_value? hx hn hword]
    · rintro ⟨rfl, -, -⟩
      obtain ⟨a, ha⟩ := Double.isNaN_eq_false_iff.1 hnan
      exact ⟨a, a, ha, ha, rfl⟩

/-! ### The keys of values -/

/-- **A value is equal to the values with the same key**, and to no other. -/
theorem rawEq_iff_ofValue? {a b : Value} (h : ofValue? a = some k) :
    a.rawEq b = true ↔ ofValue? b = some k := by
  cases a with
  | nil => cases h
  | number m =>
    cases b with
    | number n => exact eq_iff_ofNumber? h
    | _ =>
      rcases ofNumber?_cases h with ⟨i, rfl⟩ | ⟨x, rfl⟩ <;> simp [Value.rawEq, ofValue?]
  | _ =>
    -- what is no number is equal to itself only, and has a key of its own
    cases h
    constructor
    · intro heq
      rw [← beq_iff_eq.1 heq]
      rfl
    · intro hb
      cases b with
      | number n => simpa using ofNumber?_cases hb
      | _ => cases hb <;> exact beq_self_eq_true _

end Key

/-! ### Equality and assignment -/

namespace Value

/-- A value that may be a key: it is neither nil nor NaN. -/
def IsKey (v : Value) : Prop := v ≠ .nil ∧ ∀ x, v = .float x → x.isNaN = false

variable {a b : Value} {k : Key}

lemma IsKey.exists_ofValue? (h : a.IsKey) : ∃ k, Key.ofValue? a = some k := by
  cases a with
  | nil => exact absurd rfl h.1
  | number n =>
    cases n with
    | int i => exact ⟨_, rfl⟩
    | float x =>
      rw [Key.ofValue?, Key.ofNumber?, h.2 x rfl]
      cases x.toWord? <;> exact ⟨_, rfl⟩
  | _ => exact ⟨_, rfl⟩

lemma ofValue?_of_not_isKey (h : ¬a.IsKey) : Key.ofValue? a = none := by
  cases hk : Key.ofValue? a with
  | none => rfl
  | some k =>
    -- what has a key is neither nil nor NaN
    refine absurd ⟨fun hnil => ?_, fun x hx => ?_⟩ h
    · subst hnil
      cases hk
    · subst hx
      cases hnan : x.isNaN with
      | false => rfl
      | true =>
        rw [Key.ofValue?, Key.ofNumber?, if_pos hnan] at hk
        cases hk

/-- Keys make equality an equivalence. -/
lemma equivalence_rawEq : Equivalence fun a b : { v : Value // v.IsKey } => a.1.rawEq b.1 = true := by
  have hiff : ∀ a b : { v : Value // v.IsKey },
      a.1.rawEq b.1 = true ↔ Key.ofValue? a.1 = Key.ofValue? b.1 := by
    intro a b
    obtain ⟨k, hk⟩ := a.2.exists_ofValue?
    rw [Key.rawEq_iff_ofValue? hk, hk, eq_comm]
  simp only [hiff]
  exact ⟨fun _ => rfl, Eq.symm, Eq.trans⟩

end Value

namespace Table

variable {t : Table} {a b v : Value}

/-- An assignment changes the values under what is equal to the key, and no other. -/
lemma WellFormed.get_set (h : t.WellFormed) (ha : a.IsKey) (v : Value) :
    ∃ u, t.set a v = .ok u ∧ ∀ b, u.get b = if a.rawEq b = true then v else t.get b := by
  obtain ⟨k, hk⟩ := ha.exists_ofValue?
  refine ⟨t.setKey k v, by rw [Table.set, hk], fun b => ?_⟩
  simp only [Key.rawEq_iff_ofValue? hk]
  unfold Table.get
  cases hb : Key.ofValue? b with
  | none => rw [if_neg (by simp)]
  | some j =>
    simp only [Option.some_inj]
    exact h.getKey_setKey (Key.isNormal_of_ofValue? hk) j

end Table

/-- **Keys are values up to equality.**  Values that are neither nil nor NaN have keys, and have the
same key exactly if they are equal; the value that a key stands for is equal to the values it is the
key of, and has this key itself.  So equality of such values is an equivalence, and an assignment to a
table changes the values under what is equal to the key, and no other. -/
theorem Key.identity :
    (∀ a b : Value, a.IsKey → b.IsKey → ∃ j k, Key.ofValue? a = some j ∧ Key.ofValue? b = some k ∧
      (j = k ↔ a.rawEq b = true)) ∧
    (∀ a : Value, a.IsKey → ∃ k, Key.ofValue? a = some k ∧ k.toValue.rawEq a = true ∧
      Key.ofValue? k.toValue = some k) ∧
    (Equivalence fun a b : { v : Value // v.IsKey } => a.1.rawEq b.1 = true) ∧
    ∀ t : Table, t.Built → ∀ a v : Value, a.IsKey →
      ∃ u, t.set a v = .ok u ∧ ∀ b, u.get b = if a.rawEq b = true then v else t.get b := by
  refine ⟨fun a b ha hb => ?_, fun a ha => ?_, Value.equivalence_rawEq, fun t ht a v ha => ?_⟩
  · obtain ⟨j, hj⟩ := ha.exists_ofValue?
    obtain ⟨k, hk⟩ := hb.exists_ofValue?
    refine ⟨j, k, hj, hk, ?_⟩
    rw [Key.rawEq_iff_ofValue? hj, hk, Option.some_inj, eq_comm]
  · obtain ⟨k, hk⟩ := ha.exists_ofValue?
    have hnormal := Key.isNormal_of_ofValue? hk
    exact ⟨k, hk, (Key.rawEq_iff_ofValue? hnormal).2 hk, hnormal⟩
  · exact ht.wellFormed.get_set ha v

-- minus zero has the key of a word, and the double behind the largest word has not
example :
    Key.ofValue? (.float ⟨0x8000000000000000⟩) = some (.int 0) ∧
      Key.ofValue? (.float ⟨0x43e0000000000000⟩) = some (.float ⟨0x43e0000000000000⟩) := by
  decide +kernel

end LuaCore
