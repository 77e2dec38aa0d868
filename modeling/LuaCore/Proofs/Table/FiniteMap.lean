import LuaCore.Proofs.Table.Entries
import Std.Data.ExtHashMap

/-!
A table is a finite map.

Operations are run on a table and, side by side, on a plain finite map from keys to values.  However
the entries have moved between the parts of the table, and whatever tombstones it has, the two give
the same answers, the same values under all keys, and the same list of bindings.
-/

namespace LuaCore

/-- An operation on a table. -/
inductive TableOp where
  | set (k v : Value)
  | setAt (i : Int64) (v : Value)
  | setName (s : Handle) (v : Value)
  | compact
  | clearWeak (mode : WeakMode) (dead : ObjectTest)

/-- What an operation answers. -/
inductive TableAnswer where
  | done
  | refused (e : Error)
  /-- The number of entries that a clearing took away. -/
  | removed (n : Nat)
deriving DecidableEq, Repr

namespace Table

/-- One operation. -/
def step (t : Table) : TableOp → Table × TableAnswer
  | .set k v =>
    match t.set k v with
    | .ok u => (u, .done)
    | .error e => (t, .refused e)
  | .setAt i v => (t.setAt i v, .done)
  | .setName s v => (t.setName s v, .done)
  | .compact => (t.compact, .done)
  | .clearWeak mode dead =>
    let d := t.deadEntries mode dead.test
    (t.removeDead d, .removed d.size)

/-- Operations one after the other, with their answers. -/
def run (t : Table) : List TableOp → Table × List TableAnswer
  | [] => (t, [])
  | op :: ops =>
    let (u, a) := t.step op
    let (w, as) := u.run ops
    (w, a :: as)

end Table

/-! ### Finite maps -/

/-- A plain finite map from keys to values. -/
abbrev FiniteMap := Std.ExtHashMap Key Value

namespace FiniteMap

/-- The value that a key is bound to; nil if it is not bound. -/
def get (m : FiniteMap) (k : Key) : Value := m[k]?.getD .nil

/-- Binds a key to a value, or unbinds it with nil. -/
def assign (m : FiniteMap) (k : Key) (v : Value) : FiniteMap :=
  if v.isNil then m.erase k else m.insert k v

/-- Whether the weak side of a binding, or one of the two, passes a test. -/
def isDoomed (mode : WeakMode) (dead : ObjectTest) (k : Key) (v : Value) : Bool :=
  mode.keys && dead.test k.toValue || mode.values && dead.test v

/-- One operation. -/
def step (m : FiniteMap) : TableOp → FiniteMap × TableAnswer
  | .set x v =>
    match Key.ofValue? x with
    | some k => (m.assign k v, .done)
    | none => (m, .refused (.runtime (if x.isNil then .nilKey else .nanKey)))
  | .setAt i v => (m.assign (.int i) v, .done)
  | .setName s v => (m.assign (.string s) v, .done)
  | .compact => (m, .done)
  | .clearWeak mode dead =>
    (m.filter fun k v => !isDoomed mode dead k v, .removed (m.filter (isDoomed mode dead)).size)

/-- Operations one after the other, with their answers. -/
def run (m : FiniteMap) : List TableOp → FiniteMap × List TableAnswer
  | [] => (m, [])
  | op :: ops =>
    let (n, a) := m.step op
    let (l, as) := n.run ops
    (l, a :: as)

/-- A map whose keys are listed has as many bindings as the list is long. -/
lemma size_eq_length (m : FiniteMap) {l : List Key} (hl : l.Nodup) (h : ∀ k, k ∈ m ↔ k ∈ l) :
    m.size = l.length := by
  induction l generalizing m with
  | nil =>
    have hempty : m = ∅ := Std.ExtHashMap.ext_getElem? fun k => by
      rw [Std.ExtHashMap.getElem?_eq_none fun hk => List.not_mem_nil ((h k).1 hk),
        Std.ExtHashMap.getElem?_empty]
    rw [hempty]
    rfl
  | cons a l ih =>
    obtain ⟨ha, hl⟩ := List.nodup_cons.1 hl
    have hmem : a ∈ m := (h a).2 (by simp)
    have hrest : (m.erase a).size = l.length := by
      refine ih _ hl fun k => ?_
      rw [Std.ExtHashMap.mem_erase, h k, List.mem_cons]
      constructor
      · rintro ⟨hne, rfl | hk⟩
        · simp at hne
        · exact hk
      · intro hk
        exact ⟨by simpa using fun hak : a = k => ha (hak ▸ hk), Or.inr hk⟩
    have hpos : 0 < m.size := Nat.pos_of_ne_zero fun h0 => by
      rw [Std.ExtHashMap.eq_empty_iff_size_eq_zero.2 h0] at hmem
      exact Std.ExtHashMap.not_mem_empty hmem
    rw [Std.ExtHashMap.size_erase, if_pos hmem] at hrest
    rw [List.length_cons]
    omega

end FiniteMap

/-! ### The simulation -/

namespace Table

variable {t : Table} {m : FiniteMap} {k : Key} {v : Value}

/-- **A table and a map agree**: a key is bound exactly if it has a value, and to that value. -/
structure Refines (t : Table) (m : FiniteMap) : Prop where
  wellFormed : t.WellFormed
  getElem? : ∀ k, m[k]? = if t.getKey k = .nil then none else some (t.getKey k)

lemma refines_empty : empty.Refines ∅ := by
  refine ⟨wellFormed_empty, fun k => ?_⟩
  have hnil : empty.getKey k = .nil := by
    rw [wellFormed_empty.getKey_eq]
    cases k <;> simp [arrayGet, empty, hashGet, OrderedMap.find?_empty]
  rw [if_pos hnil, Std.ExtHashMap.getElem?_empty]

lemma Refines.getKey_eq (h : t.Refines m) (k : Key) : t.getKey k = m.get k := by
  rw [FiniteMap.get, h.getElem?]
  split
  · next hk => exact hk
  · rfl

lemma Refines.getElem?_eq_some_iff (h : t.Refines m) :
    m[k]? = some v ↔ t.getKey k = v ∧ v ≠ .nil := by
  rw [h.getElem?]
  split
  · next hk => simp [hk, eq_comm]
  · next hk => simp only [Option.some_inj]; exact ⟨fun he => ⟨he, he ▸ hk⟩, And.left⟩

/-- Assignments agree. -/
lemma Refines.setKey (h : t.Refines m) (hk : k.IsNormal) (v : Value) :
    (t.setKey k v).Refines (m.assign k v) := by
  refine ⟨h.wellFormed.setKey hk, fun j => ?_⟩
  rw [h.wellFormed.getKey_setKey hk, FiniteMap.assign]
  by_cases hj : j = k
  · subst hj
    by_cases hv : v = .nil <;> simp [hv, Value.isNil]
  · have hkj : (k == j) = false := by simpa using fun he : k = j => hj he.symm
    rw [if_neg hj, ← h.getElem?]
    split
    · rw [Std.ExtHashMap.getElem?_erase, hkj]; rfl
    · rw [Std.ExtHashMap.getElem?_insert, hkj]; rfl

lemma isDeadEntry_eq (mode : WeakMode) (dead : ObjectTest) (hv : v ≠ .nil) :
    isDeadEntry mode dead.test k v = FiniteMap.isDoomed mode dead k v := by
  simp [isDeadEntry, FiniteMap.isDoomed, hv]

/-- The bindings that a clearing of the map takes away are the entries found dead. -/
lemma Refines.mem_filter_isDoomed (h : t.Refines m) (mode : WeakMode) (dead : ObjectTest) :
    k ∈ m.filter (FiniteMap.isDoomed mode dead) ↔
      isDeadEntry mode dead.test k (t.getKey k) = true := by
  rw [Std.ExtHashMap.mem_iff_isSome_getElem?, Std.ExtHashMap.getElem?_filter', h.getElem?]
  by_cases hk : t.getKey k = .nil
  · rw [if_pos hk, hk, isDeadEntry_nil]
    simp
  · rw [if_neg hk, isDeadEntry_eq mode dead hk]
    cases hd : FiniteMap.isDoomed mode dead k (t.getKey k) <;> simp [Option.filter, hd]

/-- Clearings agree, and so do the numbers of what they take away. -/
lemma Refines.clearWeak (h : t.Refines m) (mode : WeakMode) (dead : ObjectTest) :
    (t.deadEntries mode dead.test).size = (m.filter (FiniteMap.isDoomed mode dead)).size ∧
      (t.removeDead (t.deadEntries mode dead.test)).Refines
        (m.filter fun k v => !FiniteMap.isDoomed mode dead k v) := by
  refine ⟨?_, (h.wellFormed.removeDead mode dead.test).1, fun k => ?_⟩
  · rw [FiniteMap.size_eq_length _ (h.wellFormed.nodup_deadKeys mode dead) fun k => by
      rw [h.mem_filter_isDoomed, h.wellFormed.mem_deadKeys_iff]]
    simp [deadKeys, DeadEntries.size]
  · rw [h.wellFormed.getKey_removeDead, Std.ExtHashMap.getElem?_filter', h.getElem?]
    by_cases hk : t.getKey k = .nil
    · simp [hk]
    · rw [if_neg hk, isDeadEntry_eq mode dead hk]
      cases hd : FiniteMap.isDoomed mode dead k (t.getKey k) <;> simp [Option.filter, hd, hk]

/-- One operation gives the same answer on both sides, and they agree again. -/
theorem Refines.step (h : t.Refines m) (op : TableOp) :
    (t.step op).2 = (m.step op).2 ∧ (t.step op).1.Refines (m.step op).1 := by
  cases op with
  | set x v =>
    simp only [Table.step, FiniteMap.step, Table.set]
    cases hx : Key.ofValue? x with
    | some k => exact ⟨rfl, h.setKey (Key.isNormal_of_ofValue? hx) v⟩
    | none => exact ⟨rfl, h⟩
  | setAt i v => exact ⟨rfl, h.setKey (k := .int i) rfl v⟩
  | setName s v => exact ⟨rfl, h.setKey (k := .string s) rfl v⟩
  | compact =>
    refine ⟨rfl, h.wellFormed.compact, fun k => ?_⟩
    rw [show (m.step .compact).1 = m from rfl, h.getElem?]
    simp only [Table.step, h.wellFormed.getKey_compact]
  | clearWeak mode dead =>
    obtain ⟨hsize, href⟩ := h.clearWeak mode dead
    exact ⟨congrArg TableAnswer.removed hsize, href⟩

/-- Whole runs give the same answers on both sides, and they agree in the end. -/
theorem Refines.run (h : t.Refines m) (ops : List TableOp) :
    (t.run ops).2 = (m.run ops).2 ∧ (t.run ops).1.Refines (m.run ops).1 := by
  induction ops generalizing t m with
  | nil => exact ⟨rfl, h⟩
  | cons op ops ih =>
    obtain ⟨hanswer, hnext⟩ := h.step op
    obtain ⟨hanswers, hlast⟩ := ih hnext
    exact ⟨congrArg₂ List.cons hanswer hanswers, hlast⟩

/-- Every table that operations build has the invariant. -/
lemma wellFormed_run (arrayHint hashHint : Nat) (ops : List TableOp) :
    ((new arrayHint hashHint).run ops).1.WellFormed :=
  (refines_empty.run ops).2.wellFormed

/-- **A table is a finite map.**  After any operations, refused ones included, the answers have been
those of a plain finite map, every lookup gives what the map binds the key to, and the entries are the
bindings of the map, each key once. -/
theorem run_eq_finite_map (arrayHint hashHint : Nat) (ops : List TableOp) :
    let t := ((new arrayHint hashHint).run ops).1
    let m := (FiniteMap.run ∅ ops).1
    ((new arrayHint hashHint).run ops).2 = (FiniteMap.run ∅ ops).2 ∧
      (∀ x, t.get x = ((Key.ofValue? x).map m.get).getD .nil) ∧
      (∀ i, t.getAt i = m.get (.int i)) ∧
      (∀ s, t.getName s = m.get (.string s)) ∧
      (t.entries.map Prod.fst).Nodup ∧
      ∀ x v, (x, v) ∈ t.entries ↔ ∃ k, x = k.toValue ∧ Key.ofValue? x = some k ∧ m[k]? = some v := by
  intro t m
  obtain ⟨hanswers, h⟩ : _ ∧ t.Refines m := refines_empty.run ops
  refine ⟨hanswers, fun x => ?_, fun i => h.getKey_eq (.int i), fun s => h.getKey_eq (.string s),
    h.wellFormed.nodup_entries, fun x v => ?_⟩
  · unfold Table.get
    cases Key.ofValue? x with
    | some k => exact h.getKey_eq k
    | none => rfl
  · rw [h.wellFormed.mem_entries_iff]
    constructor
    · rintro ⟨k, rfl, hget, hv⟩
      exact ⟨k, rfl, h.wellFormed.isNormal_of_getKey (hget.trans_ne hv),
        h.getElem?_eq_some_iff.2 ⟨hget, hv⟩⟩
    · rintro ⟨k, rfl, -, hm⟩
      exact ⟨k, rfl, h.getElem?_eq_some_iff.1 hm⟩

end Table

end LuaCore
