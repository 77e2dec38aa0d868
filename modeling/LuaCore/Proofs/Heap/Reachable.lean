import LuaCore.Heap.Collect
import LuaCore.Proofs.Interner

/-!
Reachability.

A heap is closed if whatever its objects store is itself stored.  What the roots reach is defined from
the objects alone: from an object one comes to what it stores, except through the weak sides of the
entries of a table, and to the value behind a weak key only once its key is reached.  Which sides are
weak is said by the metatable of the table, in a string under `__mode`; a collection reads the same.
-/

namespace LuaCore

/-- Whether a value refers to something that is stored, in the heap or in the interner. -/
def Value.isReference : Value → Bool
  | .string _ => true
  | v => v.isCollectable

lemma Value.isReference_of_isCollectable {v : Value} (hv : v.isCollectable = true) :
    v.isReference = true := by
  cases v <;> simp_all [isReference]

/-- What a table stores: its metatable, and the keys and values of its entries. -/
def Table.stored (t : Table) : List Value :=
  t.metatable.toList.map Value.table ++ t.entries.flatMap fun (k, v) => [k, v]

/-- What a userdata stores: its metatable, and its user value. -/
def Userdata.stored (u : Userdata) : List Value :=
  u.metatable.toList.map Value.table ++ [u.userValue]

namespace Heap

variable {β : Type} {heap heap' : Heap β} {strings strings' : Interner} {roots : List Value}
  {v w : Value} {h : Handle}

/-- What the object of a value stores. -/
def stored (heap : Heap β) : Value → List Value
  | .table h => ((heap.tables.get? h).map Table.stored).getD []
  | .function h => ((heap.functions.get? h).map Function.captures).getD []
  | .userdata h => ((heap.userdata.get? h).map Userdata.stored).getD []
  | .thread h => ((heap.threads.get? h).map fun t => [t.body]).getD []
  | _ => []

/-- **A closed heap**: everything that an object stores is live. -/
def Closed (heap : Heap β) (strings : Interner) : Prop :=
  ∀ v, ∀ w ∈ heap.stored v, heap.isLive strings w = true

/-- It is enough to look at the objects there are. -/
lemma closed_iff :
    heap.Closed strings ↔
      (∀ e ∈ heap.tables.entries, ∀ w ∈ e.2.stored, heap.isLive strings w = true) ∧
      (∀ e ∈ heap.functions.entries, ∀ w ∈ e.2.captures, heap.isLive strings w = true) ∧
      (∀ e ∈ heap.userdata.entries, ∀ w ∈ e.2.stored, heap.isLive strings w = true) ∧
      ∀ e ∈ heap.threads.entries, heap.isLive strings e.2.body = true := by
  have hget : ∀ {α : Type} (a : Arena α) (f : α → List Value),
      (∀ e ∈ a.entries, ∀ w ∈ f e.2, heap.isLive strings w = true) ↔
        ∀ h, ∀ w ∈ ((a.get? h).map f).getD [], heap.isLive strings w = true := by
    intro α a f
    constructor
    · intro he h w hw
      cases hh : a.get? h with
      | none => simp [hh] at hw
      | some o => exact he (h, o) (Arena.mem_entries_iff.2 hh) w (by simpa [hh] using hw)
    · rintro ha ⟨h, o⟩ he w hw
      exact ha h w (by simpa [Arena.mem_entries_iff.1 he] using hw)
  have hbody := hget heap.threads fun t => [t.body]
  simp only [List.mem_singleton, forall_eq] at hbody
  rw [hget heap.tables, hget heap.functions, hget heap.userdata, hbody]
  constructor
  · intro hc
    exact ⟨fun h => hc (.table h), fun h => hc (.function h), fun h => hc (.userdata h),
      fun h => hc (.thread h)⟩
  · rintro ⟨ht, hf, hu, hth⟩ v
    cases v with
    | table h => exact ht h
    | function h => exact hf h
    | userdata h => exact hu h
    | thread h => exact hth h
    | _ => intro w hw; simp [stored] at hw

instance : Decidable (heap.Closed strings) := decidable_of_iff _ closed_iff.symm

/-- **The text of a mode**: the bytes of the string that the metatable of a table holds under the
string `__mode`. -/
def modeText? (heap : Heap β) (strings : Interner) (t : Table) : Option Bytes :=
  (strings.find? (Bytes.ofString "__mode")).bind fun name =>
    (t.metatable.bind heap.tables.get?).bind fun mt =>
      match mt.get (.string name) with
      | .string s => strings.get? s
      | _ => none

/-- **The mode that a table's metatable declares**: keys are weak if its text holds a `k`, and values
if it holds a `v`. -/
def modeOf (heap : Heap β) (strings : Interner) (t : Table) : WeakMode where
  keys := (heap.modeText? strings t).any (·.contains 'k'.toUInt8)
  values := (heap.modeText? strings t).any (·.contains 'v'.toUInt8)

/-- **What the roots reach.** -/
inductive Reachable (heap : Heap β) (strings : Interner) (roots : List Value) : Value → Prop where
  | root {v : Value} : v ∈ roots → heap.isLive strings v = true → Reachable heap strings roots v
  | metatable {h mt : Handle} {t : Table} :
      Reachable heap strings roots (.table h) → heap.tables.get? h = some t →
      t.metatable = some mt → Reachable heap strings roots (.table mt)
  | userMetatable {h mt : Handle} {u : Userdata} :
      Reachable heap strings roots (.userdata h) → heap.userdata.get? h = some u →
      u.metatable = some mt → Reachable heap strings roots (.table mt)
  | userValue {h : Handle} {u : Userdata} :
      Reachable heap strings roots (.userdata h) → heap.userdata.get? h = some u →
      Reachable heap strings roots u.userValue
  | body {h : Handle} {t : Thread} :
      Reachable heap strings roots (.thread h) → heap.threads.get? h = some t →
      Reachable heap strings roots t.body
  | capture {h : Handle} {f : Function β} {v : Value} :
      Reachable heap strings roots (.function h) → heap.functions.get? h = some f →
      v ∈ f.captures → Reachable heap strings roots v
  /-- A key, unless keys are weak and it is collectable. -/
  | key {h : Handle} {t : Table} {k v : Value} :
      Reachable heap strings roots (.table h) → heap.tables.get? h = some t → (k, v) ∈ t.entries →
      (heap.modeOf strings t).keys = false ∨ k.isCollectable = false →
      Reachable heap strings roots k
  /-- A value, unless values are weak and it is collectable, or its key may go. -/
  | value {h : Handle} {t : Table} {k v : Value} :
      Reachable heap strings roots (.table h) → heap.tables.get? h = some t → (k, v) ∈ t.entries →
      (heap.modeOf strings t).keys = false ∨ k.isCollectable = false →
      (heap.modeOf strings t).values = false ∨ v.isCollectable = false →
      Reachable heap strings roots v
  /-- A value behind a key that is reached. -/
  | behindKey {h : Handle} {t : Table} {k v : Value} :
      Reachable heap strings roots (.table h) → heap.tables.get? h = some t → (k, v) ∈ t.entries →
      Reachable heap strings roots k →
      (heap.modeOf strings t).values = false ∨ v.isCollectable = false →
      Reachable heap strings roots v

/-! ### Modes -/

/-- The text that a collection reads, given the name that it finds. -/
lemma modeText?_eq {name : Handle} {t : Table}
    (hname : strings.find? (Bytes.ofString "__mode") = some name) :
    heap.modeText? strings t = (heap.modeString? name t).bind strings.get? := by
  rw [modeText?, hname, Option.bind_some]
  unfold modeString?
  cases t.metatable.bind heap.tables.get? with
  | none => rfl
  | some mt =>
    have hget : mt.get (.string name) = mt.getName name := rfl
    rw [Option.bind_some, hget]
    dsimp only
    cases mt.getName name <;> rfl

lemma modeText?_eq_some_iff {t : Table} {b : Bytes} :
    heap.modeText? strings t = some b ↔
      ∃ name s, strings.find? (Bytes.ofString "__mode") = some name ∧
        heap.modeString? name t = some s ∧ strings.get? s = some b := by
  constructor
  · intro hb
    cases hname : strings.find? (Bytes.ofString "__mode") with
    | none =>
      rw [modeText?, hname] at hb
      cases hb
    | some name =>
      rw [modeText?_eq hname] at hb
      obtain ⟨s, hs, hb⟩ := Option.bind_eq_some_iff.1 hb
      exact ⟨name, s, rfl, hs, hb⟩
  · rintro ⟨name, s, hname, hs, hb⟩
    rw [modeText?_eq hname, hs]
    exact hb

/-- **A collection reads the mode that is declared.** -/
lemma declaredMode_eq_modeOf {name : Handle}
    (hname : strings.find? (Bytes.ofString "__mode") = some name) (t : Table) :
    heap.declaredMode strings name t = heap.modeOf strings t := by
  rw [declaredMode, ← modeText?_eq hname]
  unfold modeOf
  cases heap.modeText? strings t <;> rfl

/-- Where there is no text, nothing is weak. -/
lemma modeOf_eq_strong {t : Table} (hnone : heap.modeText? strings t = none) :
    heap.modeOf strings t = .strong := by
  unfold modeOf
  rw [hnone]
  rfl

/-! ### References -/

/-- The heap with every table under the mode that its metatable declares. -/
def withModes (heap : Heap β) (strings : Interner) : Heap β :=
  { heap with tables := heap.tables.map fun t => { t with weakMode := heap.modeOf strings t } }

lemma mem_tableReferences {t : Table} :
    w ∈ tableReferences t ↔
      (∃ mt, t.metatable = some mt ∧ w = .table mt) ∨
      ∃ k v, (k, v) ∈ t.entries ∧ (t.weakMode.keys = false ∨ k.isCollectable = false) ∧
        (w = k ∨ w = v ∧ (t.weakMode.values = false ∨ v.isCollectable = false)) := by
  unfold tableReferences
  rw [List.mem_append]
  refine or_congr ?_ ?_
  · cases t.metatable <;> simp
  · simp only [List.mem_flatMap, Prod.exists, List.mem_append]
    refine exists_congr fun k => exists_congr fun v => and_congr_right fun _ => ?_
    cases t.weakMode.keys <;> cases k.isCollectable <;> cases t.weakMode.values <;>
      cases v.isCollectable <;> simp

lemma mem_stored_table {t : Table} :
    w ∈ t.stored ↔ (∃ mt, t.metatable = some mt ∧ w = .table mt) ∨
      ∃ k v, (k, v) ∈ t.entries ∧ (w = k ∨ w = v) := by
  simp only [Table.stored, List.mem_append, List.mem_map, Option.mem_toList, List.mem_flatMap,
    Prod.exists, List.mem_cons, List.not_mem_nil, or_false, eq_comm]

/-- What an object keeps alive by itself is among what it stores. -/
lemma mem_stored_of_mem_references (hw : w ∈ heap.references v) : w ∈ heap.stored v := by
  cases v with
  | table h =>
    cases ht : heap.tables.get? h with
    | none => simp [references, ht] at hw
    | some t =>
      simp only [references, stored, ht, Option.map_some, Option.getD_some] at hw ⊢
      rcases mem_tableReferences.1 hw with hmt | ⟨k, v, hkv, -, hw⟩
      · exact mem_stored_table.2 (Or.inl hmt)
      · exact mem_stored_table.2 (Or.inr ⟨k, v, hkv, hw.imp_right And.left⟩)
  | userdata h =>
    cases hu : heap.userdata.get? h with
    | none => simp [references, hu] at hw
    | some u => cases hm : u.metatable <;> simp_all [references, stored, Userdata.stored]
  | _ => exact hw

lemma get?_tables_withModes (h : Handle) :
    (heap.withModes strings).tables.get? h =
      (heap.tables.get? h).map fun t => { t with weakMode := heap.modeOf strings t } :=
  Arena.get?_map _

lemma isLive_withModes (v : Value) :
    (heap.withModes strings).isLive strings' v = heap.isLive strings' v := by
  cases v <;> simp [isLive, withModes]

/-- Modes do not change what is stored. -/
lemma stored_withModes (strings : Interner) (v : Value) : (heap.withModes strings).stored v = heap.stored v := by
  cases v with
  | table h =>
    simp only [stored, get?_tables_withModes, Option.map_map]
    rfl
  | _ => rfl

/-- What a reached object keeps alive by itself is reached. -/
lemma Reachable.of_references (hv : heap.Reachable strings roots v)
    (hw : w ∈ (heap.withModes strings).references v) : heap.Reachable strings roots w := by
  cases v with
  | table h =>
    cases ht : heap.tables.get? h with
    | none => simp [references, get?_tables_withModes, ht] at hw
    | some t =>
      simp only [references, get?_tables_withModes, ht, Option.map_some, Option.getD_some] at hw
      rcases mem_tableReferences.1 hw with ⟨mt, hmt, rfl⟩ | ⟨k, v, hkv, hk, rfl | ⟨rfl, hv'⟩⟩
      · exact hv.metatable ht hmt
      · exact hv.key ht hkv hk
      · exact hv.value ht hkv hk hv'
  | function h =>
    cases hf : heap.functions.get? h with
    | none => simp [references, withModes, hf] at hw
    | some f => exact hv.capture hf (by simpa [references, withModes, hf] using hw)
  | userdata h =>
    cases hu : heap.userdata.get? h with
    | none => simp [references, withModes, hu] at hw
    | some u =>
      simp only [references, withModes, hu, List.mem_append, List.mem_singleton] at hw
      rcases hw with hw | rfl
      · cases hm : u.metatable with
        | none => simp [hm] at hw
        | some mt =>
          obtain rfl : w = .table mt := by simpa [hm] using hw
          exact hv.userMetatable hu hm
      · exact hv.userValue hu
  | thread h =>
    cases ht : heap.threads.get? h with
    | none => simp [references, withModes, ht] at hw
    | some t =>
      obtain rfl : w = t.body := by simpa [references, withModes, ht] using hw
      exact hv.body ht
  | _ => simp [references] at hw

/-- **A set that is closed holds everything reached**: it has the live roots, with an object what the
object keeps alive by itself, and with a table and a key the value behind the key. -/
lemma Reachable.mem_of_closed {P : Value → Prop}
    (hroots : ∀ v ∈ roots, heap.isLive strings v = true → P v)
    (hreferences : ∀ v, P v → ∀ w ∈ (heap.withModes strings).references v, P w)
    (hkeys : ∀ h t k v, P (.table h) → (heap.withModes strings).tables.get? h = some t →
      (k, v) ∈ t.entries → t.weakMode.keys = true → k.isCollectable = true → P k →
      t.weakMode.values = false ∨ v.isCollectable = false → P v)
    (hv : heap.Reachable strings roots v) : P v := by
  have htable : ∀ {h t w}, P (.table h) → heap.tables.get? h = some t →
      w ∈ tableReferences { t with weakMode := heap.modeOf strings t } → P w := by
    intro h t w hP ht hw
    exact hreferences _ hP w (by simpa [references, get?_tables_withModes, ht] using hw)
  induction hv with
  | root hmem hlive => exact hroots _ hmem hlive
  | metatable _ ht hmt ih => exact htable ih ht (mem_tableReferences.2 (Or.inl ⟨_, hmt, rfl⟩))
  | userMetatable _ hu hmt ih =>
    exact hreferences _ ih _ (by simp [references, withModes, hu, hmt])
  | userValue _ hu ih => exact hreferences _ ih _ (by simp [references, withModes, hu])
  | body _ ht ih => exact hreferences _ ih _ (by simp [references, withModes, ht])
  | capture _ hf hmem ih => exact hreferences _ ih _ (by simpa [references, withModes, hf] using hmem)
  | key _ ht hkv hk ih =>
    exact htable ih ht (mem_tableReferences.2 (Or.inr ⟨_, _, hkv, hk, Or.inl rfl⟩))
  | value _ ht hkv hk hv ih =>
    exact htable ih ht (mem_tableReferences.2 (Or.inr ⟨_, _, hkv, hk, Or.inr ⟨rfl, hv⟩⟩))
  | @behindKey h t k v _ ht hkv _ hv ih ihk =>
    -- only a collectable key under weak keys makes its value wait
    by_cases hk : (heap.modeOf strings t).keys = false ∨ k.isCollectable = false
    · exact htable ih ht (mem_tableReferences.2 (Or.inr ⟨_, _, hkv, hk, Or.inr ⟨rfl, hv⟩⟩))
    · simp only [not_or, Bool.not_eq_false] at hk
      exact hkeys h { t with weakMode := heap.modeOf strings t } k v ih
        (by rw [get?_tables_withModes, ht]; rfl) hkv hk.1 hk.2 ihk hv

end Heap

end LuaCore
