import LuaCore.Proofs.Table.Border

/-!
Traversals during which entries are overwritten.

An assignment of a value under a key that has one replaces a value where it stands, in the array part
or in the hash part: no entry moves, and no tombstone comes or goes.  So the table keeps its outline,
that is, which slots there are and which of them hold nil, and a traversal goes through all keys in the
order in which they were listed at the start.
-/

namespace LuaCore

namespace Table

variable {t u w : Table} {k : Key} {v x : Value} {n : Nat}

/-! ### Overwriting -/

/-- One table comes from another by the assignment of a value under a key that has one. -/
inductive Overwrites (t : Table) : Table → Prop where
  | set {x v : Value} {u : Table} (hx : t.get x ≠ .nil) (hv : v ≠ .nil) (hu : t.set x v = .ok u) :
      Overwrites t u
  | setAt {i : Int64} {v : Value} (hi : t.getAt i ≠ .nil) (hv : v ≠ .nil) : Overwrites t (t.setAt i v)
  | setName {s : Handle} {v : Value} (hs : t.getName s ≠ .nil) (hv : v ≠ .nil) :
      Overwrites t (t.setName s v)

lemma Overwrites.exists_setKey (h : t.Overwrites u) :
    ∃ k v, k.IsNormal ∧ t.getKey k ≠ .nil ∧ v ≠ .nil ∧ u = t.setKey k v := by
  cases h with
  | @set x v _ hx hv hu =>
    rw [Table.get] at hx
    rw [Table.set] at hu
    cases hk : Key.ofValue? x with
    | none => rw [hk] at hx; exact absurd rfl hx
    | some k =>
      rw [hk] at hx hu
      exact ⟨k, v, Key.isNormal_of_ofValue? hk, hx, hv, (Except.ok.inj hu).symm⟩
  | @setAt i v hi hv => exact ⟨.int i, v, rfl, hi, hv, rfl⟩
  | @setName s v hs hv => exact ⟨.string s, v, rfl, hs, hv, rfl⟩

/-- An entry of the hash part is replaced where it stands. -/
lemma hashSet_of_live (hk : t.hashGet k ≠ .nil) (hv : v ≠ .nil) :
    t.hashSet k v = { t with hash := t.hash.insert k v } := by
  unfold hashGet at hk
  unfold hashSet
  cases hf : t.hash.find? k with
  | none => rw [hf] at hk; exact absurd rfl hk
  | some old =>
    have hold : old ≠ .nil := by rwa [hf] at hk
    have hcount : recount t.tombstones old v = t.tombstones := by
      rw [recount, Value.isNil_eq_false_iff.2 hold, Value.isNil_eq_false_iff.2 hv]
    simp only [hcount]

/-- **What overwriting does**: it replaces a value in the array part, or else one in the hash part. -/
lemma WellFormed.setKey_of_live (h : t.WellFormed) (hk : t.getKey k ≠ .nil) (hv : v ≠ .nil) :
    (∃ p < t.array.size, t.array.getD p .nil ≠ .nil ∧
      t.setKey k v = { t with array := t.array.setIfInBounds p v }) ∨
    t.hashGet k ≠ .nil ∧ t.setKey k v = { t with hash := t.hash.insert k v } := by
  cases k with
  | int i =>
    rw [getKey, getAt] at hk
    rw [Table.setKey, Table.setAt]
    cases hi : t.arrayIndex? i with
    | some p =>
      rw [hi] at hk
      refine Or.inl ⟨p, (arrayIndex?_eq_some_iff.1 hi).1, hk, ?_⟩
      simp only [Value.isNil_eq_false_iff.2 hv, Bool.false_and, Bool.false_eq_true, if_false]
    | none =>
      rw [hi] at hk
      have hne : i.toInt ≠ t.array.size + 1 := fun he => hk (h.vacant i he)
      refine Or.inr ⟨hk, ?_⟩
      simp only [hne, decide_false, Bool.false_and, Bool.false_eq_true, if_false]
      exact hashSet_of_live hk hv
  | _ => exact Or.inr ⟨hk, hashSet_of_live hk hv⟩

/-! ### The outline of a table -/

/-- A slot without its value, but with whether it holds nil. -/
def shade (e : Key × Value) : Key × Bool := (e.1, e.2.isNil)

/-- Two tables have the same slots, and the same of them hold nil. -/
structure SameOutline (t u : Table) : Prop where
  array_eq : u.array.map Value.isNil = t.array.map Value.isNil
  hash_eq : u.hash.entries.map shade = t.hash.entries.map shade
  tombstones_eq : u.tombstones = t.tombstones

lemma SameOutline.refl (t : Table) : t.SameOutline t := ⟨rfl, rfl, rfl⟩

lemma SameOutline.trans (h : t.SameOutline u) (h' : u.SameOutline w) : t.SameOutline w :=
  ⟨h'.array_eq.trans h.array_eq, h'.hash_eq.trans h.hash_eq, h'.tombstones_eq.trans h.tombstones_eq⟩

lemma map_isNil_set {a : Array Value} {p : Nat} (hp : p < a.size) (hold : a.getD p .nil ≠ .nil)
    (hv : v ≠ .nil) : (a.setIfInBounds p v).map Value.isNil = a.map Value.isNil := by
  refine Array.ext (by simp) fun q hq _ => ?_
  rw [Array.getElem_map, Array.getElem_map, Array.getElem_setIfInBounds]
  split
  · next hpq =>
    subst hpq
    rw [Array.getD_eq_getD_getElem?, Array.getElem?_eq_getElem hp] at hold
    exact (Value.isNil_eq_false_iff.2 hv).trans (Value.isNil_eq_false_iff.2 hold).symm
  · rfl

lemma map_shade_insert {m : OrderedMap Key Value} {old : Value} (hm : m.keys.Nodup)
    (hk : m.find? k = some old) (hold : old ≠ .nil) (hv : v ≠ .nil) :
    (m.insert k v).entries.map shade = m.entries.map shade := by
  rw [OrderedMap.entries_insert_of_mem (OrderedMap.mem_keys_of_find? hk), List.map_map]
  refine List.map_congr_left fun e he => ?_
  rw [Function.comp]
  split
  · next hek =>
    -- the key has one entry only
    subst hek
    have hfind := (OrderedMap.find?_eq_some_iff hm).2 he
    obtain rfl : e.2 = old := Option.some.inj (hfind.symm.trans hk)
    rw [shade, shade, Value.isNil_eq_false_iff.2 hv, Value.isNil_eq_false_iff.2 hold]
  · rfl

/-- Overwriting keeps the outline. -/
lemma WellFormed.sameOutline_setKey (h : t.WellFormed) (hk : t.getKey k ≠ .nil) (hv : v ≠ .nil) :
    t.SameOutline (t.setKey k v) := by
  rcases h.setKey_of_live hk hv with ⟨p, hp, hold, heq⟩ | ⟨hold, heq⟩
  · rw [heq]
    exact ⟨map_isNil_set hp hold hv, rfl, rfl⟩
  · obtain ⟨old, hfind⟩ : ∃ old, t.hash.find? k = some old :=
      Option.ne_none_iff_exists'.1 fun hnone => hold (by rw [hashGet, hnone]; rfl)
    rw [hashGet_of_find? hfind] at hold
    rw [heq]
    exact ⟨rfl, map_shade_insert h.nodup hfind hold hv, rfl⟩

lemma Overwrites.wellFormed (ho : t.Overwrites u) (h : t.WellFormed) : u.WellFormed := by
  obtain ⟨k, v, hnormal, -, -, rfl⟩ := ho.exists_setKey
  exact h.setKey hnormal

lemma Overwrites.sameOutline (ho : t.Overwrites u) (h : t.WellFormed) : t.SameOutline u := by
  obtain ⟨k, v, -, hk, hv, rfl⟩ := ho.exists_setKey
  exact h.sameOutline_setKey hk hv

/-! ### What the outline tells -/

lemma SameOutline.size_eq (h : t.SameOutline u) : u.array.size = t.array.size := by
  simpa using congrArg Array.size h.array_eq

lemma SameOutline.keys_eq (h : t.SameOutline u) : u.hash.keys = t.hash.keys := by
  have hmap := congrArg (List.map Prod.fst) h.hash_eq
  rwa [List.map_map, List.map_map] at hmap

lemma SameOutline.map_shade_slots (h : t.SameOutline u) (n : Nat) :
    (u.slots n).map shade = (t.slots n).map shade := by
  have hgetD : ∀ (a : Array Value) (p : Nat),
      (a.getD p .nil).isNil = (a.map Value.isNil)[p]?.getD true := by
    intro a p
    rw [Array.getD_eq_getD_getElem?, Array.getElem?_map]
    cases a[p]? <;> rfl
  rw [slots, slots, List.map_append, List.map_append, h.hash_eq, List.map_map, List.map_map]
  refine congrArg (· ++ _) (List.map_congr_left fun p _ => ?_)
  simp only [Function.comp, shade, hgetD, h.array_eq]

/-- The keys of the entries are the keys of the slots that do not hold nil. -/
lemma map_fst_entries (t : Table) : t.entries.map Prod.fst =
    ((t.slots t.array.size).map shade).filterMap fun s => if s.2 then none else some s.1.toValue := by
  rw [entries_eq (Nat.le_refl _), List.map_filterMap, List.filterMap_map]
  refine List.filterMap_congr fun e _ => ?_
  exact apply_ite (Option.map Prod.fst) _ _ _

/-- **Tables of the same outline list the same keys.** -/
lemma SameOutline.map_fst_entries (h : t.SameOutline u) :
    u.entries.map Prod.fst = t.entries.map Prod.fst := by
  rw [Table.map_fst_entries, Table.map_fst_entries, h.size_eq, h.map_shade_slots]

/-- **Two tables whose keys have the same places**, and which list the same keys. -/
structure SamePlaces (t u : Table) : Prop where
  /-- A key has the same place in the array part, or in both tables none. -/
  arrayIndex?_eq : ∀ i, u.arrayIndex? i = t.arrayIndex? i
  /-- So it is with the hash part, tombstones included. -/
  indexOf?_eq : ∀ k, u.hash.indexOf? k = t.hash.indexOf? k
  arrayLen_eq : u.arrayLen = t.arrayLen
  hashSize_eq : u.hash.size = t.hash.size
  tombstones_eq : u.tombstones = t.tombstones
  entries_eq : u.entries.map Prod.fst = t.entries.map Prod.fst

lemma SameOutline.samePlaces (h : t.SameOutline u) (ht : t.WellFormed) : t.SamePlaces u where
  arrayIndex?_eq i := by rw [arrayIndex?, arrayIndex?, h.size_eq]
  indexOf?_eq k := by
    have hu : u.hash.keys.Nodup := h.keys_eq ▸ ht.nodup
    ext p
    rw [OrderedMap.indexOf?_eq_some_iff hu, OrderedMap.indexOf?_eq_some_iff ht.nodup, h.keys_eq]
  arrayLen_eq := h.size_eq
  hashSize_eq := by simpa [OrderedMap.size] using congrArg List.length h.hash_eq
  tombstones_eq := h.tombstones_eq
  entries_eq := h.map_fst_entries

/-! ### The next entry of a table -/

/-- Behind a member of a filtered list comes the first that passes from its place on. -/
lemma exists_getElem?_of_filterMap {α β : Type} {f : α → Option β} {l : List α} {n : Nat} {b : β}
    (h : (l.filterMap f)[n]? = some b) :
    ∃ p a, l[p]? = some a ∧ f a = some b ∧ (l.drop (p + 1)).findSome? f = (l.filterMap f)[n + 1]? := by
  induction l generalizing n with
  | nil => simp at h
  | cons a l ih =>
    cases ha : f a with
    | none =>
      rw [List.filterMap_cons_none ha] at h ⊢
      obtain ⟨p, c, hc, hb, hnext⟩ := ih h
      exact ⟨p + 1, c, hc, hb, hnext⟩
    | some c =>
      rw [List.filterMap_cons_some ha] at h ⊢
      cases n with
      | zero =>
        refine ⟨0, a, rfl, ha.trans h, ?_⟩
        rw [List.drop_succ_cons, List.drop_zero, ← List.head?_filterMap, List.getElem?_cons_succ,
          List.head?_eq_getElem?]
      | succ n =>
        obtain ⟨p, d, hd, hb, hnext⟩ := ih h
        exact ⟨p + 1, d, hd, hb, hnext⟩

lemma next_nil_eq (t : Table) : t.next .nil = .ok t.entries[0]? := by
  rw [next_nil (Nat.le_refl _), firstFrom, List.drop_zero, ← List.head?_filterMap,
    List.head?_eq_getElem?, Table.entries_eq (Nat.le_refl _)]

/-- **Behind an entry comes the one that is listed behind it.** -/
lemma WellFormed.next_eq (h : t.WellFormed) (hx : t.entries[n]? = some (x, v)) :
    t.next x = .ok t.entries[n + 1]? := by
  rw [Table.entries_eq (Nat.le_refl _)] at hx ⊢
  obtain ⟨p, e, he, hentry, hnext⟩ := exists_getElem?_of_filterMap hx
  obtain ⟨hv, hkey⟩ := entryOf?_eq_some_iff.1 hentry
  obtain ⟨rfl, rfl⟩ := Prod.mk.inj hkey
  have hat : t.At [] [] t e.1.toValue (p + 1) :=
    ⟨h.thinned, List.nil_sublist _, Or.inr ⟨p, e.1, e.2, rfl, he, hv, rfl⟩⟩
  rw [hat.next_eq h fun q _ hlt hle => by omega, firstFrom, hnext]

/-! ### Traversals -/

/-- **A traversal with overwriting.**  It has visited entries, and stands at a key in what the table
has become. -/
inductive Rewriting (t : Table) : List (Value × Value) → Table → Value → Prop where
  | start : Rewriting t [] t .nil
  | overwrite {visited : List (Value × Value)} {u w : Table} {x : Value} :
      Rewriting t visited u x → u.Overwrites w → Rewriting t visited w x
  | step {visited : List (Value × Value)} {u : Table} {x y v : Value} :
      Rewriting t visited u x → u.next x = .ok (some (y, v)) →
      Rewriting t (visited ++ [(y, v)]) u y

/-- Where such a traversal stands: the keys that it has visited are the first ones. -/
structure Along (t : Table) (visited : List (Value × Value)) (u : Table) (x : Value) : Prop where
  wellFormed : u.WellFormed
  outline : t.SameOutline u
  passed : visited.map Prod.fst = (t.entries.map Prod.fst).take visited.length
  here : visited = [] ∧ x = .nil ∨
    ∃ n, visited.length = n + 1 ∧ (t.entries.map Prod.fst)[n]? = some x

variable {visited : List (Value × Value)}

/-- From there the next entry is the one behind those visited, as the table lists it now. -/
lemma Along.next_eq (h : t.Along visited u x) : u.next x = .ok u.entries[visited.length]? := by
  rcases h.here with ⟨rfl, rfl⟩ | ⟨n, hn, hx⟩
  · exact next_nil_eq u
  · rw [← h.outline.map_fst_entries, List.getElem?_map, Option.map_eq_some_iff] at hx
    obtain ⟨e, he, rfl⟩ := hx
    rw [hn]
    exact h.wellFormed.next_eq he

lemma Along.step (h : t.Along visited u x) {y : Value} (hnext : u.next x = .ok (some (y, v))) :
    t.Along (visited ++ [(y, v)]) u y := by
  rw [h.next_eq] at hnext
  have hy : (t.entries.map Prod.fst)[visited.length]? = some y := by
    rw [← h.outline.map_fst_entries, List.getElem?_map, Except.ok.inj hnext]
    rfl
  refine ⟨h.wellFormed, h.outline, ?_, Or.inr ⟨visited.length, by simp, hy⟩⟩
  rw [List.map_append, h.passed, List.length_append, List.length_singleton, List.take_add_one, hy]
  rfl

/-- **A traversal goes along the keys listed at the start.** -/
lemma Rewriting.along (ht : t.WellFormed) (h : t.Rewriting visited u x) : t.Along visited u x := by
  induction h with
  | start => exact ⟨ht, .refl t, rfl, Or.inl ⟨rfl, rfl⟩⟩
  | overwrite _ ho ih =>
    exact ⟨ho.wellFormed ih.wellFormed, ih.outline.trans (ho.sameOutline ih.wellFormed), ih.passed,
      ih.here⟩
  | step _ hnext ih => exact ih.step hnext

/-- What a table lists is what it gives. -/
lemma WellFormed.get_of_mem_entries (h : t.WellFormed) (he : (x, v) ∈ t.entries) :
    t.get x = v ∧ v ≠ .nil := by
  obtain ⟨k, rfl, hget, hv⟩ := h.mem_entries_iff.1 he
  refine ⟨?_, hv⟩
  rw [Table.get, h.isNormal_of_getKey (hget.trans_ne hv)]
  exact hget

/-- **Traversal under overwriting.**  Each key is listed once.  Whatever keys with values are assigned
other values between the steps of a traversal, all keys keep their places, and `next` does not fail:
it gives the key listed next at the start, with its value at this time, and the traversal ends when all
these keys have been visited. -/
theorem Built.traversal_exact (h : t.Built) :
    (t.entries.map Prod.fst).Nodup ∧
    ∀ visited u x, t.Rewriting visited u x →
      t.SamePlaces u ∧
      visited.length ≤ t.entries.length ∧
      visited.map Prod.fst = (t.entries.map Prod.fst).take visited.length ∧
      ∃ e, u.next x = .ok e ∧
        e.map Prod.fst = (t.entries.map Prod.fst)[visited.length]? ∧
        (∀ y v, e = some (y, v) → u.get y = v ∧ v ≠ .nil) ∧
        (e = none ↔ visited.map Prod.fst = t.entries.map Prod.fst) := by
  have ht := h.wellFormed
  refine ⟨ht.nodup_entries, fun visited u x hr => ?_⟩
  have ha := hr.along ht
  have hkeys := ha.outline.map_fst_entries
  have hlength : u.entries.length = t.entries.length := by simpa using congrArg List.length hkeys
  have hle : visited.length ≤ t.entries.length := by
    have := congrArg List.length ha.passed
    simp only [List.length_map, List.length_take] at this
    omega
  refine ⟨ha.outline.samePlaces ht, hle, ha.passed, u.entries[visited.length]?, ha.next_eq, ?_, ?_, ?_⟩
  · rw [← hkeys, List.getElem?_map]
  · intro y v he
    exact ha.wellFormed.get_of_mem_entries (List.mem_of_getElem? he)
  · rw [List.getElem?_eq_none_iff, hlength, ha.passed, List.take_eq_self_iff, List.length_map]

/-- A traversal that stands at its first key, when the entry of another one has been overwritten through
a double that is equal to it. -/
theorem traversal_exact_holed :
    holed.Built ∧ holed.Rewriting [(.int 1, .int 10)] (holed.setAt 5 (.int 55)) (.int 1) ∧
      holed.SamePlaces (holed.setAt 5 (.int 55)) := by
  have hr : holed.Rewriting [(.int 1, .int 10)] (holed.setAt 5 (.int 55)) (.int 1) := by
    have hkey : Key.ofValue? (.float ⟨0x4014000000000000⟩) = some (.int 5) := by decide +kernel
    have hget : holed.getKey (.int 5) = .int 50 := by decide +kernel
    refine .overwrite (.step .start ?_)
      (.set (x := .float ⟨0x4014000000000000⟩) (v := .int 55) ?_ ?_ ?_)
    · decide +kernel
    · simp only [Table.get, hkey, hget, ne_eq, reduceCtorEq, not_false_eq_true]
    · decide
    · rw [Table.set, hkey]
      rfl
  exact ⟨built_holed, hr, (built_holed.traversal_exact.2 _ _ _ hr).1⟩

end Table

end LuaCore
