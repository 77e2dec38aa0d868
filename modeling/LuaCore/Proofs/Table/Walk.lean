import LuaCore.Proofs.Table.Removal

/-!
Traversals during which entries are removed.

Between the steps of a traversal any keys may be assigned nil.  Seen from the table at the start, that
makes some of its slots hold nil, and moves none.  So a traversal goes forward over the slots, and the
only entries it can lose are those it jumps over: when it stands at a key that has fallen off the end
of the array part, and the hash part has a tombstone of this key from an earlier time, it goes on
behind the tombstone.
-/

namespace LuaCore

namespace Table

variable {t u : Table} {i : Int64} {k : Key} {v : Value} {R : List Key} {p q : Nat}

/-! ### Traversals -/

/-- **A traversal of a table with removals.**  It has visited entries, has assigned nil under some
values, and stands at a key in what is left of the table.  After each visit what is removed may be
restricted by the key visited. -/
inductive Walk (allowed : Value → List Value → Prop) (t : Table) :
    List (Value × Value) → List Value → Table → Value → Prop where
  | start : Walk allowed t [] [] t .nil
  | step {visited : List (Value × Value)} {removed xs : List Value} {u : Table} {x y v : Value} :
      Walk allowed t visited removed u x → u.next x = .ok (some (y, v)) → allowed y xs →
      Walk allowed t (visited ++ [(y, v)]) (removed ++ xs) (u.removeAll xs) y

/-- The hash part has a slot for the key, with an entry before it. -/
def Shadows (t : Table) (k : Key) : Prop :=
  ∃ q, t.hash.indexOf? k = some q ∧ ∃ e ∈ t.hash.entries.take q, e.2 ≠ .nil

/-- Where a traversal stands: it has passed `s` slots of the table at the start, the last of which
was an entry, the one it stands at. -/
structure At (t : Table) (visited : List (Value × Value)) (R : List Key) (u : Table) (x : Value)
    (s : Nat) : Prop where
  thinned : t.Thinned R u
  passed : visited.Sublist (((t.slots t.array.size).take s).filterMap entryOf?)
  here : s = 0 ∧ x = .nil ∨ ∃ p k v, s = p + 1 ∧ (t.slots t.array.size)[p]? = some (k, v) ∧
    v ≠ .nil ∧ x = k.toValue

section At

variable {visited : List (Value × Value)} {x y : Value} {s r : Nat} {xs : List Value}

/-- An entry of the hash part is behind the array part. -/
lemma WellFormed.arrayIndex?_eq_none (h : t.WellFormed) (hmem : (k, v) ∈ t.hash.entries)
    (hv : v ≠ .nil) (hi : k = .int i) : t.arrayIndex? i = none := by
  rw [arrayIndex?_eq_none_iff]
  rintro ⟨h1, hle⟩
  refine hv ?_
  rw [← h.apart i h1 hle, ← hi]
  exact (h.hashGet_of_mem hmem).symm

/-- At a key that has fallen off the array part and has a tombstone, `next` jumps behind it. -/
lemma At.next_jump (ht : t.WellFormed) (h : t.At visited R u x (p + 1)) (hp : p < t.array.size)
    (hsize : u.array.size ≤ p) (hq : t.hash.indexOf? (placeKey p) = some q) :
    u.next x = .ok (firstFrom (u.slots t.array.size) (t.array.size + q + 1)) := by
  have hmax := ht.size_le
  rcases h.here with ⟨h0, -⟩ | ⟨p', k, v, hp', hslot, -, rfl⟩
  · omega
  · obtain rfl : p' = p := by omega
    rw [getElem?_slots_place hp] at hslot
    cases hslot
    refine next_hash _ rfl (fun i hi => ?_) (by rw [h.thinned.indexOf?_eq ht]; exact hq)
    cases hi
    rw [arrayIndex?_eq_none_iff, toInt_ofNat_place (by omega)]
    omega

/-- Unless the tombstone has an entry before it, what is jumped over holds nil. -/
lemma Thinned.nil_of_not_shadows (ht : t.WellFormed) (h : t.Thinned R u) (hp : p < t.array.size)
    (hsize : u.array.size ≤ p) (hq : t.hash.indexOf? (placeKey p) = some q)
    (hfree : ¬ t.Shadows (placeKey p)) {j : Nat} {e : Key × Value} (hj : p + 1 ≤ j)
    (hlt : j < t.array.size + q + 1) (he : (u.slots t.array.size)[j]? = some e) : e.2 = .nil := by
  by_cases hplace : j < t.array.size
  · exact slots_nil_of_le (by omega) hplace he
  · obtain ⟨a, rfl⟩ : ∃ a, j = t.array.size + a := Nat.exists_eq_add_of_le (by omega)
    rw [h.getElem?_slots, getElem?_slots_hash, Option.map_eq_some_iff] at he
    obtain ⟨f, hf, rfl⟩ := he
    have hnil : f.2 = .nil := by
      by_cases haq : a = q
      · -- the tombstone itself
        subst haq
        have hkey := (OrderedMap.indexOf?_eq_some_iff ht.nodup).1 hq
        rw [OrderedMap.keys, List.getElem?_map, hf] at hkey
        have hfind := (OrderedMap.find?_eq_some_iff ht.nodup).2 (List.mem_of_getElem? hf)
        rw [show f.1 = placeKey p from Option.some.inj hkey] at hfind
        have hmax := ht.size_le
        have hi : (Int64.ofNat (p + 1)).toInt = p + 1 := toInt_ofNat_place (by omega)
        rw [← hashGet_of_find? hfind]
        exact ht.apart _ (by omega) (by omega)
      · by_contra hne
        refine hfree ⟨q, hq, f, ?_, hne⟩
        have hlt : a < q := by omega
        exact List.mem_of_getElem? ((List.getElem?_take_of_lt hlt).trans hf)
    rw [blank_eq_of_nil hnil, hnil]

/-- Otherwise it gives the first entry that has not been passed. -/
lemma At.next_eq (ht : t.WellFormed) (h : t.At visited R u x s)
    (hgood : ∀ p, s = p + 1 → p < t.array.size → u.array.size ≤ p → ¬ t.Shadows (placeKey p)) :
    u.next x = .ok (firstFrom (u.slots t.array.size) s) := by
  have hmax := ht.size_le
  rcases h.here with ⟨rfl, rfl⟩ | ⟨p, k, v, rfl, hslot, hv, rfl⟩
  · exact next_nil h.thinned.size_le
  · by_cases hp : p < t.array.size
    · by_cases hsize : p < u.array.size
      · rw [getElem?_slots_place hp] at hslot
        cases hslot
        exact next_place h.thinned.size_le hmax hsize
      · cases hq : t.hash.indexOf? (placeKey p) with
        | none =>
          rw [getElem?_slots_place hp] at hslot
          cases hslot
          exact next_fallen hmax (by omega) hp (by rw [h.thinned.indexOf?_eq ht]; exact hq)
        | some q =>
          rw [h.next_jump ht hp (by omega) hq]
          congr 1
          refine (firstFrom_skip (by omega) fun j e hj hlt he => ?_).symm
          exact h.thinned.nil_of_not_shadows ht hp (by omega) hq (hgood p rfl hp (by omega)) hj hlt he
    · obtain ⟨q, rfl⟩ : ∃ q, p = t.array.size + q := Nat.exists_eq_add_of_le (by omega)
      rw [getElem?_slots_hash] at hslot
      have hmem := List.mem_of_getElem? hslot
      have hindex : u.hash.indexOf? k = some q := by
        rw [h.thinned.indexOf?_eq ht, OrderedMap.indexOf?_eq_some_iff ht.nodup, OrderedMap.keys,
          List.getElem?_map, hslot]
        rfl
      refine next_hash _ (ht.normal k (List.mem_map.2 ⟨_, hmem, rfl⟩)) (fun i hi => ?_) hindex
      have hnone := ht.arrayIndex?_eq_none hmem hv hi
      rw [arrayIndex?_eq_none_iff] at hnone ⊢
      have := h.thinned.size_le
      omega

/-- In any case it goes forward. -/
lemma At.exists_next (ht : t.WellFormed) (h : t.At visited R u x s) :
    ∃ r, s ≤ r ∧ u.next x = .ok (firstFrom (u.slots t.array.size) r) := by
  by_cases hgood : ∀ p, s = p + 1 → p < t.array.size → u.array.size ≤ p → ¬ t.Shadows (placeKey p)
  · exact ⟨s, Nat.le_refl s, h.next_eq ht hgood⟩
  · simp only [not_forall, not_not] at hgood
    obtain ⟨p, rfl, hp, hsize, q, hq, -⟩ := hgood
    exact ⟨_, by omega, h.next_jump ht hp hsize hq⟩

lemma WellFormed.at_start (h : t.WellFormed) : t.At [] [] t .nil 0 :=
  ⟨h.thinned, List.nil_sublist _, Or.inl ⟨rfl, rfl⟩⟩

/-- One step, with what it passes over. -/
lemma At.step (ht : t.WellFormed) (h : t.At visited R u x s) (hsr : s ≤ r)
    (hfirst : firstFrom (u.slots t.array.size) r = some (y, v)) (xs : List Value) :
    ∃ p k, r ≤ p ∧ (t.slots t.array.size)[p]? = some (k, v) ∧ v ≠ .nil ∧ y = k.toValue ∧ k ∉ R ∧
      (∀ j e, r ≤ j → j < p → (u.slots t.array.size)[j]? = some e → e.2 = .nil) ∧
      t.At (visited ++ [(y, v)]) (R ++ keysOf xs) (u.removeAll xs) y (p + 1) := by
  obtain ⟨p, k, hrp, hslot, hv, rfl, hgap⟩ := exists_of_firstFrom hfirst
  rw [h.thinned.getElem?_slots, Option.map_eq_some_iff] at hslot
  obtain ⟨f, hf, hblank⟩ := hslot
  obtain ⟨rfl, hk⟩ := (blank_eq_iff hv).1 hblank
  refine ⟨p, k, hrp, hf, hv, rfl, hk, hgap, h.thinned.removeAll ht xs, ?_,
    Or.inr ⟨p, k, v, rfl, hf, hv, rfl⟩⟩
  rw [List.take_add_one, hf, List.filterMap_append]
  refine List.Sublist.append ?_ ?_
  · refine h.passed.trans (List.Sublist.filterMap _ ?_)
    exact (List.take_prefix_take_left (by omega)).sublist
  · simp [entryOf?, hv]

end At

section Walk

variable {allowed : Value → List Value → Prop} {visited : List (Value × Value)}
  {removed : List Value} {x : Value}

/-- **A traversal goes forward over the slots.** -/
lemma Walk.exists_at (ht : t.WellFormed) (h : t.Walk allowed visited removed u x) :
    ∃ s, t.At visited (keysOf removed) u x s := by
  induction h with
  | start => exact ⟨0, ht.at_start⟩
  | step _ hnext _ ih =>
    obtain ⟨s, hs⟩ := ih
    obtain ⟨r, hsr, hr⟩ := hs.exists_next ht
    rw [hr] at hnext
    obtain ⟨p, k, -, -, -, -, -, -, hat⟩ := hs.step ht hsr (Except.ok.inj hnext) _
    refine ⟨p + 1, ?_⟩
    rw [keysOf_append]
    exact hat

lemma Walk.mono {allowed' : Value → List Value → Prop}
    (hmono : ∀ y xs, allowed y xs → allowed' y xs) (h : t.Walk allowed visited removed u x) :
    t.Walk allowed' visited removed u x := by
  induction h with
  | start => exact .start
  | step _ hnext hxs ih => exact ih.step hnext (hmono _ _ hxs)

/-- What has been visited are entries of the table at the start, in their order. -/
lemma Walk.visited_sublist (ht : t.WellFormed) (h : t.Walk allowed visited removed u x) :
    visited.Sublist t.entries := by
  obtain ⟨s, hs⟩ := h.exists_at ht
  rw [entries_eq (Nat.le_refl _)]
  exact hs.passed.trans ((List.take_sublist s _).filterMap _)

/-- `next` does not fail. -/
lemma Walk.exists_next (ht : t.WellFormed) (h : t.Walk allowed visited removed u x) :
    ∃ e, u.next x = .ok e := by
  obtain ⟨s, hs⟩ := h.exists_at ht
  obtain ⟨r, -, hr⟩ := hs.exists_next ht
  exact ⟨_, hr⟩

/-- A traversal in which something may be removed after every key can be led to its end. -/
lemma Walk.exists_end (ht : t.WellFormed) (htotal : ∀ y, ∃ xs, allowed y xs)
    (h : t.Walk allowed visited removed u x) :
    ∃ visited' removed' u' x', t.Walk allowed visited' removed' u' x' ∧ u'.next x' = .ok none := by
  obtain ⟨m, hm⟩ : ∃ m, t.entries.length = visited.length + m :=
    Nat.exists_eq_add_of_le (h.visited_sublist ht).length_le
  induction m generalizing visited removed u x with
  | zero =>
    obtain ⟨e, he⟩ := h.exists_next ht
    cases e with
    | none => exact ⟨_, _, _, _, h, he⟩
    | some e =>
      obtain ⟨xs, hxs⟩ := htotal e.1
      have hlen := ((h.step (y := e.1) (v := e.2) he hxs).visited_sublist ht).length_le
      simp at hlen
      omega
  | succ m ih =>
    obtain ⟨e, he⟩ := h.exists_next ht
    cases e with
    | none => exact ⟨_, _, _, _, h, he⟩
    | some e =>
      obtain ⟨xs, hxs⟩ := htotal e.1
      exact ih (h.step (y := e.1) (v := e.2) he hxs) (by simp; omega)

/-! ### What is visited -/

/-- A key has a value in one slot only. -/
lemma WellFormed.slot_inj (h : t.WellFormed) {a b : Nat} {w : Value}
    (ha : (t.slots t.array.size)[a]? = some (k, v)) (hv : v ≠ .nil)
    (hb : (t.slots t.array.size)[b]? = some (k, w)) (hw : w ≠ .nil) : a = b := by
  have hmax := h.size_le
  -- no key of a place is a key of the hash part with a value
  have hmixed : ∀ {p q : Nat} {w : Value}, p < t.array.size → t.hash.entries[q]? = some (placeKey p, w) →
      w ≠ .nil → False := by
    intro p q w hp hq hw
    have hnone := h.arrayIndex?_eq_none (List.mem_of_getElem? hq) hw rfl
    rw [arrayIndex?_eq_none_iff, toInt_ofNat_place (by omega)] at hnone
    omega
  by_cases hpa : a < t.array.size
  · rw [getElem?_slots_place hpa] at ha
    cases ha
    by_cases hpb : b < t.array.size
    · rw [getElem?_slots_place hpb, Option.some_inj] at hb
      exact placeKey_inj (by omega) (by omega) (Prod.mk.inj hb).1.symm
    · obtain ⟨q, rfl⟩ : ∃ q, b = t.array.size + q := Nat.exists_eq_add_of_le (by omega)
      rw [getElem?_slots_hash] at hb
      exact (hmixed hpa hb hw).elim
  · obtain ⟨q, rfl⟩ : ∃ q, a = t.array.size + q := Nat.exists_eq_add_of_le (by omega)
    rw [getElem?_slots_hash] at ha
    by_cases hpb : b < t.array.size
    · rw [getElem?_slots_place hpb] at hb
      cases hb
      exact (hmixed hpb ha hv).elim
    · obtain ⟨r, rfl⟩ : ∃ r, b = t.array.size + r := Nat.exists_eq_add_of_le (by omega)
      rw [getElem?_slots_hash] at hb
      have hkeys : ∀ {q w}, t.hash.entries[q]? = some (k, w) → t.hash.indexOf? k = some q := by
        intro q w hq
        rw [OrderedMap.indexOf?_eq_some_iff h.nodup, OrderedMap.keys, List.getElem?_map, hq]
        rfl
      rw [Option.some.inj ((hkeys ha).symm.trans (hkeys hb))]

lemma mem_passed {l : List (Key × Value)} {s : Nat} {e : Value × Value}
    (he : e ∈ (l.take s).filterMap entryOf?) :
    ∃ j k, j < s ∧ l[j]? = some (k, e.2) ∧ e.2 ≠ .nil ∧ e.1 = k.toValue := by
  obtain ⟨⟨k, v⟩, hmem, he⟩ := List.mem_filterMap.1 he
  obtain ⟨hv, rfl⟩ := entryOf?_eq_some_iff.1 he
  obtain ⟨j, hj⟩ := List.getElem?_of_mem hmem
  rw [List.getElem?_take] at hj
  split at hj
  · next hlt => exact ⟨j, k, hlt, hj, hv, rfl⟩
  · simp at hj

/-- What a traversal stands at, when it has come to a place of the array part. -/
lemma At.here_place {s : Nat} (h : t.At visited R u x s) (hs : s = p + 1) (hp : p < t.array.size) :
    x = (placeKey p).toValue ∧ t.array.getD p .nil ≠ .nil := by
  rcases h.here with ⟨h0, -⟩ | ⟨p', k, v, hp', hslot, hv, rfl⟩
  · omega
  · obtain rfl : p' = p := by omega
    rw [getElem?_slots_place hp] at hslot
    cases hslot
    exact ⟨rfl, hv⟩

/-- No traversal falls off the array part at a key that has a tombstone with an entry before it. -/
def NoJump (allowed : Value → List Value → Prop) (t : Table) : Prop :=
  ∀ ⦃visited removed u x p⦄, t.Walk allowed visited removed u x →
    t.At visited (keysOf removed) u x (p + 1) → p < t.array.size → u.array.size ≤ p →
    ¬ t.Shadows (placeKey p)

/-- **If nothing is jumped over, all that is passed is visited or has been removed.** -/
lemma Walk.passed (ht : t.WellFormed) (hgood : NoJump allowed t)
    (h : t.Walk allowed visited removed u x) :
    ∃ s, t.At visited (keysOf removed) u x s ∧ u.next x = .ok (firstFrom (u.slots t.array.size) s) ∧
      ∀ j k v, j < s → (t.slots t.array.size)[j]? = some (k, v) → v ≠ .nil →
        (k.toValue, v) ∈ visited ∨ k ∈ keysOf removed := by
  have hnext : ∀ {visited removed u x s}, t.Walk allowed visited removed u x →
      t.At visited (keysOf removed) u x s → u.next x = .ok (firstFrom (u.slots t.array.size) s) := by
    intro visited removed u x s h hs
    refine hs.next_eq ht fun p hp hlt hsize => ?_
    subst hp
    exact hgood h hs hlt hsize
  induction h with
  | start => exact ⟨0, ht.at_start, hnext .start ht.at_start, fun j k v hj => by omega⟩
  | @step visited removed xs u x y v h hy hxs ih =>
    obtain ⟨s, hs, hfirst, hpassed⟩ := ih
    rw [hfirst] at hy
    obtain ⟨p, k, hsp, hslot, hv, rfl, -, hgap, hat⟩ :=
      hs.step ht (Nat.le_refl s) (Except.ok.inj hy) xs
    rw [← keysOf_append] at hat
    refine ⟨p + 1, hat, hnext (h.step (hfirst.trans hy) hxs) hat, fun j k' v' hj hslot' hv' => ?_⟩
    rw [keysOf_append]
    by_cases hjs : j < s
    · rcases hpassed j k' v' hjs hslot' hv' with hmem | hmem
      · exact Or.inl (List.mem_append_left _ hmem)
      · exact Or.inr (List.mem_append_left _ hmem)
    · by_cases hjp : j = p
      · subst hjp
        rw [hslot] at hslot'
        cases hslot'
        exact Or.inl (by simp)
      · -- it lies between the two entries, so it has been removed
        refine Or.inr (List.mem_append_left _ ?_)
        by_contra hk
        refine hv' (hgap j (k', v') (by omega) (by omega) ?_)
        exact hs.thinned.getElem?_of_not_mem hslot' hk

/-- At the end every entry has been visited or removed. -/
lemma Walk.visited_or_removed (ht : t.WellFormed) (hgood : NoJump allowed t)
    (h : t.Walk allowed visited removed u x) (hend : u.next x = .ok none)
    (hslot : (t.slots t.array.size)[p]? = some (k, v)) (hv : v ≠ .nil) :
    (k.toValue, v) ∈ visited ∨ k ∈ keysOf removed := by
  obtain ⟨s, hs, hfirst, hpassed⟩ := h.passed ht hgood
  rw [hend] at hfirst
  by_cases hps : p < s
  · exact hpassed p k v hps hslot hv
  · refine Or.inr ?_
    by_contra hk
    exact hv (firstFrom_eq_none_iff.1 (Except.ok.inj hfirst).symm p (k, v) (by omega)
      (hs.thinned.getElem?_of_not_mem hslot hk))

/-- **A step that jumps.**  Up to the place `p` its key has not been removed; from there nothing is
left of the array part.  Then the slots up to the tombstone are jumped over. -/
lemma At.step_jump {s : Nat} {y : Value} (ht : t.WellFormed) (h : t.At visited R u x s)
    (hp : p < t.array.size) (hlive : t.array.getD p .nil ≠ .nil)
    (hq : t.hash.indexOf? (placeKey p) = some q) (hpos : s ≤ p + 1 ∨ t.array.size + q + 1 < s)
    (hbefore : s ≤ p → placeKey p ∉ R) (hhere : s = p + 1 → u.array.size ≤ p)
    (hnext : u.next x = .ok (some (y, v))) (xs : List Value) :
    ∃ j k, (j ≤ p ∨ t.array.size + q < j) ∧ (t.slots t.array.size)[j]? = some (k, v) ∧ v ≠ .nil ∧
      y = k.toValue ∧ t.At (visited ++ [(y, v)]) (R ++ keysOf xs) (u.removeAll xs) y (j + 1) := by
  rcases (by omega : s ≤ p ∨ s = p + 1 ∨ t.array.size + q + 1 < s) with hs | rfl | hs
  · have hslot := h.thinned.getElem?_of_not_mem (getElem?_slots_place hp) (hbefore hs)
    have hsize : p < u.array.size := by
      by_contra hle
      exact hlive (slots_nil_of_le (by omega) hp hslot)
    rw [h.next_eq ht fun p' _ _ _ => by omega] at hnext
    obtain ⟨j, k, -, hj, hv, hy, -, hgap, hat⟩ := h.step ht (Nat.le_refl s) (Except.ok.inj hnext) xs
    refine ⟨j, k, Or.inl ?_, hj, hv, hy, hat⟩
    by_contra hlt
    exact hlive (hgap p _ hs (by omega) hslot)
  · rw [h.next_jump ht hp (hhere rfl) hq] at hnext
    obtain ⟨j, k, hj, hslot, hv, hy, -, -, hat⟩ := h.step ht (by omega) (Except.ok.inj hnext) xs
    exact ⟨j, k, Or.inr (by omega), hslot, hv, hy, hat⟩
  · obtain ⟨r, hsr, hr⟩ := h.exists_next ht
    rw [hr] at hnext
    obtain ⟨j, k, hj, hslot, hv, hy, -, -, hat⟩ := h.step ht hsr (Except.ok.inj hnext) xs
    exact ⟨j, k, Or.inr (by omega), hslot, hv, hy, hat⟩

/-- **What is jumped over is not visited.** -/
lemma Walk.jump (ht : t.WellFormed) (hp : p < t.array.size) (hlive : t.array.getD p .nil ≠ .nil)
    (hq : t.hash.indexOf? (placeKey p) = some q)
    (hbefore : ∀ {visited removed u x}, t.Walk allowed visited removed u x →
      (placeKey p).toValue ∉ visited.map Prod.fst → placeKey p ∉ keysOf removed)
    (hhere : ∀ {visited removed u}, t.Walk allowed visited removed u (placeKey p).toValue →
      ∀ j, p ≤ j → j < t.array.size → placeKey j ∈ keysOf removed)
    (h : t.Walk allowed visited removed u x) :
    ∃ s, t.At visited (keysOf removed) u x s ∧ (s ≤ p + 1 ∨ t.array.size + q + 1 < s) ∧
      ∀ e ∈ visited, ∃ j k, (j ≤ p ∨ t.array.size + q < j) ∧
        (t.slots t.array.size)[j]? = some (k, e.2) ∧ e.2 ≠ .nil ∧ e.1 = k.toValue := by
  have hmax := ht.size_le
  induction h with
  | start => exact ⟨0, ht.at_start, by omega, by simp⟩
  | @step visited removed xs u x y v h hy hxs ih =>
    obtain ⟨s, hs, hpos, hvisited⟩ := ih
    have hfresh : s ≤ p → placeKey p ∉ keysOf removed := by
      intro hsp
      refine hbefore h fun hmem => ?_
      obtain ⟨e, he, hkey⟩ := List.mem_map.1 hmem
      obtain ⟨j, k, hj, hslot, hv, hk⟩ := mem_passed (hs.passed.subset he)
      obtain rfl : k = placeKey p := Key.toValue_injective (hk.symm.trans hkey)
      have := ht.slot_inj hslot hv (getElem?_slots_place hp) hlive
      omega
    have hfallen : s = p + 1 → u.array.size ≤ p := by
      intro hsp
      obtain ⟨rfl, -⟩ := hs.here_place hsp hp
      exact hs.thinned.size_le_of_removed (hhere h)
    obtain ⟨j, k, hj, hslot, hv, rfl, hat⟩ :=
      hs.step_jump ht hp hlive hq hpos hfresh hfallen hy xs
    rw [← keysOf_append] at hat
    refine ⟨j + 1, hat, by omega, fun e he => ?_⟩
    rcases List.mem_append.1 he with he | he
    · exact hvisited e he
    · obtain rfl := List.mem_singleton.1 he
      exact ⟨j, k, hj, hslot, hv, rfl⟩

/-- Some entry is never visited, if the traversals jump. -/
lemma exists_missed (allowed : Value → List Value → Prop) (ht : t.WellFormed)
    (hp : p < t.array.size) (hlive : t.array.getD p .nil ≠ .nil) (hshadow : t.Shadows (placeKey p))
    (hbefore : ∀ {visited removed u x}, t.Walk allowed visited removed u x →
      (placeKey p).toValue ∉ visited.map Prod.fst → placeKey p ∉ keysOf removed)
    (hhere : ∀ {visited removed u}, t.Walk allowed visited removed u (placeKey p).toValue →
      ∀ j, p ≤ j → j < t.array.size → placeKey j ∈ keysOf removed) :
    ∃ k v, (k, v) ∈ t.hash.entries ∧ v ≠ .nil ∧
      ∀ {visited removed u x}, t.Walk allowed visited removed u x → (k.toValue, v) ∉ visited := by
  obtain ⟨q, hq, ⟨k, v⟩, hmem, hv⟩ := hshadow
  obtain ⟨a, ha⟩ := List.getElem?_of_mem hmem
  rw [List.getElem?_take] at ha
  split at ha
  · next haq =>
    refine ⟨k, v, List.mem_of_getElem? ha, hv, fun h he => ?_⟩
    obtain ⟨-, -, -, hvisited⟩ := h.jump ht hp hlive hq hbefore hhere
    obtain ⟨j, k', hj, hslot, hv', hk⟩ := hvisited _ he
    obtain rfl := Key.toValue_injective hk
    -- the two slots of the key would be the same
    have := ht.slot_inj hslot hv' (getElem?_slots_hash.trans ha) hv
    omega
  · simp at ha

end Walk

/-! ### All removals -/

section Removal

variable {visited : List (Value × Value)} {removed : List Value} {x : Value}

lemma mem_entries_of_mem_hash (hmem : (k, v) ∈ t.hash.entries) (hv : v ≠ .nil) :
    (k.toValue, v) ∈ t.entries := by
  rw [entries_eq (Nat.le_refl _), List.mem_filterMap]
  exact ⟨(k, v), List.mem_append_right _ hmem, entryOf?_eq_some_iff.2 ⟨hv, rfl⟩⟩

lemma mem_entries_iff_slot {n : Nat} {e : Value × Value} (hn : u.array.size ≤ n) :
    e ∈ u.entries ↔ ∃ (p : Nat) (k : Key), (u.slots n)[p]? = some (k, e.2) ∧ e.2 ≠ .nil ∧
      e.1 = k.toValue := by
  rw [entries_eq hn, List.mem_filterMap]
  constructor
  · rintro ⟨⟨k, v⟩, hmem, he⟩
    obtain ⟨hv, rfl⟩ := entryOf?_eq_some_iff.1 he
    obtain ⟨p, hp⟩ := List.getElem?_of_mem hmem
    exact ⟨p, k, hp, hv, rfl⟩
  · rintro ⟨p, k, hp, hv, hk⟩
    exact ⟨(k, e.2), List.mem_of_getElem? hp, entryOf?_eq_some_iff.2 ⟨hv, Prod.ext hk.symm rfl⟩⟩

lemma arrayGet_placeKey (ht : t.WellFormed) (hp : p < t.array.size) :
    t.arrayGet (placeKey p) = t.array.getD p .nil := by
  have := ht.size_le
  rw [placeKey, arrayGet_of_toInt (toInt_ofNat_place (by omega))]

/-- The traversal that removes the whole array part when it comes to the place `p`. -/
def dropsArrayAt (t : Table) (p : Nat) (y : Value) (xs : List Value) : Prop :=
  xs = if y = (placeKey p).toValue then (List.range t.array.size).map (fun j => (placeKey j).toValue)
    else []

lemma Walk.removed_dropsArrayAt (h : t.Walk (t.dropsArrayAt p) visited removed u x) :
    ((placeKey p).toValue ∉ visited.map Prod.fst → removed = []) ∧
    (x = (placeKey p).toValue → ∀ j < t.array.size, (placeKey j).toValue ∈ removed) ∧
    ∀ y ∈ removed, ∃ j < t.array.size, y = (placeKey j).toValue := by
  induction h with
  | start => exact ⟨fun _ => rfl, (fun hx => by cases hx), by simp⟩
  | @step visited removed xs u x y v h hy hxs ih =>
    obtain ⟨hnone, -, hall⟩ := ih
    unfold dropsArrayAt at hxs
    refine ⟨fun hmem => ?_, fun hyp j hj => ?_, fun z hz => ?_⟩
    · simp only [List.map_append, List.map_cons, List.map_nil, List.mem_append, List.mem_singleton,
        not_or] at hmem
      rw [hnone hmem.1, hxs, if_neg (Ne.symm hmem.2)]
      rfl
    · rw [hxs, if_pos hyp]
      exact List.mem_append_right _ (List.mem_map.2 ⟨j, List.mem_range.2 hj, rfl⟩)
    · rcases List.mem_append.1 hz with hz | hz
      · exact hall z hz
      · rw [hxs] at hz
        split at hz
        · obtain ⟨j, hj, rfl⟩ := List.mem_map.1 hz
          exact ⟨j, List.mem_range.1 hj, rfl⟩
        · simp at hz

/-- At a place with a tombstone that has an entry before it, entries can be lost. -/
lemma exists_lost (ht : t.WellFormed) (hp : p < t.array.size) (hlive : t.array.getD p .nil ≠ .nil)
    (hshadow : t.Shadows (placeKey p)) :
    ∃ visited removed u x, t.Walk (fun _ _ => True) visited removed u x ∧ u.next x = .ok none ∧
      ∃ e ∈ t.entries, e ∉ visited ∧ ¬ ∃ y ∈ removed, Key.ofValue? y = Key.ofValue? e.1 := by
  have hmax := ht.size_le
  obtain ⟨k, v, hmem, hv, hmissed⟩ := exists_missed (t.dropsArrayAt p) ht hp hlive hshadow
    (fun h hnot => by rw [h.removed_dropsArrayAt.1 hnot]; simp [keysOf])
    (fun h j _ hj => mem_keysOf.2 ⟨_, h.removed_dropsArrayAt.2.1 rfl j hj, rfl⟩)
  have htotal : ∀ y, ∃ xs, t.dropsArrayAt p y xs := fun y => ⟨_, rfl⟩
  obtain ⟨visited, removed, u, x, h, hend⟩ := Walk.start.exists_end ht htotal
  refine ⟨visited, removed, u, x, h.mono fun _ _ _ => trivial, hend, _,
    mem_entries_of_mem_hash hmem hv, hmissed h, ?_⟩
  -- only keys of the array part have been removed
  rintro ⟨y, hy, hkey⟩
  obtain ⟨j, hj, rfl⟩ := h.removed_dropsArrayAt.2.2 y hy
  rw [ht.normal k (List.mem_map.2 ⟨_, hmem, rfl⟩)] at hkey
  have hnone := ht.arrayIndex?_eq_none hmem hv (Option.some.inj hkey).symm
  rw [arrayIndex?_eq_none_iff, toInt_ofNat_place (by omega)] at hnone
  omega

end Removal

/-! ### Clearing every key -/

section Clear

variable {visited : List (Value × Value)} {removed : List Value} {x : Value}

/-- The traversal that removes every key that it visits, and no other. -/
def clearsVisited (y : Value) (xs : List Value) : Prop := xs = [y]

lemma Walk.removed_clearsVisited (h : t.Walk clearsVisited visited removed u x) :
    removed = visited.map Prod.fst ∧ (x = .nil ∨ x ∈ visited.map Prod.fst) := by
  induction h with
  | start => exact ⟨rfl, Or.inl rfl⟩
  | @step visited removed xs u x y v h hy hxs ih =>
    cases hxs
    exact ⟨by simp [ih.1], Or.inr (by simp)⟩

/-- What it has removed, it has visited. -/
lemma Walk.mem_removed_clearsVisited (ht : t.WellFormed)
    (h : t.Walk clearsVisited visited removed u x) :
    k ∈ keysOf removed ↔ k.toValue ∈ visited.map Prod.fst := by
  rw [mem_keysOf, h.removed_clearsVisited.1]
  have hkey : ∀ y ∈ visited.map Prod.fst, ∀ k, Key.ofValue? y = some k ↔ y = k.toValue := by
    intro y hy k
    obtain ⟨e, he, rfl⟩ := List.mem_map.1 hy
    obtain ⟨k', hk', hget, hv⟩ := ht.mem_entries_iff.1 ((h.visited_sublist ht).subset he)
    have hnormal : k'.IsNormal := ht.isNormal_of_getKey (hget.trans_ne hv)
    rw [hk', hnormal, Option.some_inj]
    exact ⟨congrArg Key.toValue, fun he => Key.toValue_injective he⟩
  constructor
  · rintro ⟨y, hy, hk⟩
    rw [← (hkey y hy k).1 hk]
    exact hy
  · intro hy
    exact ⟨_, hy, (hkey _ hy k).2 rfl⟩

/-- The last place of the array part holds a value. -/
lemma WellFormed.getD_last (ht : t.WellFormed) (hp : p + 1 = t.array.size) :
    t.array.getD p .nil ≠ .nil := by
  intro hnil
  refine ht.ends ?_
  rw [Array.back?_eq_getElem?, ← hp, Nat.add_sub_cancel, Array.getElem?_eq_getElem (by omega),
    Option.some_inj]
  simpa [Array.getD_eq_getD_getElem?, show p < t.array.size by omega] using hnil

/-- It falls off the array part at the last place only. -/
lemma noJump_clearsVisited (ht : t.WellFormed)
    (hlast : ¬ ∃ p, p + 1 = t.array.size ∧ t.Shadows (placeKey p)) : NoJump clearsVisited t := by
  intro visited removed u x p h hs hp hsize hshadow
  refine hlast ⟨p, ?_, hshadow⟩
  by_contra hne
  -- the last place is further on, so it has not been visited and is still there
  have hlive : t.array.getD (t.array.size - 1) .nil ≠ .nil := ht.getD_last (by omega)
  have hslot := getElem?_slots_place (t := t) (p := t.array.size - 1) (n := t.array.size) (by omega)
  have hkept : placeKey (t.array.size - 1) ∉ keysOf removed := by
    rw [h.mem_removed_clearsVisited ht]
    intro hmem
    obtain ⟨e, he, hkey⟩ := List.mem_map.1 hmem
    obtain ⟨j, k, hj, hslot', hv, hk⟩ := mem_passed (hs.passed.subset he)
    obtain rfl : k = placeKey (t.array.size - 1) := Key.toValue_injective (hk.symm.trans hkey)
    have := ht.slot_inj hslot' hv hslot hlive
    omega
  exact hlive (slots_nil_of_le (by omega) (by omega) (hs.thinned.getElem?_of_not_mem hslot hkept))

/-- What is left of the entries after a removal. -/
lemma Thinned.mem_entries (h : t.Thinned R u) {e : Value × Value} :
    e ∈ u.entries ↔ ∃ (p : Nat) (k : Key), (t.slots t.array.size)[p]? = some (k, e.2) ∧
      e.2 ≠ .nil ∧ e.1 = k.toValue ∧ k ∉ R := by
  rw [mem_entries_iff_slot h.size_le]
  constructor
  · rintro ⟨p, k, hp, hv, hk⟩
    rw [h.getElem?_slots, Option.map_eq_some_iff] at hp
    obtain ⟨f, hf, hblank⟩ := hp
    obtain ⟨rfl, hkR⟩ := (blank_eq_iff hv).1 hblank
    exact ⟨p, k, hf, hv, hk, hkR⟩
  · rintro ⟨p, k, hp, hv, hk, hkR⟩
    exact ⟨p, k, h.getElem?_of_not_mem hp hkR, hv, hk⟩

/-- **Clearing every key** visits all entries, and leaves none, unless the last key of the array part
has a tombstone with an entry before it. -/
lemma Walk.clearsVisited_end (ht : t.WellFormed) (h : t.Walk clearsVisited visited removed u x)
    (hend : u.next x = .ok none) :
    (visited = t.entries ↔ ¬ ∃ p, p + 1 = t.array.size ∧ t.Shadows (placeKey p)) ∧
    (u.entries = [] ↔ ¬ ∃ p, p + 1 = t.array.size ∧ t.Shadows (placeKey p)) := by
  obtain ⟨s, hs⟩ := h.exists_at ht
  have hvisited := h.visited_sublist ht
  -- an entry is cleared exactly if it is visited
  have hcleared : ∀ k v, (k.toValue, v) ∈ t.entries →
      (k ∈ keysOf removed ↔ (k.toValue, v) ∈ visited) := by
    intro k v he
    rw [h.mem_removed_clearsVisited ht]
    refine ⟨fun hk => ?_, fun hmem => List.mem_map.2 ⟨_, hmem, rfl⟩⟩
    obtain ⟨e, hmem, hkey⟩ := List.mem_map.1 hk
    rwa [← List.inj_on_of_nodup_map ht.nodup_entries (hvisited.subset hmem) he hkey]
  by_cases hlast : ∃ p, p + 1 = t.array.size ∧ t.Shadows (placeKey p)
  · have hfalse := not_not.2 hlast
    obtain ⟨p, hp, hshadow⟩ := hlast
    obtain ⟨k, v, hmem, hv, hmissed⟩ := exists_missed clearsVisited ht (by omega) (ht.getD_last hp)
      hshadow (fun h hnot => by rw [h.mem_removed_clearsVisited ht]; exact hnot)
      fun h j hj hlt => by
        obtain rfl : j = p := by omega
        rw [h.mem_removed_clearsVisited ht]
        exact h.removed_clearsVisited.2.resolve_left (by simp [placeKey, Key.toValue])
    have hentry := mem_entries_of_mem_hash hmem hv
    have hnot := hmissed h
    refine ⟨iff_of_false (fun he => hnot (he ▸ hentry)) hfalse, iff_of_false (fun he => ?_) hfalse⟩
    obtain ⟨q, hq⟩ := List.getElem?_of_mem hmem
    have hleft : (k.toValue, v) ∈ u.entries := hs.thinned.mem_entries.2
      ⟨_, k, getElem?_slots_hash.trans hq, hv, rfl, fun hR => hnot ((hcleared k v hentry).1 hR)⟩
    simp [he] at hleft
  · have hall : ∀ e ∈ t.entries, e ∈ visited := by
      intro e he
      obtain ⟨p, k, hslot, hv, hk⟩ := (mem_entries_iff_slot (Nat.le_refl _)).1 he
      obtain ⟨x, v⟩ := e
      obtain rfl : x = k.toValue := hk
      rcases h.visited_or_removed ht (noJump_clearsVisited ht hlast) hend hslot hv with hmem | hmem
      · exact hmem
      · exact (hcleared k v he).1 hmem
    refine ⟨iff_of_true ?_ hlast, iff_of_true ?_ hlast⟩
    · have hnodup : t.entries.Nodup := List.Nodup.of_map _ ht.nodup_entries
      exact hvisited.eq_of_length_le (List.Nodup.length_le_of_subset hnodup hall)
    · rw [List.eq_nil_iff_forall_not_mem]
      rintro ⟨x, v⟩ he
      obtain ⟨p, k, hslot, hv, hk, hR⟩ := hs.thinned.mem_entries.1 he
      obtain rfl : x = k.toValue := hk
      have hentry : (k.toValue, v) ∈ t.entries :=
        (mem_entries_iff_slot (Nat.le_refl _)).2 ⟨p, k, hslot, hv, rfl⟩
      exact hR ((hcleared k v hentry).2 (hall _ hentry))

end Clear

/-! ### Traversals of any table -/

/-- **Traversal under removals.**  Whatever keys are assigned nil between the steps of a traversal,
`next` never fails, and what it gives are entries of the table at the start in their order, so the
traversal ends and visits no key twice.  Every entry is visited or removed, in every traversal, if and
only if no entry of the array part has a tombstone in the hash part with an entry before it.  Clearing
each visited key visits all entries, and leaves the table without one, if and only if the last key of
the array part has no such tombstone. -/
theorem traversal_under_removals (arrayHint hashHint : Nat) (ops : List TableOp) :
    let t := ((new arrayHint hashHint).run ops).1
    (∀ visited removed u x, t.Walk (fun _ _ => True) visited removed u x →
      (∃ e, u.next x = .ok e) ∧ visited.Sublist t.entries ∧
        visited.length ≤ t.entries.length ∧ (visited.map Prod.fst).Nodup) ∧
    ((∀ visited removed u x, t.Walk (fun _ _ => True) visited removed u x → u.next x = .ok none →
        ∀ e ∈ t.entries, e ∈ visited ∨ ∃ y ∈ removed, Key.ofValue? y = Key.ofValue? e.1) ↔
      ¬ ∃ k, t.arrayGet k ≠ .nil ∧ t.Shadows k) ∧
    (∃ visited removed u x, t.Walk clearsVisited visited removed u x ∧ u.next x = .ok none) ∧
    ∀ visited removed u x, t.Walk clearsVisited visited removed u x → u.next x = .ok none →
      (visited = t.entries ↔ ¬ ∃ p, p + 1 = t.array.size ∧ t.Shadows (placeKey p)) ∧
      (u.entries = [] ↔ ¬ ∃ p, p + 1 = t.array.size ∧ t.Shadows (placeKey p)) := by
  intro t
  have ht : t.WellFormed := wellFormed_run arrayHint hashHint ops
  refine ⟨fun visited removed u x h => ?_, ⟨fun hall => ?_, fun hnone visited removed u x h hend e he => ?_⟩,
    ?_, fun visited removed u x h hend => h.clearsVisited_end ht hend⟩
  · have hsub := h.visited_sublist ht
    exact ⟨h.exists_next ht, hsub, hsub.length_le, (hsub.map Prod.fst).nodup ht.nodup_entries⟩
  · rintro ⟨k, hk, hshadow⟩
    obtain ⟨i, p, rfl, hp, hi⟩ := exists_of_arrayGet hk
    rw [← placeKey_eq hi] at hk hshadow
    rw [arrayGet_placeKey ht hp] at hk
    obtain ⟨visited, removed, u, x, h, hend, e, he, hnot, hkept⟩ := exists_lost ht hp hk hshadow
    rcases hall visited removed u x h hend e he with hmem | hmem
    · exact hnot hmem
    · exact hkept hmem
  · have hgood : NoJump (fun _ _ => True) t := by
      intro visited removed u x p _ hs hp _ hshadow
      refine hnone ⟨placeKey p, ?_, hshadow⟩
      rw [arrayGet_placeKey ht hp]
      exact (hs.here_place rfl hp).2
    obtain ⟨p, k, hslot, hv, hk⟩ := (mem_entries_iff_slot (Nat.le_refl _)).1 he
    refine (h.visited_or_removed ht hgood hend hslot hv).imp (fun hmem => by rwa [← hk] at hmem) ?_
    intro hmem
    obtain ⟨y, hy, hkey⟩ := mem_keysOf.1 hmem
    refine ⟨y, hy, ?_⟩
    obtain ⟨k', hk', hget, hne⟩ := ht.mem_entries_iff.1 he
    obtain rfl := Key.toValue_injective (hk.symm.trans hk')
    rw [hkey, hk, ht.isNormal_of_getKey (hget.trans_ne hne)]
  · exact Walk.start.exists_end ht fun y => ⟨[y], rfl⟩

-- a key is put into the hash part and removed, and comes back when the array part has grown to it
example :
    let t := ((new 0 0).run [.set (.bool true) (.int 1), .setAt 2 (.int 20), .setAt 2 .nil,
      .setAt 1 (.int 10), .setAt 2 (.int 21)]).1
    1 + 1 = t.array.size ∧ t.hash.indexOf? (placeKey 1) = some 1 ∧
      t.hash.entries = [(.bool true, .int 1), (.int 2, .nil)] := by
  cbv

end Table

end LuaCore
