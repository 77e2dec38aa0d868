import LuaCore.Config.Basic
import LuaCore.Proofs.Config.Json
import Mathlib.Data.List.Nodup

/-!
Configurations from documents.

Of an object every field of a configuration has its value if it is there once, with a natural number
that fits, and its default if it is not there.  Everything else in the object is passed over.  Main
statements: this is what a configuration is read from, and the text of a configuration is read back
exactly if its values fit.
-/

namespace LuaCore

namespace Config

variable {fields : List (String × Json)} {name : String}

/-! ### Fields that are there once -/

/-- Without duplicates there are as many only if there were none. -/
lemma length_eraseDups (l : List String) :
    l.eraseDups.length ≤ l.length ∧ (l.eraseDups.length = l.length ↔ l.Nodup) := by
  match l with
  | [] => simp
  | a :: l =>
    obtain ⟨hle, hiff⟩ := length_eraseDups (l.filter fun b => !b == a)
    have hfilter := List.length_filter_le (fun b => !b == a) l
    rw [List.eraseDups_cons, List.length_cons, List.length_cons, List.nodup_cons]
    refine ⟨by omega, fun heq => ?_, fun ⟨ha, hl⟩ => ?_⟩
    · have hsame : l.filter (fun b => !b == a) = l :=
        List.filter_eq_self.2 (List.length_filter_eq_length_iff.1 (by omega))
      rw [hsame] at hiff heq
      refine ⟨fun ha => ?_, hiff.1 (Nat.succ.inj heq)⟩
      simpa using List.filter_eq_self.1 hsame a ha
    · have hsame : l.filter (fun b => !b == a) = l :=
        List.filter_eq_self.2 fun b hb => by simpa using ne_of_mem_of_not_mem hb ha
      rw [hsame] at hiff ⊢
      rw [hiff.2 hl]
termination_by l.length
decreasing_by exact Nat.lt_succ_of_le (List.length_filter_le _ _)

/-- The fields of an object under a name. -/
def under (fields : List (String × Json)) (name : String) : List (String × Json) :=
  fields.filter fun f => f.1 == name

/-- **What an object says of a field**, which has a default. -/
def Tells (fields : List (String × Json)) (name : String) (default value : ℕ) : Prop :=
  under fields name = [] ∧ value = default ∨
    under fields name = [(name, .number (some value))] ∧ value < UInt64.size

lemma fieldValue?_eq_some_iff {x : Json} {n : ℕ} :
    fieldValue? x = some n ↔ x = .number (some n) ∧ n < UInt64.size := by
  constructor
  · intro hx
    unfold fieldValue? at hx
    split at hx
    · next m =>
      split at hx
      · next hm =>
        cases hx
        exact ⟨rfl, hm⟩
      · cases hx
    · cases hx
  · rintro ⟨rfl, hn⟩
    exact if_pos hn

/-- The known fields of an object. -/
def known (fields : List (String × Json)) : List (String × Json) :=
  fields.filter fun f => fieldNames.contains f.1

lemma mem_known {f : String × Json} : f ∈ known fields ↔ f ∈ fields ∧ f.1 ∈ fieldNames := by
  simp [known]

lemma under_known (hname : name ∈ fieldNames) : under (known fields) name = under fields name := by
  rw [under, known, List.filter_filter, under]
  refine List.filter_congr fun f _ => ?_
  by_cases hf : f.1 = name
  · simp [hf, hname]
  · simp [hf]

lemma mem_under {f : String × Json} : f ∈ under fields name ↔ f ∈ fields ∧ f.1 = name := by
  simp [under]

/-- No known field is there twice if there are not two of any name. -/
lemma nodup_known_iff :
    ((known fields).map Prod.fst).Nodup ↔ ∀ name ∈ fieldNames, (under fields name).length ≤ 1 := by
  have hcount : ∀ name, ((known fields).map Prod.fst).count name = (under (known fields) name).length := by
    intro name
    rw [List.count_eq_countP, List.countP_map, List.countP_eq_length_filter]
    rfl
  rw [List.nodup_iff_count_le_one]
  constructor
  · intro hall name hname
    rw [← under_known hname, ← hcount]
    exact hall name
  · intro hall name
    rw [hcount]
    by_cases hname : name ∈ fieldNames
    · rw [under_known hname]
      exact hall name hname
    · have hnone : under (known fields) name = [] := by
        refine List.eq_nil_iff_forall_not_mem.2 fun f hf => ?_
        obtain ⟨hknown, rfl⟩ := mem_under.1 hf
        exact hname (mem_known.1 hknown).2
      simp [hnone]

/-- The values of fields, each under its name. -/
def values? (fields : List (String × Json)) : Option (List (String × ℕ)) :=
  fields.mapM fun f => (fieldValue? f.2).map fun n => (f.1, n)

lemma values?_cons (f : String × Json) (fields : List (String × Json)) :
    values? (f :: fields) =
      (fieldValue? f.2).bind fun n => (values? fields).map fun vs => (f.1, n) :: vs := by
  rw [values?, List.mapM_cons]
  cases fieldValue? f.2 with
  | none => rfl
  | some n => exact Option.map_eq_bind.symm

/-- There are values if every field has one. -/
lemma exists_values?_iff :
    (∃ vs, values? fields = some vs) ↔ ∀ f ∈ fields, ∃ n, fieldValue? f.2 = some n := by
  induction fields with
  | nil => simp [values?]
  | cons f fields ih =>
    rw [List.forall_mem_cons, ← ih, values?_cons]
    cases fieldValue? f.2 <;> cases values? fields <;> simp

/-- What is looked up is the value of the first field under the name. -/
lemma lookup_values? {vs : List (String × ℕ)} (hvs : values? fields = some vs) (name : String) :
    vs.lookup name = (under fields name).head?.bind fun f => fieldValue? f.2 := by
  induction fields generalizing vs with
  | nil =>
    cases hvs
    rfl
  | cons f fields ih =>
    rw [values?_cons] at hvs
    obtain ⟨n, hn, hvs⟩ := Option.bind_eq_some_iff.1 hvs
    obtain ⟨ws, hws, rfl⟩ := Option.map_eq_some_iff.1 hvs
    by_cases hf : f.1 = name
    · simp [under, hf, hn]
    · have hne : (name == f.1) = false := by simpa using Ne.symm hf
      rw [List.lookup_cons, hne, under, List.filter_cons_of_neg (by simpa using hf)]
      exact ih hws

lemma ofFields?_eq (fields : List (String × Json)) :
    ofFields? (fields.map fun f => (some f.1, f.2)) =
      if ((known fields).map Prod.fst).eraseDups.length ≠ ((known fields).map Prod.fst).length then none
      else (values? (known fields)).bind fun vs =>
        some (ofValues fun i => (fieldNames[i]?).bind fun k => vs.lookup k) := by
  have hnamed : (fields.map fun f => (some f.1, f.2)).mapM (fun f => f.1.map fun k => (k, f.2)) =
      some fields := by
    rw [List.mapM_map]
    exact List.mapM_pure.trans (congrArg some (List.map_id _))
  rw [ofFields?, hnamed]
  rfl

/-- The value of a field, as far as the document says. -/
def valueOf? (fields : List (String × Json)) (name : String) : Option ℕ :=
  (under fields name).head?.bind fun f => fieldValue? f.2

lemma tells_iff {default value : ℕ} :
    Tells fields name default value ↔
      (under fields name).length ≤ 1 ∧ (∀ f ∈ under fields name, ∃ n, fieldValue? f.2 = some n) ∧
        value = (valueOf? fields name).getD default := by
  have hname : ∀ f ∈ under fields name, f.1 = name := fun f hf => (mem_under.1 hf).2
  unfold Tells valueOf?
  rcases hu : under fields name with _ | ⟨⟨k, x⟩, _ | ⟨g, fs⟩⟩
  · simp
  · obtain rfl : k = name := hname (k, x) (by simp [hu])
    have hvalue : (x = .number (some value) ∧ value < UInt64.size) ↔
        (∃ n, fieldValue? x = some n) ∧ value = (fieldValue? x).getD default := by
      rw [← fieldValue?_eq_some_iff]
      cases fieldValue? x <;> simp [eq_comm]
    simpa using hvalue
  · simp

/-- Every known field has a value if every field under a known name has one. -/
lemma exists_values?_known_iff : (∃ vs, values? (known fields) = some vs) ↔
    ∀ name ∈ fieldNames, ∀ f ∈ under fields name, ∃ n, fieldValue? f.2 = some n := by
  rw [exists_values?_iff]
  constructor
  · intro hall name hname f hf
    obtain ⟨hmem, rfl⟩ := mem_under.1 hf
    exact hall f (mem_known.2 ⟨hmem, hname⟩)
  · intro hall f hf
    obtain ⟨hmem, hname⟩ := mem_known.1 hf
    exact hall f.1 hname f (mem_under.2 ⟨hmem, rfl⟩)

lemma lookup_known {vs : List (String × ℕ)} (hvs : values? (known fields) = some vs) (i : ℕ) :
    ((fieldNames[i]?).bind fun k => vs.lookup k) = (fieldNames[i]?).bind (valueOf? fields) := by
  cases hname : fieldNames[i]? with
  | none => rfl
  | some name =>
    rw [Option.bind_some, Option.bind_some, lookup_values? hvs, valueOf?,
      under_known (List.mem_of_getElem? hname)]

/-- The fields one by one. -/
lemma forall_tells_iff (c : Config) :
    (∀ e ∈ fieldNames.zip (({} : Config).toList.zip c.toList), Tells fields e.1 e.2.1 e.2.2) ↔
      (∀ name ∈ fieldNames, (under fields name).length ≤ 1) ∧
      (∀ name ∈ fieldNames, ∀ f ∈ under fields name, ∃ n, fieldValue? f.2 = some n) ∧
      c = ofValues fun i => (fieldNames[i]?).bind (valueOf? fields) := by
  obtain ⟨a, b, d, e⟩ := c
  simp only [tells_iff, fieldNames, toList, ofValues, List.zip_cons_cons, List.zip_nil_right,
    List.forall_mem_cons, Config.mk.injEq, List.getElem?_cons_zero, List.getElem?_cons_succ,
    Option.bind_some, List.not_mem_nil, false_imp_iff, implies_true, and_true]
  tauto

/-- **What a configuration is read from**: what the object says of each field. -/
theorem ofFields?_eq_some_iff (c : Config) :
    ofFields? (fields.map fun f => (some f.1, f.2)) = some c ↔
      ∀ e ∈ fieldNames.zip (({} : Config).toList.zip c.toList), Tells fields e.1 e.2.1 e.2.2 := by
  rw [forall_tells_iff, ← nodup_known_iff, ← (length_eraseDups _).2, ← exists_values?_known_iff,
    ofFields?_eq]
  by_cases honce : ((known fields).map Prod.fst).eraseDups.length =
      ((known fields).map Prod.fst).length
  · rw [if_neg (not_not.2 honce)]
    cases hvs : values? (known fields) with
    | none => simp
    | some vs => simp [honce, lookup_known hvs, eq_comm]
  · rw [if_pos honce]
    refine ⟨fun hread => ?_, fun htells => absurd htells.1 honce⟩
    cases hread

/-! ### Texts -/

/-- **An object is read for what it says of each field.** -/
theorem parse?_object_iff (fields : List (String × Json)) (c : Config) :
    parse? (Json.object (fields.map fun f => (some f.1, f.2))).text = some c ↔
      ∀ e ∈ fieldNames.zip (({} : Config).toList.zip c.toList), Tells fields e.1 e.2.1 e.2.2 := by
  rw [parse?, Json.parse?_text, Option.bind_some, ofJson?, ofFields?_eq_some_iff]

/-- The fields of a configuration, as they are written. -/
def written (c : Config) : List (String × Json) :=
  (fieldNames.zip c.toList).map fun f => (f.1, .number (some f.2))

lemma text_eq (c : Config) :
    c.text = (Json.object (c.written.map fun f => (some f.1, f.2))).text := by
  have hname : ∀ name ∈ fieldNames, Json.writeUnits (some name) = name.toList ++ ['"'] := by decide
  simp only [fieldNames, List.forall_mem_cons] at hname
  apply String.toList_inj.1
  simp [text, written, fieldNames, toList, Json.text, Json.write, Json.writeFields, hname,
    Nat.repr_eq_ofList_toDigits]

/-- Every field is there once, with its value. -/
lemma tells_written_iff (c d : Config) :
    (∀ e ∈ fieldNames.zip (({} : Config).toList.zip d.toList), Tells c.written e.1 e.2.1 e.2.2) ↔
      d = c ∧ ∀ n ∈ c.toList, n < UInt64.size := by
  obtain ⟨a, b, m, n⟩ := c
  obtain ⟨a', b', m', n'⟩ := d
  have htells : (∀ e ∈ fieldNames.zip (({} : Config).toList.zip (Config.mk a' b' m' n').toList),
      Tells (Config.mk a b m n).written e.1 e.2.1 e.2.2) ↔
      (a = a' ∧ a' < UInt64.size) ∧ (b = b' ∧ b' < UInt64.size) ∧ (m = m' ∧ m' < UInt64.size) ∧
        n = n' ∧ n' < UInt64.size := by
    simp [Tells, under, written, fieldNames, toList]
  rw [htells]
  constructor
  · rintro ⟨⟨rfl, ha⟩, ⟨rfl, hb⟩, ⟨rfl, hm⟩, rfl, hn⟩
    exact ⟨rfl, by simp [toList, ha, hb, hm, hn]⟩
  · rintro ⟨heq, hfits⟩
    cases heq
    simpa [toList] using hfits

/-- **The text of a configuration is read back** exactly if its values fit. -/
theorem parse?_text_iff (c d : Config) :
    parse? c.text = some d ↔ d = c ∧ ∀ n ∈ c.toList, n < UInt64.size := by
  rw [text_eq, parse?_object_iff, tells_written_iff]

/-- A document may leave fields out. -/
example : parse? "\x7b\"max_tag_loop\":5\x7d" = some { maxTagLoop := 5 } := by decide +kernel

end Config

end LuaCore
