import LuaCore.Joiner
import LuaCore.Proofs.Interner
import Mathlib.Tactic.Common

/-!
Values by content.

Two stores may hold the same text under different handles.  The content of a value is what is the same
in both: the bytes of a string, and any other value itself.  Making strings keeps every content, and
putting values together depends on their contents alone.
-/

namespace LuaCore

/-- What a value is, with a string known by its bytes. -/
inductive Content where
  | text (b : Bytes)
  | object (v : Value) (plain : v.isString = false)
deriving DecidableEq

namespace Content

/-- The bytes that stand for a string or a number in a concatenation. -/
def bytes? : Content → Option Bytes
  | text b => some b
  | object (.number n) _ => some n.text
  | object _ _ => none

/-- The kind of the values with a content. -/
def kind : Content → Kind
  | text _ => .string
  | object v _ => v.kind

/-- A value with a content; a string is made for a text. -/
def toValue {β : Type} : Content → StoreM β Value
  | text b => Store.newString b
  | object v _ => pure v

end Content

namespace Interner

/-- Interning leaves the strings that are there. -/
lemma get?_intern_of_get? {t : Interner} {h : Handle} {b c : Bytes} (ht : t.arena.WellFormed)
    (hh : t.get? h = some c) : (t.intern b).1.get? h = some c := by
  unfold intern
  split
  · exact hh
  · simp only [get?] at hh ⊢
    obtain ⟨p, hp, rfl⟩ := Option.map_eq_some_iff.1 hh
    rw [ht.get?_alloc, if_neg, hp]
    · rfl
    · rintro rfl
      rw [ht.get?_alloc_fresh] at hp
      cases hp

end Interner

namespace Store

variable {β : Type} {S T U : Store β} {v w : Value} {c d : Content} {b x y : Bytes}

/-! ### Contents in a store -/

/-- The content of a value; a string that has been freed has none. -/
def contentOf? (S : Store β) : Value → Option Content
  | .string h => (S.strings.get? h).map .text
  | .nil => some (.object .nil rfl)
  | .bool b => some (.object (.bool b) rfl)
  | .number n => some (.object (.number n) rfl)
  | .table h => some (.object (.table h) rfl)
  | .function h => some (.object (.function h) rfl)
  | .userdata h => some (.object (.userdata h) rfl)
  | .thread h => some (.object (.thread h) rfl)

lemma contentOf?_eq_text_iff :
    S.contentOf? v = some (.text b) ↔ ∃ h, v = .string h ∧ S.strings.get? h = some b := by
  cases v <;> simp [contentOf?]

lemma contentOf?_object (hv : v.isString = false) : S.contentOf? v = some (.object v hv) := by
  cases v with
  | string h => cases hv
  | _ => rfl

lemma contentOf?_eq_object_iff {hw : w.isString = false} :
    S.contentOf? v = some (.object w hw) ↔ v = w := by
  constructor
  · intro hv
    cases v with
    | string h => simp [contentOf?] at hv
    | _ => exact Content.object.inj (Option.some.inj hv)
  · rintro rfl
    exact contentOf?_object hw

lemma kind_eq (hv : S.contentOf? v = some c) : v.kind = c.kind := by
  cases c with
  | text b =>
    obtain ⟨h, rfl, -⟩ := contentOf?_eq_text_iff.1 hv
    rfl
  | object w hw => rw [contentOf?_eq_object_iff.1 hv]; rfl

/-- Strings that are in the first store are in the second, with the same bytes. -/
def Keeps (S T : Store β) : Prop := ∀ h b, S.strings.get? h = some b → T.strings.get? h = some b

lemma Keeps.refl (S : Store β) : S.Keeps S := fun _ _ h => h

lemma Keeps.trans (hST : S.Keeps T) (hTU : T.Keeps U) : S.Keeps U :=
  fun h b hb => hTU h b (hST h b hb)

lemma Keeps.contentOf? (hST : S.Keeps T) (hv : S.contentOf? v = some c) :
    T.contentOf? v = some c := by
  cases c with
  | text b =>
    obtain ⟨h, rfl, hb⟩ := contentOf?_eq_text_iff.1 hv
    exact contentOf?_eq_text_iff.2 ⟨h, rfl, hST h b hb⟩
  | object w hw => exact contentOf?_eq_object_iff.2 (contentOf?_eq_object_iff.1 hv)

/-! ### Making strings -/

/-- The store after one more string. -/
def interning (S : Store β) (b : Bytes) : Store β := { S with strings := (S.strings.intern b).1 }

/-- The second store is the first one after some more strings. -/
inductive Interns (S : Store β) : Store β → Prop
  | refl : Interns S S
  | step {T : Store β} (b : Bytes) (h : Interns S T) : Interns S (T.interning b)

namespace Interns

lemma single (b : Bytes) : S.Interns (S.interning b) := .step b .refl

lemma trans (hST : S.Interns T) (hTU : T.Interns U) : S.Interns U := by
  induction hTU with
  | refl => exact hST
  | step b _ ih => exact ih.step b

lemma wellFormed (hST : S.Interns T) (hS : S.strings.arena.WellFormed) :
    T.strings.arena.WellFormed := by
  induction hST with
  | refl => exact hS
  | step b _ ih => exact Interner.wellFormed_intern ih b

lemma keeps (hST : S.Interns T) (hS : S.strings.arena.WellFormed) : S.Keeps T := by
  induction hST with
  | refl => exact .refl S
  | step b hT ih =>
    intro h c hc
    exact Interner.get?_intern_of_get? (hT.wellFormed hS) (ih h c hc)

end Interns

/-- The computation makes strings at most, and gives a value with this content. -/
def Makes (x : StoreM β Value) (S : Store β) (c : Content) : Prop :=
  ∃ v T, x S = .ok v T ∧ S.Interns T ∧ T.contentOf? v = some c

lemma makes_newString (hS : S.strings.arena.WellFormed) (b : Bytes) :
    Makes (newString b) S (.text b) := by
  have hb : (S.interning b).strings.get? (S.strings.intern b).2 = some b :=
    (Interner.get?_intern hS b _).trans (if_pos rfl)
  exact ⟨_, _, rfl, .single b, contentOf?_eq_text_iff.2 ⟨_, rfl, hb⟩⟩

lemma makes_toValue (hS : S.strings.arena.WellFormed) (c : Content) : Makes c.toValue S c := by
  cases c with
  | text b => exact makes_newString hS b
  | object v hv => exact ⟨v, S, rfl, .refl, contentOf?_object hv⟩

/-! ### Putting values together -/

lemma bind_ok {α γ : Type} {x : StoreM β α} {f : α → StoreM β γ} {a : α} (hx : x S = .ok a T) :
    (x >>= f) S = f a T := by
  show EStateM.bind x f S = f a T
  rw [EStateM.bind, hx]

lemma bind_error {α γ : Type} {x : StoreM β α} {f : α → StoreM β γ} {e : Stop}
    (hx : x S = .error e T) : (x >>= f) S = .error e T := by
  show EStateM.bind x f S = .error e T
  rw [EStateM.bind, hx]

lemma bytes_of_get? {h : Handle} (hh : S.strings.get? h = some b) : bytes h S = .ok b S := by
  unfold bytes
  refine (bind_ok (x := get) rfl).trans ?_
  rw [hh]
  rfl

/-- The text of a string or number is made, if it is not there. -/
lemma toString?_of_bytes? (hS : S.strings.arena.WellFormed) (hv : S.contentOf? v = some c)
    (hc : c.bytes? = some b) :
    ∃ h T, toString? v S = .ok (some (.string h)) T ∧ S.Interns T ∧ T.strings.get? h = some b := by
  cases c with
  | text b' =>
    obtain ⟨h, rfl, hh⟩ := contentOf?_eq_text_iff.1 hv
    cases hc
    exact ⟨h, S, rfl, .refl, hh⟩
  | object w hw =>
    obtain rfl := contentOf?_eq_object_iff.1 hv
    cases v with
    | number n =>
      cases hc
      refine ⟨_, _, rfl, .single n.text, ?_⟩
      exact (Interner.get?_intern hS _ _).trans (if_pos rfl)
    | _ => cases hc

lemma toString?_of_not_bytes? (hv : S.contentOf? v = some c) (hc : c.bytes? = none) :
    toString? v S = .ok none S := by
  cases c with
  | text b => cases hc
  | object w hw =>
    obtain rfl := contentOf?_eq_object_iff.1 hv
    cases v with
    | number n => cases hc
    | string h => cases hw
    | _ => rfl

/-- Joining a string or number to the bytes of the rest. -/
lemma joinBytes_cons {r : List Value} {o : Option Bytes} (hS : S.strings.arena.WellFormed)
    (hv : S.contentOf? v = some c) (hc : c.bytes? = some b)
    (hr : ∀ T, S.Interns T → ∃ U, joinBytes r T = .ok o U ∧ T.Interns U) :
    ∃ U, joinBytes (v :: r) S = .ok (o.map (b ++ ·)) U ∧ S.Interns U := by
  obtain ⟨h, T, hstr, hST, hh⟩ := toString?_of_bytes? hS hv hc
  obtain ⟨U, hU, hTU⟩ := hr T hST
  refine ⟨U, ?_, hST.trans hTU⟩
  rw [joinBytes]
  refine (bind_ok hstr).trans ?_
  have hbytes : bytes? (.string h) T = .ok (some b) T := by
    refine (bind_ok (bytes_of_get? hh)).trans ?_
    rfl
  exact (bind_ok hbytes).trans ((bind_ok hU).trans rfl)

lemma joinBytes_cons_none {r : List Value} (hv : S.contentOf? v = some c) (hc : c.bytes? = none) :
    joinBytes (v :: r) S = .ok none S := by
  rw [joinBytes]
  exact (bind_ok (toString?_of_not_bytes? hv hc)).trans rfl

/-- **The bytes of two values** are those of their contents, one after the other. -/
lemma joinBytes_pair (hS : S.strings.arena.WellFormed) (hv : S.contentOf? v = some c)
    (hw : S.contentOf? w = some d) :
    ∃ U, joinBytes [v, w] S = .ok (c.bytes?.bind fun x => d.bytes?.map (x ++ ·)) U ∧
      S.Interns U := by
  cases hc : c.bytes? with
  | none => exact ⟨S, joinBytes_cons_none hv hc, .refl⟩
  | some x =>
    refine joinBytes_cons hS hv hc fun T hST => ?_
    have hT := hST.wellFormed hS
    have hwT := (hST.keeps hS).contentOf? hw
    cases hd : d.bytes? with
    | none => exact ⟨T, joinBytes_cons_none hwT hd, .refl⟩
    | some y =>
      have hnil : ∀ T', T.Interns T' → ∃ U, joinBytes [] T' = .ok (some []) U ∧ T'.Interns U :=
        fun T' _ => ⟨T', rfl, .refl⟩
      obtain ⟨U, hU, hTU⟩ := joinBytes_cons hT hwT hd hnil
      rw [Option.map_some, List.append_nil] at hU
      exact ⟨U, hU, hTU⟩

lemma concatAll_of_bytes? (hS : S.strings.arena.WellFormed) (hv : S.contentOf? v = some c)
    (hw : S.contentOf? w = some d) (hc : c.bytes? = some x) (hd : d.bytes? = some y) :
    ∃ u T, concatAll [v, w] S = .ok (some u) T ∧ S.Interns T ∧
      T.contentOf? u = some (.text (x ++ y)) := by
  obtain ⟨T, hT, hST⟩ := joinBytes_pair hS hv hw
  rw [hc, hd] at hT
  obtain ⟨u, U, hu, hTU, hcu⟩ := makes_newString (hST.wellFormed hS) (x ++ y)
  refine ⟨u, U, (bind_ok hT).trans ?_, hST.trans hTU, hcu⟩
  exact (bind_ok (f := fun v => pure (some v)) hu).trans rfl

lemma concatAll_of_not_bytes? (hS : S.strings.arena.WellFormed) (hv : S.contentOf? v = some c)
    (hw : S.contentOf? w = some d) (hcd : c.bytes? = none ∨ d.bytes? = none) :
    ∃ T, concatAll [v, w] S = .ok none T ∧ S.Interns T := by
  obtain ⟨T, hT, hST⟩ := joinBytes_pair hS hv hw
  have hnone : (c.bytes?.bind fun x => d.bytes?.map (x ++ ·)) = none := by
    rcases hcd with h | h <;> simp [h]
  rw [hnone] at hT
  exact ⟨T, (bind_ok hT).trans rfl, hST⟩

end Store

end LuaCore
