import LuaCore.Proofs.Number.Grammar
import LuaCore.Proofs.Store.Moves
import LuaCore.Proofs.Store.Sound

/-!
Integers and their texts.

A numeral of digits alone is read as the integer that it denotes: exactly if it is decimal and in range,
and modulo `2 ^ 64` if it is hexadecimal.  The decimal text of an integer is such a numeral, so reading it
gives the integer back, and an operator does not tell the integer from a string that spells it.
-/

namespace LuaCore

namespace Number

open Numeral Numeral.Grammar
open scoped Computability

variable {u s x ds w : Bytes}

/-! ### Reading digits -/

/-- Decimal digits alone, with a sign and blanks around them, are read as the integer that they denote,
or as a double if that is out of range. -/
lemma ofNumeral?_digits (hu : u ∈ blank∗) (hs : s ∈ sign) (hds : ds ∈ repeated digit)
    (hw : w ∈ blank∗) :
    ofNumeral? (u ++ s ++ ds ++ w) = ofDecimal? (s == [45]) ds := by
  rw [ofNumeral?_eq, splitSign_trim hu hs hw (repeated_le_plain digit_le_plain)
    (begins_digit.mul _) hds]
  dsimp only
  fun_cases ofUnsigned? (s == [45]) ds with
  | case1 r => exact absurd (mem_scaled_of_mem_repeated hds) (not_mem_decimal (by simp) r)
  | case2 r => exact absurd (mem_scaled_of_mem_repeated hds) (not_mem_decimal (by simp) r)
  | case3 => rfl

lemma ofDecimal?_of_inRange {negative : Bool} (hds : ds ∈ repeated digit)
    (h : Word.InRange (denoted negative 10 ds)) :
    ∃ i, ofDecimal? negative ds = some (.int i) ∧ i.toInt = denoted negative 10 ds := by
  obtain ⟨i, hi, hval⟩ := Word.ofInt?_of_inRange h
  rw [digit_eq, ← test_iff] at hds
  refine ⟨i, ?_, hval⟩
  rw [ofDecimal?, if_pos hds, decimalInt?_eq, hi]

lemma ofDecimal?_of_not_inRange {negative : Bool} (hds : ds ∈ repeated digit)
    (h : ¬Word.InRange (denoted negative 10 ds)) :
    ∃ y, ofDecimal? negative ds = some (.float y) := by
  have hsome : (decimalDouble? ds).isSome = true :=
    isSome_decimalDouble?.2 (mem_scaled_of_mem_repeated hds)
  obtain ⟨y, hy⟩ := Option.isSome_iff_exists.1 hsome
  rw [digit_eq, ← test_iff] at hds
  refine ⟨Numeral.signed negative y, ?_⟩
  rw [ofDecimal?, if_pos hds, decimalInt?_eq, Word.ofInt?_eq_none_iff_not_inRange.2 h, hy]
  rfl

/-- Hexadecimal digits alone are read as an integer, whatever they denote. -/
lemma ofNumeral?_hexDigits (hu : u ∈ blank∗) (hs : s ∈ sign) (hx : x ∈ hexMark)
    (hds : ds ∈ repeated hexDigit) (hw : w ∈ blank∗) :
    ofNumeral? (u ++ s ++ (x ++ ds) ++ w) = some (.int (hexInt (s == [45]) ds)) := by
  have hmem : x ++ ds ∈ hexMark * repeated hexDigit := Language.append_mem_mul hx hds
  rw [ofNumeral?_eq, splitSign_trim hu hs hw
    (mul_le_plain hexMark_le_plain (repeated_le_plain hexDigit_le_plain)) (begins_hexMark.mul _) hmem]
  rw [hexDigit_eq, ← test_iff] at hds
  have hread : ofHex? (s == [45]) ds = some (.int (hexInt (s == [45]) ds)) := if_pos hds
  rw [hexMark, Language.mem_mul] at hx
  obtain ⟨_, ⟨_, rfl, rfl⟩, _, ⟨c, hc, rfl⟩, rfl⟩ := hx
  rcases List.mem_pair.1 hc with rfl | rfl
  · exact hread
  · exact hread

/-- **An integer survives its text.** -/
lemma ofNumeral?_text (i : Int64) : ofNumeral? (int i).text = some (int i) := by
  have hs : (if i.toInt < 0 then [45] else [] : Bytes) ∈ sign := by
    split
    · exact Or.inr ⟨45, by simp, rfl⟩
    · exact Or.inl rfl
  have hds : Bytes.natText i.toInt.natAbs ∈ repeated digit := by
    rw [digit_eq, mem_repeated_byte]
    exact ⟨Bytes.natText_ne_nil _, Bytes.isDigit_of_mem_natText _⟩
  have hneg : ((if i.toInt < 0 then [45] else [] : Bytes) == [45]) = decide (i.toInt < 0) := by
    split <;> simp [*]
  have hread := ofNumeral?_digits (Language.nil_mem_kstar _) hs hds (Language.nil_mem_kstar _)
  rw [List.nil_append, List.append_nil, ← intText_eq, hneg] at hread
  have hrange : Word.InRange (denoted (decide (i.toInt < 0)) 10 (Bytes.natText i.toInt.natAbs)) := by
    rw [denoted_natText]
    exact ⟨i.le_toInt, i.toInt_lt⟩
  obtain ⟨j, hj, hval⟩ := ofDecimal?_of_inRange hds hrange
  rw [denoted_natText] at hval
  rw [text, hread, hj, Int64.toInt_inj.1 hval]

end Number

/-! ### Operands that spell integers -/

namespace Store

variable {β : Type} {S : Store β} {v w a b a' b' : Value}

/-- The second value may stand for the first: it is the same, or a string that holds the decimal text of
the integer. -/
inductive Spells (S : Store β) : Value → Value → Prop
  | same (v : Value) : Spells S v v
  | text {i : Int64} {h : Handle} (hh : S.strings.get? h = some (Number.int i).text) :
      Spells S (.int i) (.string h)

lemma Spells.toNumber?_eq (h : S.Spells v w) : toNumber? w S = toNumber? v S := by
  cases h with
  | same => rfl
  | @text i h hh =>
    refine (bind_ok (bytes_of_get? hh)).trans ?_
    rw [Number.ofNumeral?_text]
    rfl

/-- Where two readings come to the same, so does what follows. -/
lemma bind_congr_left {α γ : Type} {x y : StoreM β α} (h : x S = y S) (f : α → StoreM β γ) :
    (x >>= f) S = (y >>= f) S := by
  show EStateM.bind x f S = EStateM.bind y f S
  rw [EStateM.bind, EStateM.bind, h]

lemma Spells.toWord?_eq (h : S.Spells v w) : toWord? w S = toWord? v S :=
  bind_congr_left h.toNumber?_eq _

/-- Two readings that come to the same, one after the other. -/
lemma bind_bind_congr {α γ : Type} {x x' y y' : StoreM β α} (hx : x' S = x S) (hy : y' S = y S)
    (hmoves : Moves Eq x) (f : α → α → StoreM β γ) :
    (x' >>= fun m => y' >>= fun n => f m n) S = (x >>= fun m => y >>= fun n => f m n) S := by
  rw [bind_congr_left hx]
  cases hr : x S with
  | error e T => rw [bind_error hr, bind_error hr]
  | ok m T =>
    obtain rfl : S = T := hmoves S T (Or.inl ⟨m, hr⟩)
    rw [bind_ok hr, bind_ok hr]
    exact bind_congr_left hy _

/-- **An operator does not tell an integer from its text.** -/
lemma Spells.binary?_eq (op : BinaryOp) (ha : S.Spells a a') (hb : S.Spells b b') :
    binary? op a' b' S = binary? op a b S := by
  cases op with
  | arith op => exact bind_bind_congr ha.toNumber?_eq hb.toNumber?_eq moves_toNumber? _
  | bit op => exact bind_bind_congr ha.toWord?_eq hb.toWord?_eq moves_toWord? _

/-- The interned text of an integer spells it. -/
lemma exists_spells_newString (hS : S.strings.arena.WellFormed) (i : Int64) :
    ∃ h, newString (Number.int i).text S = .ok (.string h) (S.interning (Number.int i).text) ∧
      (S.interning (Number.int i).text).Spells (.int i) (.string h) :=
  ⟨_, rfl, .text ((Interner.get?_intern hS _ _).trans (if_pos rfl))⟩

end Store

/-! ### Integers as numerals -/

namespace Number

open Numeral Numeral.Grammar
open scoped Computability

/-- **Integers are read exactly, and survive as texts.**  Decimal digits, however many, with a sign and
blanks around them, are read as the integer that they denote if it is in range, and else as a double;
hexadecimal digits are read as the word that is congruent to what they denote.  Reading the text of an
integer gives the integer.  Interning the text gives a string that spells the integer, and no arithmetic
or bitwise operator tells integers from strings that spell them: the outcome is the same, be it a number,
an error, or that a handler is needed. -/
theorem integer_numerals :
    (∀ u s ds w, u ∈ blank∗ → s ∈ sign → ds ∈ repeated digit → w ∈ blank∗ →
      (Word.InRange (denoted (s == [45]) 10 ds) →
        ∃ i, ofNumeral? (u ++ s ++ ds ++ w) = some (.int i) ∧ i.toInt = denoted (s == [45]) 10 ds) ∧
      (¬Word.InRange (denoted (s == [45]) 10 ds) →
        ∃ y, ofNumeral? (u ++ s ++ ds ++ w) = some (.float y))) ∧
    (∀ u s x ds w, u ∈ blank∗ → s ∈ sign → x ∈ hexMark → ds ∈ repeated hexDigit → w ∈ blank∗ →
      ∃ i, ofNumeral? (u ++ s ++ (x ++ ds) ++ w) = some (.int i) ∧
        i.toInt ≡ denoted (s == [45]) 16 ds [ZMOD 2 ^ 64]) ∧
    (∀ i, ofNumeral? (int i).text = some (int i)) ∧
    (∀ (β : Type) (S : Store β) (i : Int64), S.strings.arena.WellFormed →
      ∃ h, Store.newString (int i).text S = .ok (.string h) (S.interning (int i).text) ∧
        (S.interning (int i).text).Spells (.int i) (.string h)) ∧
    ∀ (β : Type) (S : Store β) (op : BinaryOp) (a b a' b' : Value), S.Spells a a' → S.Spells b b' →
      Store.binary? op a' b' S = Store.binary? op a b S := by
  refine ⟨fun u s ds w hu hs hds hw => ?_, fun u s x ds w hu hs hx hds hw => ?_, ofNumeral?_text,
    fun β S i hS => Store.exists_spells_newString hS i, fun β S op a b a' b' ha hb => ha.binary?_eq op hb⟩
  · rw [ofNumeral?_digits hu hs hds hw]
    exact ⟨ofDecimal?_of_inRange hds, ofDecimal?_of_not_inRange hds⟩
  · exact ⟨_, ofNumeral?_hexDigits hu hs hx hds hw, toInt_hexInt _ ds⟩

/-- The least word, the integer below it, seventeen hexadecimal digits after a minus, and the text of an
integer as an operand. -/
theorem integer_numerals_least :
    (∃ i, ofNumeral? ([9] ++ [45] ++ Bytes.natText 9223372036854775808 ++ [32]) = some (.int i) ∧
      i.toInt = -9223372036854775808) ∧
    (∃ y, ofNumeral? ([] ++ [45] ++ Bytes.natText 9223372036854775809 ++ []) = some (.float y)) ∧
    (∃ i, ofNumeral? ([] ++ [45] ++ ([48, 88] ++ List.replicate 17 102) ++ []) = some (.int i) ∧
      i.toInt ≡ 1 [ZMOD 2 ^ 64]) ∧
    ∃ h, Store.binary? (.arith .add) (.string h) (.int 2)
        ((Store.init {} : Store Unit).interning (int 7).text) =
      .ok (some (.int 9)) ((Store.init {} : Store Unit).interning (int 7).text) := by
  obtain ⟨hdecimal, hhex, -, hintern, hop⟩ := integer_numerals
  have hminus : ([45] : Bytes) ∈ sign := Or.inr ⟨45, by simp, rfl⟩
  have hdigits : ∀ n, Bytes.natText n ∈ repeated digit := fun n => by
    rw [digit_eq, mem_repeated_byte]
    exact ⟨Bytes.natText_ne_nil n, Bytes.isDigit_of_mem_natText n⟩
  have hvalue : ∀ n, denoted (([45] : Bytes) == [45]) 10 (Bytes.natText n) = -n := fun n => by
    rw [denoted_eq, Bytes.digitsValue_natText]
    rfl
  have htab : ([9] : Bytes) ∈ blank∗ := mem_kstar_byte.2 (by simp)
  have hspace : ([32] : Bytes) ∈ blank∗ := mem_kstar_byte.2 (by simp)
  have hnil : ([] : Bytes) ∈ blank∗ := Language.nil_mem_kstar _
  refine ⟨?_, ?_, ?_, ?_⟩
  · have hleast := hdecimal [9] [45] (Bytes.natText 9223372036854775808) [32] htab hminus
      (hdigits _) hspace
    rw [hvalue] at hleast
    exact hleast.1 ⟨by norm_num, by norm_num⟩
  · refine (hdecimal [] [45] _ [] hnil hminus (hdigits _) hnil).2 ?_
    rw [hvalue]
    exact fun h => absurd h.1 (by norm_num)
  · obtain ⟨i, hi, hval⟩ := hhex [] [45] [48, 88] (List.replicate 17 102) [] hnil hminus
      (cons_mem_byte_mul.2 ⟨rfl, 88, by simp, rfl⟩)
      (by rw [hexDigit_eq, ← test_iff]; decide) hnil
    exact ⟨i, hi, hval.trans (by decide)⟩
  · obtain ⟨h, -, hspells⟩ := hintern Unit (Store.init {}) 7 (Store.sound_init {}).wellFormed.strings
    refine ⟨h, (hop Unit _ (.arith .add) _ _ _ _ hspells (.same (.int 2))).trans ?_⟩
    rfl

end Number

end LuaCore
