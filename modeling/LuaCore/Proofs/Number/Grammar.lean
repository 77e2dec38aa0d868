import LuaCore.Number.Numeral
import LuaCore.Proofs.Number.Digits
import Mathlib.Computability.Language
import Mathlib.Data.List.TakeWhile
import Mathlib.Order.CompletePartialOrder

/-!
The grammar of numerals.

A numeral is a word of a regular language: blanks, a sign that may be missing, digits with a point and an
exponent that may be missing, and blanks again.  The reader goes over the bytes once, from left to
right, and takes every run of digits as far as it goes.  It accepts exactly the words of the language,
because no part of a numeral can begin with a byte that the part before it could have taken.
-/

namespace LuaCore

namespace Numeral

open Bytes (isDigit isHexDigit digitValue)
open scoped Computability

/-! ### The language -/

namespace Grammar

/-- One byte of a class. -/
def byte (p : UInt8 → Prop) : Language UInt8 := {w | ∃ c, p c ∧ w = [c]}

/-- At least one word of a language, one after the other. -/
def repeated (l : Language UInt8) : Language UInt8 := l * l∗

/-- A space, tab, line feed, carriage return, vertical tab or form feed. -/
def blank : Language UInt8 := byte (· ∈ [32, 9, 10, 13, 11, 12])

/-- A plus, a minus, or nothing. -/
def sign : Language UInt8 := 1 + byte (· ∈ [43, 45])

def point : Language UInt8 := byte (· = 46)

/-- `0` to `9`. -/
def digit : Language UInt8 := byte fun c => 48 ≤ c ∧ c ≤ 57

/-- A digit, `a` to `f` or `A` to `F`. -/
def hexDigit : Language UInt8 :=
  digit + byte (fun c => 97 ≤ c ∧ c ≤ 102) + byte (fun c => 65 ≤ c ∧ c ≤ 70)

/-- Digits with a point that may be missing, on at least one side of it. -/
def mantissa (d : Language UInt8) : Language UInt8 :=
  repeated d * (1 + point * d∗) + point * repeated d

/-- A letter of the given ones, a sign that may be missing, and decimal digits. -/
def exponent (letters : List UInt8) : Language UInt8 :=
  byte (· ∈ letters) * sign * repeated digit

/-- A mantissa with an exponent that may be missing. -/
def scaled (d : Language UInt8) (letters : List UInt8) : Language UInt8 :=
  mantissa d * (1 + exponent letters)

/-- The exponent is marked by `e` or `E`. -/
def decimal : Language UInt8 := scaled digit [101, 69]

/-- `0x` or `0X`. -/
def hexMark : Language UInt8 := byte (· = 48) * byte (· ∈ [120, 88])

/-- The exponent is marked by `p` or `P`. -/
def hexadecimal : Language UInt8 := hexMark * scaled hexDigit [112, 80]

/-- The words of a language with a sign before them and blanks around them, all of which may be
missing. -/
def signed (l : Language UInt8) : Language UInt8 := blank∗ * sign * l * blank∗

/-- **The numerals.** -/
def numeral : Language UInt8 := signed (hexadecimal + decimal)

/-- **The integers among the numerals**: hexadecimal digits alone, or decimal digits alone that, under
their sign, denote a number in the range of words. -/
def IsInteger (b : Bytes) : Prop :=
  b ∈ signed (hexMark * repeated hexDigit) ∨
    ∃ u s ds w, b = u ++ s ++ ds ++ w ∧ u ∈ blank∗ ∧ s ∈ sign ∧ ds ∈ repeated digit ∧ w ∈ blank∗ ∧
      Word.InRange (denoted (s == [45]) 10 ds)

/-! ### Words of bytes -/

variable {p q : UInt8 → Prop} {l m : Language UInt8} {c : UInt8} {w r : Bytes}

lemma byte_le (h : ∀ c, p c → q c) : byte p ≤ byte q := by
  rintro w ⟨c, hc, rfl⟩
  exact ⟨c, h c hc, rfl⟩

lemma byte_congr (h : ∀ c, p c ↔ q c) : byte p = byte q :=
  le_antisymm (byte_le fun c => (h c).1) (byte_le fun c => (h c).2)

lemma cons_mem_byte_mul : c :: w ∈ byte p * l ↔ p c ∧ w ∈ l := by
  rw [Language.mem_mul]
  constructor
  · rintro ⟨_, ⟨d, hd, rfl⟩, v, hv, heq⟩
    cases heq
    exact ⟨hd, hv⟩
  · rintro ⟨hc, hw⟩
    exact ⟨[c], ⟨c, hc, rfl⟩, w, hw, rfl⟩

lemma nil_not_mem_byte_mul : [] ∉ byte p * l := by
  rw [Language.mem_mul]
  rintro ⟨_, ⟨c, -, rfl⟩, v, -, heq⟩
  cases heq

lemma mem_kstar_byte : w ∈ (byte p)∗ ↔ ∀ c ∈ w, p c := by
  induction w with
  | nil => simp [Language.nil_mem_kstar]
  | cons c w ih =>
    rw [← Language.one_add_self_mul_kstar_eq_kstar, Language.mem_add, Language.mem_one,
      cons_mem_byte_mul, ih]
    simp

lemma mem_repeated_byte : w ∈ repeated (byte p) ↔ w ≠ [] ∧ ∀ c ∈ w, p c := by
  cases w with
  | nil => simp [repeated, nil_not_mem_byte_mul]
  | cons c w =>
    rw [repeated, cons_mem_byte_mul, mem_kstar_byte]
    simp

lemma blank_eq : blank = byte (isBlank · = true) := by
  apply byte_congr
  intro c
  simp only [isBlank, List.mem_cons, List.not_mem_nil, or_false, Bool.or_eq_true, beq_iff_eq,
    Bool.and_eq_true, decide_eq_true_eq, ← UInt8.toNat_inj, UInt8.le_iff_toNat_le]
  simp only [UInt8.reduceToNat]
  omega

lemma digit_eq : digit = byte (isDigit · = true) :=
  byte_congr fun _ => Bytes.isDigit_iff.symm

lemma hexDigit_eq : hexDigit = byte (isHexDigit · = true) := by
  ext w
  simp only [hexDigit, digit, Language.mem_add]
  constructor
  · rintro ((⟨c, hc, rfl⟩ | ⟨c, hc, rfl⟩) | ⟨c, hc, rfl⟩) <;>
      exact ⟨c, by simp [isHexDigit, isDigit, hc], rfl⟩
  · rintro ⟨c, hc, rfl⟩
    simp only [isHexDigit, isDigit, Bool.or_eq_true, Bool.and_eq_true, decide_eq_true_eq] at hc
    rcases hc with (hc | hc) | hc
    · exact Or.inl (Or.inl ⟨c, hc, rfl⟩)
    · exact Or.inr ⟨c, hc, rfl⟩
    · exact Or.inl (Or.inr ⟨c, hc, rfl⟩)

/-! ### Words without blanks -/

/-- The words without blanks. -/
def plain : Language UInt8 := (byte (isBlank · = false))∗

lemma mem_plain : w ∈ plain ↔ ∀ c ∈ w, isBlank c = false := mem_kstar_byte

lemma byte_le_plain (h : ∀ c, p c → isBlank c = false) : byte p ≤ plain :=
  (byte_le h).trans le_kstar

lemma mul_le_plain (hl : l ≤ plain) (hm : m ≤ plain) : l * m ≤ plain :=
  (mul_le_mul' hl hm).trans_eq (kstar_mul_kstar _)

lemma kstar_le_plain (hl : l ≤ plain) : l∗ ≤ plain := (kstar_mono hl).trans_eq (kstar_idem _)

lemma repeated_le_plain (hl : l ≤ plain) : repeated l ≤ plain := mul_le_plain hl (kstar_le_plain hl)

lemma optional_le_plain (hl : l ≤ plain) : 1 + l ≤ plain := add_le one_le_kstar hl

lemma not_isBlank_of_mem {cs : List UInt8} (h : cs.all (fun c => !isBlank c) = true) (hc : c ∈ cs) :
    isBlank c = false := by
  simpa using List.all_eq_true.1 h c hc

lemma sign_le_plain : sign ≤ plain :=
  optional_le_plain (byte_le_plain fun _ => not_isBlank_of_mem (by decide))

lemma digit_le_plain : digit ≤ plain := by
  refine byte_le_plain fun c hc => ?_
  simp only [isBlank, Bool.or_eq_false_iff, beq_eq_false_iff_ne, Bool.and_eq_false_iff,
    decide_eq_false_iff_not, ne_eq, ← UInt8.toNat_inj, UInt8.le_iff_toNat_le, UInt8.reduceToNat]
    at hc ⊢
  omega

lemma hexDigit_le_plain : hexDigit ≤ plain := by
  rw [hexDigit_eq]
  refine byte_le_plain fun c hc => ?_
  simp only [isHexDigit, isDigit, isBlank, Bool.or_eq_true, Bool.and_eq_true, decide_eq_true_eq,
    Bool.or_eq_false_iff, beq_eq_false_iff_ne, Bool.and_eq_false_iff, decide_eq_false_iff_not, ne_eq,
    ← UInt8.toNat_inj, UInt8.le_iff_toNat_le, UInt8.reduceToNat] at hc ⊢
  omega

lemma scaled_le_plain {cs : List UInt8} (hl : l ≤ plain)
    (hcs : cs.all (fun c => !isBlank c) = true) : scaled l cs ≤ plain := by
  have hpoint : point ≤ plain := byte_le_plain fun c hc => by rw [hc]; rfl
  refine mul_le_plain (add_le ?_ ?_) (optional_le_plain ?_)
  · exact mul_le_plain (repeated_le_plain hl)
      (optional_le_plain (mul_le_plain hpoint (kstar_le_plain hl)))
  · exact mul_le_plain hpoint (repeated_le_plain hl)
  · refine mul_le_plain (mul_le_plain ?_ sign_le_plain) (repeated_le_plain digit_le_plain)
    exact byte_le_plain fun _ => not_isBlank_of_mem hcs

lemma hexMark_le_plain : hexMark ≤ plain :=
  mul_le_plain (byte_le_plain fun c hc => by rw [hc]; rfl)
    (byte_le_plain fun _ => not_isBlank_of_mem (by decide))

lemma unsigned_le_plain : hexadecimal + decimal ≤ plain :=
  add_le (mul_le_plain hexMark_le_plain (scaled_le_plain hexDigit_le_plain (by decide)))
    (scaled_le_plain digit_le_plain (by decide))

/-! ### First bytes -/

/-- All words begin with a byte of the class. -/
def Begins (p : UInt8 → Prop) (l : Language UInt8) : Prop := ∀ w ∈ l, ∃ c r, w = c :: r ∧ p c

lemma begins_byte (h : ∀ c, p c → q c) : Begins q (byte p) := by
  rintro w ⟨c, hc, rfl⟩
  exact ⟨c, [], rfl, h c hc⟩

lemma Begins.mul (h : Begins p l) (m : Language UInt8) : Begins p (l * m) := by
  rintro w hw
  obtain ⟨a, ha, b, -, rfl⟩ := Language.mem_mul.1 hw
  obtain ⟨c, r, rfl, hc⟩ := h a ha
  exact ⟨c, r ++ b, rfl, hc⟩

lemma Begins.add (hl : Begins p l) (hm : Begins p m) : Begins p (l + m) := by
  rintro w (hw | hw)
  · exact hl w hw
  · exact hm w hw

/-- Neither a plus nor a minus. -/
def NoSign (c : UInt8) : Prop := c ≠ 43 ∧ c ≠ 45

lemma noSign_of_digit (hc : 48 ≤ c ∧ c ≤ 57) : NoSign c := by
  simp only [NoSign, ne_eq, ← UInt8.toNat_inj, UInt8.le_iff_toNat_le, UInt8.reduceToNat] at hc ⊢
  omega

lemma begins_digit : Begins NoSign digit := begins_byte fun _ => noSign_of_digit

lemma begins_hexMark : Begins NoSign hexMark :=
  Begins.mul (begins_byte fun c hc => by subst hc; exact ⟨by decide, by decide⟩) _

lemma begins_unsigned : Begins NoSign (hexadecimal + decimal) := by
  refine (begins_hexMark.mul _).add (Begins.mul (Begins.add ?_ ?_) _)
  · exact (begins_digit.mul _).mul _
  · exact (begins_byte fun c hc => by subst hc; exact ⟨by decide, by decide⟩).mul _

end Grammar

/-! ### Scanning -/

open Grammar

variable {u s b m r w ws fs : Bytes} {l : Language UInt8} {isD : UInt8 → Bool} {mark : UInt8}

section Runs

/-- A run of digits is taken as far as it goes. -/
lemma takeWhile_append_stop (hws : ∀ c ∈ ws, isD c = true) (hr : ∀ c ∈ r.head?, isD c = false) :
    (ws ++ r).takeWhile isD = ws ∧ (ws ++ r).dropWhile isD = r := by
  rw [List.takeWhile_append_of_pos hws, List.dropWhile_append_of_pos hws]
  cases r with
  | nil => simp
  | cons c r => simp [hr c rfl]

lemma splitMantissa_point (hpoint : isD 46 = false) (hws : ∀ c ∈ ws, isD c = true)
    (hfs : ∀ c ∈ fs, isD c = true) (hr : ∀ c ∈ r.head?, isD c = false) :
    splitMantissa isD (ws ++ 46 :: (fs ++ r)) = ⟨ws, fs, r⟩ := by
  obtain ⟨htake, hdrop⟩ := takeWhile_append_stop (r := 46 :: (fs ++ r)) hws (by simpa using hpoint)
  obtain ⟨htake', hdrop'⟩ := takeWhile_append_stop hfs hr
  simp only [splitMantissa, htake, hdrop, htake', hdrop']

lemma splitMantissa_whole (hws : ∀ c ∈ ws, isD c = true)
    (hr : ∀ c ∈ r.head?, isD c = false ∧ c ≠ 46) : splitMantissa isD (ws ++ r) = ⟨ws, [], r⟩ := by
  obtain ⟨htake, hdrop⟩ := takeWhile_append_stop hws fun c hc => (hr c hc).1
  simp only [splitMantissa, htake, hdrop]
  split
  · next r' => exact absurd rfl (hr 46 rfl).2
  · rfl

/-- What is split off is the beginning, with the point if there is one. -/
lemma splitMantissa_cases (isD : UInt8 → Bool) (b : Bytes) :
    (∀ c ∈ (splitMantissa isD b).whole, isD c = true) ∧
    (∀ c ∈ (splitMantissa isD b).fraction, isD c = true) ∧
    ∃ w, w ++ (splitMantissa isD b).rest = b ∧
      (w = (splitMantissa isD b).whole ++ 46 :: (splitMantissa isD b).fraction ∨
        w = (splitMantissa isD b).whole ∧ (splitMantissa isD b).fraction = []) := by
  have htake : ∀ b : Bytes, ∀ c ∈ b.takeWhile isD, isD c = true := fun b =>
    List.all_eq_true.1 List.all_takeWhile
  have hsplit := List.takeWhile_append_dropWhile (p := isD) (l := b)
  unfold splitMantissa
  split
  · next r hdrop =>
    refine ⟨htake b, htake r, _, ?_, Or.inl rfl⟩
    rw [List.append_assoc, List.cons_append, List.takeWhile_append_dropWhile, ← hdrop, hsplit]
  · exact ⟨htake b, by simp, _, hsplit, Or.inr ⟨rfl, rfl⟩⟩

end Runs

/-! ### Signs -/

/-- A sign is split off from a word that does not begin with one. -/
lemma splitSign_append (hs : s ∈ sign) (hr : ∀ c ∈ r.head?, NoSign c) :
    splitSign (s ++ r) = (s == [45], r) := by
  rcases hs with hs | ⟨c, hc, rfl⟩
  · obtain rfl : s = [] := hs
    cases r with
    | nil => rfl
    | cons c r =>
      have hc := hr c rfl
      show splitSign (c :: r) = (false, c :: r)
      unfold splitSign
      split
      · next heq => exact absurd (List.cons.inj heq).1 hc.2
      · next heq => exact absurd (List.cons.inj heq).1 hc.1
      · rfl
  · rcases List.mem_pair.1 hc with rfl | rfl <;> rfl

lemma exists_splitSign (b : Bytes) :
    ∃ s ∈ sign, b = s ++ (splitSign b).2 ∧ (splitSign b).1 = (s == [45]) := by
  unfold splitSign
  split
  · exact ⟨[45], Or.inr ⟨45, by simp, rfl⟩, rfl, rfl⟩
  · exact ⟨[43], Or.inr ⟨43, by simp, rfl⟩, rfl, rfl⟩
  · exact ⟨[], Or.inl rfl, rfl, rfl⟩

lemma Grammar.Begins.head (h : Begins NoSign l) (hw : w ∈ l) : ∀ c ∈ w.head?, NoSign c := by
  obtain ⟨c, r, rfl, hc⟩ := h w hw
  simpa using hc

lemma mem_sign_mul_iff (hl : Begins NoSign l) : b ∈ sign * l ↔ (splitSign b).2 ∈ l := by
  rw [Language.mem_mul]
  constructor
  · rintro ⟨s, hs, w, hw, rfl⟩
    rw [splitSign_append hs (hl.head hw)]
    exact hw
  · intro h
    obtain ⟨s, hs, hb, -⟩ := exists_splitSign b
    exact ⟨s, hs, _, h, hb.symm⟩

/-! ### Exponents and mantissas -/

lemma isSome_exponent? (mark : UInt8) (value : Bytes → Nat) (r : Bytes) :
    (exponent? mark value r).isSome = true ↔ r ∈ 1 + exponent [mark, mark - 32] := by
  rw [Language.mem_add, Language.mem_one]
  cases r with
  | nil => simp [exponent?]
  | cons c r =>
    have hdigits : Begins NoSign (repeated digit) := begins_digit.mul _
    rw [exponent, mul_assoc, cons_mem_byte_mul, mem_sign_mul_iff hdigits, digit_eq, mem_repeated_byte,
      exponent?]
    by_cases hc : (c == mark || c == mark - 32) = true
    · have hmem : c ∈ [mark, mark - 32] := by simpa using hc
      rw [if_pos hc]
      rcases splitSign r with ⟨negative, ds⟩
      by_cases hds : ds ≠ [] ∧ ∀ c ∈ ds, isDigit c = true
      · have htest : (ds.isEmpty || !ds.all isDigit) = false := by simpa using hds
        simpa [htest, hmem] using hds
      · have htest : (ds.isEmpty || !ds.all isDigit) = true := by
          rw [← Bool.not_eq_false]
          simpa using hds
        simp only [htest, if_true, hds]
        simp
    · have hmem : c ∉ [mark, mark - 32] := by simpa using hc
      rw [if_neg hc]
      simp [hmem]

lemma mem_mantissa {p : UInt8 → Prop} :
    w ∈ mantissa (byte p) ↔ ∃ ws fs, (∀ c ∈ ws, p c) ∧ (∀ c ∈ fs, p c) ∧ ws ++ fs ≠ [] ∧
      (w = ws ++ 46 :: fs ∨ w = ws ∧ fs = []) := by
  simp only [mantissa, point, Language.mem_add, Language.mem_mul, Language.mem_one, mem_repeated_byte,
    mem_kstar_byte]
  constructor
  · rintro (⟨ws, ⟨hne, hws⟩, _, rfl | ⟨_, ⟨_, rfl, rfl⟩, fs, hfs, rfl⟩, rfl⟩ |
      ⟨_, ⟨_, rfl, rfl⟩, fs, ⟨hne, hfs⟩, rfl⟩)
    · exact ⟨ws, [], hws, by simp, by simpa using hne, Or.inr ⟨by simp, rfl⟩⟩
    · exact ⟨ws, fs, hws, hfs, by simp [hne], Or.inl rfl⟩
    · exact ⟨[], fs, by simp, hfs, hne, Or.inl rfl⟩
  · rintro ⟨ws, fs, hws, hfs, hne, rfl | ⟨rfl, rfl⟩⟩
    · cases ws with
      | nil => exact Or.inr ⟨[46], ⟨46, rfl, rfl⟩, fs, ⟨hne, hfs⟩, rfl⟩
      | cons c ws =>
        exact Or.inl ⟨c :: ws, ⟨by simp, hws⟩, _, Or.inr ⟨[46], ⟨46, rfl, rfl⟩, fs, hfs, rfl⟩, rfl⟩
    · exact Or.inl ⟨w, ⟨by simpa using hne, hws⟩, [], Or.inl rfl, by simp⟩

/-- **The scanner accepts exactly the scaled mantissas**, for digits among which there is neither the
point nor the mark of the exponent. -/
lemma scan_iff (value : Bytes → Nat) (hpoint : isD 46 = false)
    (hmark : ∀ c ∈ [mark, mark - 32], isD c = false ∧ c ≠ 46) :
    ((splitMantissa isD b).whole ++ (splitMantissa isD b).fraction ≠ [] ∧
      (exponent? mark value (splitMantissa isD b).rest).isSome = true) ↔
    b ∈ scaled (byte (isD · = true)) [mark, mark - 32] := by
  simp only [isSome_exponent?]
  rw [scaled, Language.mem_mul]
  constructor
  · rintro ⟨hne, hrest⟩
    obtain ⟨hws, hfs, w, hw, hshape⟩ := splitMantissa_cases isD b
    exact ⟨w, mem_mantissa.2 ⟨_, _, hws, hfs, hne, hshape⟩, _, hrest, hw⟩
  · rintro ⟨w, hw, r, hr, rfl⟩
    -- what follows the mantissa begins with the mark of the exponent, if it is there
    have hstop : ∀ c ∈ r.head?, isD c = false ∧ c ≠ 46 := by
      intro c hc
      cases r with
      | nil => simp at hc
      | cons d r =>
        obtain rfl : d = c := by simpa using hc
        rw [Language.mem_add, Language.mem_one, exponent, mul_assoc, cons_mem_byte_mul] at hr
        exact hmark d (hr.resolve_left (by simp)).1
    obtain ⟨ws, fs, hws, hfs, hne, rfl | ⟨rfl, rfl⟩⟩ := mem_mantissa.1 hw
    · rw [List.append_assoc, List.cons_append,
        splitMantissa_point hpoint hws hfs fun c hc => (hstop c hc).1]
      exact ⟨hne, hr⟩
    · rw [splitMantissa_whole hws hstop]
      exact ⟨hne, hr⟩

/-! ### Blanks -/

lemma trim_append (hu : u ∈ blank∗) (hm : m ∈ plain) (hw : w ∈ blank∗) : trim (u ++ m ++ w) = m := by
  rw [blank_eq, mem_kstar_byte] at hu hw
  rw [mem_plain] at hm
  have hfront : ∀ {b r : Bytes}, (∀ c ∈ b, isBlank c = false) → b ≠ [] →
      (b ++ r).dropWhile isBlank = b ++ r := by
    intro b r hb hne
    cases b with
    | nil => exact absurd rfl hne
    | cons c b => simp [hb c (by simp)]
  have hback : ∀ c ∈ w.reverse, isBlank c = true := by simpa using hw
  rw [trim, List.append_assoc, List.dropWhile_append_of_pos hu]
  cases m with
  | nil =>
    have hall : w.dropWhile isBlank = [] := List.dropWhile_eq_nil_iff.2 hw
    simp [hall]
  | cons c m =>
    rw [hfront hm (by simp), List.reverse_append, List.dropWhile_append_of_pos hback]
    have hrev := hfront (b := (c :: m).reverse) (r := [])
      (fun d hd => hm d (List.mem_reverse.1 hd)) (by simp)
    rw [List.append_nil] at hrev
    rw [hrev, List.reverse_reverse]

lemma exists_trim (b : Bytes) : ∃ u ∈ blank∗, ∃ w ∈ blank∗, b = u ++ trim b ++ w := by
  have htake : ∀ b : Bytes, ∀ c ∈ b.takeWhile isBlank, isBlank c = true := fun b =>
    List.all_eq_true.1 List.all_takeWhile
  refine ⟨b.takeWhile isBlank, ?_, ((b.dropWhile isBlank).reverse.takeWhile isBlank).reverse, ?_, ?_⟩
  · rw [blank_eq, mem_kstar_byte]
    exact htake b
  · rw [blank_eq, mem_kstar_byte]
    intro c hc
    exact htake _ c (List.mem_reverse.1 hc)
  · rw [trim, List.append_assoc, ← List.reverse_append, List.takeWhile_append_dropWhile,
      List.reverse_reverse, List.takeWhile_append_dropWhile]

/-- **Blanks and sign are found**, around a word that has no blanks and does not begin with a sign. -/
lemma splitSign_trim (hu : u ∈ blank∗) (hs : s ∈ sign) (hw : w ∈ blank∗) (hl : l ≤ plain)
    (hbegins : Begins NoSign l) (hb : b ∈ l) : splitSign (trim (u ++ s ++ b ++ w)) = (s == [45], b) := by
  have hplain : s ++ b ∈ plain :=
    mul_le_plain sign_le_plain hl (Language.append_mem_mul hs hb)
  rw [List.append_assoc u, trim_append hu hplain hw, splitSign_append hs (hbegins.head hb)]

lemma exists_splitSign_trim (b : Bytes) :
    ∃ u s w, b = u ++ s ++ (splitSign (trim b)).2 ++ w ∧ u ∈ blank∗ ∧ s ∈ sign ∧ w ∈ blank∗ ∧
      (splitSign (trim b)).1 = (s == [45]) := by
  obtain ⟨u, hu, w, hw, hb⟩ := exists_trim b
  obtain ⟨s, hs, htrim, hneg⟩ := exists_splitSign (trim b)
  refine ⟨u, s, w, ?_, hu, hs, hw, hneg⟩
  rw [List.append_assoc u, ← htrim]
  exact hb

lemma mem_signed_iff (hl : l ≤ plain) (hbegins : Begins NoSign l) :
    b ∈ Grammar.signed l ↔ (splitSign (trim b)).2 ∈ l := by
  constructor
  · intro hb
    obtain ⟨x, hx, w, hw, rfl⟩ := Language.mem_mul.1 hb
    obtain ⟨y, hy, n, hn, rfl⟩ := Language.mem_mul.1 hx
    obtain ⟨u, hu, s, hs, rfl⟩ := Language.mem_mul.1 hy
    rw [splitSign_trim hu hs hw hl hbegins hn]
    exact hn
  · intro hn
    obtain ⟨u, s, w, hb, hu, hs, hw, -⟩ := exists_splitSign_trim b
    rw [hb]
    exact Language.append_mem_mul
      (Language.append_mem_mul (Language.append_mem_mul hu hs) hn) hw

/-! ### The reader without blanks and sign -/

section Unsigned

variable {negative : Bool}

lemma isSome_decimalDouble? : (decimalDouble? b).isSome = true ↔ b ∈ decimal := by
  have hletters : ([101, 69] : List UInt8) = [101, 101 - 32] := rfl
  have hmark : ∀ c ∈ ([101, 101 - 32] : List UInt8), isDigit c = false ∧ c ≠ 46 := by
    simp [isDigit]
  rw [decimal, digit_eq, hletters, ← scan_iff boundedExponent (by decide) hmark, decimalDouble?]
  by_cases h : (splitMantissa isDigit b).whole ++ (splitMantissa isDigit b).fraction = []
  · simp [h]
  · simp [h]

lemma isSome_hexDouble? : (hexDouble? b).isSome = true ↔ b ∈ scaled hexDigit [112, 80] := by
  have hletters : ([112, 80] : List UInt8) = [112, 112 - 32] := rfl
  have hmark : ∀ c ∈ ([112, 112 - 32] : List UInt8), isHexDigit c = false ∧ c ≠ 46 := by
    simp [isHexDigit, isDigit]
  rw [hexDigit_eq, hletters, ← scan_iff (Bytes.digitsValue 10) (by decide) hmark, hexDouble?]
  by_cases h : (splitMantissa isHexDigit b).whole ++ (splitMantissa isHexDigit b).fraction = []
  · simp [h]
  · simp [h]

/-- Digits alone are a mantissa without a point and without an exponent. -/
lemma mem_scaled_of_mem_repeated {letters : List UInt8} (hb : b ∈ repeated l) :
    b ∈ scaled l letters := by
  have hmantissa : b ++ [] ∈ repeated l * (1 + point * l∗) :=
    Language.append_mem_mul hb (Or.inl rfl)
  have hscaled : b ++ [] ++ [] ∈ scaled l letters :=
    Language.append_mem_mul (Or.inl hmantissa) (Or.inl rfl)
  simpa using hscaled

lemma test_iff {isD : UInt8 → Bool} :
    (!b.isEmpty && b.all isD) = true ↔ b ∈ repeated (byte (isD · = true)) := by
  rw [mem_repeated_byte]
  simp

lemma isSome_ofHex? : (ofHex? negative b).isSome = true ↔ b ∈ scaled hexDigit [112, 80] := by
  unfold ofHex?
  split
  · next h =>
    rw [test_iff, ← hexDigit_eq] at h
    exact iff_of_true rfl (mem_scaled_of_mem_repeated h)
  · simp [isSome_hexDouble?]

lemma exists_ofHex?_eq_int :
    (∃ i, ofHex? negative b = some (.int i)) ↔ b ∈ repeated hexDigit := by
  rw [hexDigit_eq, ← test_iff]
  unfold ofHex?
  split
  · next h => simp [h]
  · next h => simp [h]

lemma isSome_ofDecimal? : (ofDecimal? negative b).isSome = true ↔ b ∈ decimal := by
  have hdouble : ((decimalDouble? b).map fun x => Number.float (signed negative x)).isSome = true ↔
      b ∈ decimal := by
    rw [Option.isSome_map, isSome_decimalDouble?]
  unfold ofDecimal?
  split
  · next h =>
    rw [test_iff, ← digit_eq] at h
    split
    · exact iff_of_true rfl (mem_scaled_of_mem_repeated h)
    · exact hdouble
  · exact hdouble

/-- A run of decimal digits is read as an integer exactly if that is in range. -/
lemma exists_ofDecimal?_eq_int :
    (∃ i, ofDecimal? negative b = some (.int i)) ↔
      b ∈ repeated digit ∧ Word.InRange (denoted negative 10 b) := by
  unfold ofDecimal?
  by_cases htest : (!b.isEmpty && b.all isDigit) = true
  · have hmem : b ∈ repeated digit := by rwa [digit_eq, ← test_iff]
    rw [if_pos htest, decimalInt?_eq]
    by_cases hrange : Word.InRange (denoted negative 10 b)
    · obtain ⟨i, hi, -⟩ := Word.ofInt?_of_inRange hrange
      simp [hi, hmem, hrange]
    · rw [Word.ofInt?_eq_none_iff_not_inRange.2 hrange]
      simp [hrange]
  · have hmem : b ∉ repeated digit := by rwa [digit_eq, ← test_iff]
    rw [if_neg htest]
    simp [hmem]

/-! The two kinds are told apart by the mark. -/

lemma mem_hexMark_mul_iff : b ∈ hexMark * l ↔ ∃ r ∈ l, b = 48 :: 120 :: r ∨ b = 48 :: 88 :: r := by
  rw [hexMark, mul_assoc]
  constructor
  · intro hb
    match b, hb with
    | [], hb => exact absurd hb nil_not_mem_byte_mul
    | [c], hb => exact absurd (cons_mem_byte_mul.1 hb).2 nil_not_mem_byte_mul
    | c :: d :: r, hb =>
      obtain ⟨rfl, htail⟩ := cons_mem_byte_mul.1 hb
      obtain ⟨hd, hr⟩ := cons_mem_byte_mul.1 htail
      refine ⟨r, hr, ?_⟩
      rcases List.mem_pair.1 hd with rfl | rfl
      · exact Or.inl rfl
      · exact Or.inr rfl
  · rintro ⟨r, hr, rfl | rfl⟩
    · exact cons_mem_byte_mul.2 ⟨rfl, cons_mem_byte_mul.2 ⟨by simp, hr⟩⟩
    · exact cons_mem_byte_mul.2 ⟨rfl, cons_mem_byte_mul.2 ⟨by simp, hr⟩⟩

/-- No decimal numeral begins with the mark: behind its digits there is neither `x` nor `X`. -/
lemma not_mem_decimal {c : UInt8} (hc : c ∈ [120, 88]) (r : Bytes) : 48 :: c :: r ∉ decimal := by
  rw [← isSome_decimalDouble?]
  rcases List.mem_pair.1 hc with rfl | rfl
  · simp [decimalDouble?, splitMantissa, isDigit, exponent?]
  · simp [decimalDouble?, splitMantissa, isDigit, exponent?]

lemma isSome_ofUnsigned? : (ofUnsigned? negative b).isSome = true ↔ b ∈ hexadecimal + decimal := by
  rw [Language.mem_add, hexadecimal, mem_hexMark_mul_iff]
  fun_cases ofUnsigned? negative b with
  | case1 r =>
    rw [isSome_ofHex?, or_iff_left (not_mem_decimal (by simp) r)]
    simp
  | case2 r =>
    rw [isSome_ofHex?, or_iff_left (not_mem_decimal (by simp) r)]
    simp
  | case3 b h120 h88 =>
    rw [isSome_ofDecimal?, or_iff_right]
    rintro ⟨r, -, hb | hb⟩
    · exact h120 r hb
    · exact h88 r hb

lemma exists_ofUnsigned?_eq_int :
    (∃ i, ofUnsigned? negative b = some (.int i)) ↔ b ∈ hexMark * repeated hexDigit ∨
      b ∈ repeated digit ∧ Word.InRange (denoted negative 10 b) := by
  rw [mem_hexMark_mul_iff]
  fun_cases ofUnsigned? negative b with
  | case1 r =>
    rw [exists_ofHex?_eq_int, or_iff_left]
    · simp
    · exact fun h => not_mem_decimal (by simp) r (mem_scaled_of_mem_repeated h.1)
  | case2 r =>
    rw [exists_ofHex?_eq_int, or_iff_left]
    · simp
    · exact fun h => not_mem_decimal (by simp) r (mem_scaled_of_mem_repeated h.1)
  | case3 b h120 h88 =>
    rw [exists_ofDecimal?_eq_int, or_iff_right]
    rintro ⟨r, -, hb | hb⟩
    · exact h120 r hb
    · exact h88 r hb

end Unsigned

end Numeral

namespace Number

open Numeral Numeral.Grammar
open scoped Computability

variable {b : Bytes}

lemma ofNumeral?_eq (b : Bytes) :
    ofNumeral? b = ofUnsigned? (splitSign (trim b)).1 (splitSign (trim b)).2 := rfl

lemma isSome_ofNumeral? : (ofNumeral? b).isSome = true ↔ b ∈ numeral := by
  rw [ofNumeral?_eq, isSome_ofUnsigned?, numeral, mem_signed_iff unsigned_le_plain begins_unsigned]

lemma exists_ofNumeral?_eq_int : (∃ i, ofNumeral? b = some (.int i)) ↔ IsInteger b := by
  have hhex : hexMark * repeated hexDigit ≤ plain :=
    mul_le_plain hexMark_le_plain (repeated_le_plain hexDigit_le_plain)
  have hdigits : repeated digit ≤ plain := repeated_le_plain digit_le_plain
  rw [ofNumeral?_eq, exists_ofUnsigned?_eq_int, IsInteger,
    mem_signed_iff hhex (begins_hexMark.mul _)]
  apply or_congr_right
  constructor
  · rintro ⟨hds, hrange⟩
    obtain ⟨u, s, w, hb, hu, hs, hw, hneg⟩ := exists_splitSign_trim b
    rw [hneg] at hrange
    exact ⟨u, s, _, w, hb, hu, hs, hds, hw, hrange⟩
  · rintro ⟨u, s, ds, w, rfl, hu, hs, hds, hw, hrange⟩
    rw [splitSign_trim hu hs hw hdigits (begins_digit.mul _) hds]
    exact ⟨hds, hrange⟩

/-- **The reader accepts exactly the numerals.**  A byte string is read if and only if it is a numeral.
It is read as an integer if and only if the numeral is made of hexadecimal digits alone, or of decimal
digits alone that denote a number in the range of words under their sign; every other numeral is read as
a double. -/
theorem ofNumeral?_grammar (b : Bytes) :
    ((ofNumeral? b).isSome = true ↔ b ∈ numeral) ∧
    ((∃ i, ofNumeral? b = some (.int i)) ↔ IsInteger b) ∧
    ((∃ x, ofNumeral? b = some (.float x)) ↔ b ∈ numeral ∧ ¬IsInteger b) := by
  refine ⟨isSome_ofNumeral?, exists_ofNumeral?_eq_int, ?_⟩
  rw [← isSome_ofNumeral?, ← exists_ofNumeral?_eq_int]
  rcases ofNumeral? b with _ | _ | _ <;> simp

end Number

end LuaCore

