import LuaCore.Config.Json
import Mathlib.Data.Nat.Digits.Defs

/-!
Documents are read as they are written.

A document is written without blanks.  A number that is no natural number is written as one that is
negative, and a string without a text as half a surrogate pair, so that every document has a written
form.  Main statement: reading the written form gives the document.
-/

namespace LuaCore

namespace Json

variable {c : Char} {s r : List Char} {n : ℕ}

/-! ### Writing -/

/-- A character of a string.  The marks are escaped, and so is what comes before the blank. -/
def writeChar (c : Char) : List Char :=
  if c = '"' ∨ c = '\\' then ['\\', c]
  else if c.toNat < 32 then
    ['\\', 'u', '0', '0', Nat.digitChar (c.toNat / 16), Nat.digitChar (c.toNat % 16)]
  else [c]

/-- A string behind its opening mark. -/
def writeUnits : Option String → List Char
  | some s => s.toList.flatMap writeChar ++ ['"']
  | none => ['\\', 'u', 'd', '8', '0', '0', '"']

mutual
/-- A document. -/
def write : Json → List Char
  | null => ['n', 'u', 'l', 'l']
  | bool true => ['t', 'r', 'u', 'e']
  | bool false => ['f', 'a', 'l', 's', 'e']
  | number (some n) => Nat.toDigits 10 n
  | number none => ['-', '0']
  | string s => '"' :: writeUnits s
  | array [] => ['[', ']']
  | array (x :: xs) => '[' :: (write x ++ writeItems xs)
  | object [] => ['\x7b', '\x7d']
  | object ((k, x) :: fs) => '\x7b' :: '"' :: (writeUnits k ++ ':' :: (write x ++ writeFields fs))
/-- The items behind the first one, up to the closing bracket. -/
def writeItems : List Json → List Char
  | [] => [']']
  | x :: xs => ',' :: (write x ++ writeItems xs)
/-- The fields behind the first one, up to the closing brace. -/
def writeFields : List (Option String × Json) → List Char
  | [] => ['\x7d']
  | (k, x) :: fs => ',' :: '"' :: (writeUnits k ++ ':' :: (write x ++ writeFields fs))
end

/-- The text of a document. -/
def text (j : Json) : String := String.ofList j.write

/-! ### Numbers -/

/-- What may stand behind a value. -/
def Ends (r : List Char) : Prop := ∀ c ∈ r.head?, c = ',' ∨ c = ']' ∨ c = '\x7d'

lemma ends_nil : Ends [] := by
  intro c hc
  cases hc

lemma ends_writeItems (xs : List Json) (r : List Char) : Ends (writeItems xs ++ r) := by
  cases xs <;> simp [Ends, writeItems]

lemma ends_writeFields (fs : List (Option String × Json)) (r : List Char) :
    Ends (writeFields fs ++ r) := by
  rcases fs with _ | ⟨⟨k, x⟩, fs⟩ <;> simp [Ends, writeFields]

/-- Digits are read up to their end. -/
lemma readDigits_append {ds : List Char} (hds : ∀ c ∈ ds, c.isDigit = true) (hne : ds ≠ [])
    (hr : ∀ c ∈ r.head?, c.isDigit = false) : readDigits (ds ++ r) = some (ds, r) := by
  have htake : r.takeWhile Char.isDigit = [] ∧ r.dropWhile Char.isDigit = r := by
    cases r with
    | nil => exact ⟨rfl, rfl⟩
    | cons c r => simp [hr c rfl]
  rw [readDigits, List.takeWhile_append_of_pos hds, List.dropWhile_append_of_pos hds, htake.1,
    htake.2, List.append_nil]
  cases ds with
  | nil => exact absurd rfl hne
  | cons d ds => rfl

lemma ne_of_isDigit {d : Char} (hc : c.isDigit = true) (hd : d.isDigit = false) : c ≠ d := by
  rintro rfl
  rw [hc] at hd
  cases hd

lemma exists_toDigits (n : ℕ) : ∃ d ds, Nat.toDigits 10 n = d :: ds ∧ d.isDigit = true := by
  obtain ⟨d, ds, hds⟩ := List.exists_cons_of_ne_nil (Nat.toDigits_ne_nil (n := n) (b := 10))
  exact ⟨d, ds, hds,
    Nat.isDigit_of_mem_toDigits (by omega) (le_refl 10) (hds ▸ List.mem_cons_self)⟩

/-- A number of two digits or more does not start with a zero. -/
lemma head?_toDigits (hn : 10 ≤ n) : (Nat.toDigits 10 n).head? ≠ some '0' := by
  induction n using Nat.strongRecOn with
  | _ n ih =>
    obtain ⟨d, hd⟩ := Option.isSome_iff_exists.1
      (List.isSome_head?.2 (Nat.toDigits_ne_nil (n := n / 10) (b := 10)))
    rw [Nat.toDigits_of_base_le (by omega) hn, List.head?_append, hd, Option.some_or, ← hd]
    by_cases hsmall : n / 10 < 10
    · have hdigit : ∀ d < 10, 0 < d → d.digitChar ≠ '0' := by decide
      rw [Nat.toDigits_of_lt_base hsmall]
      simpa using hdigit (n / 10) hsmall (by omega)
    · exact ih (n / 10) (by omega) (by omega)

lemma readWhole_toDigits (n : ℕ) (hr : ∀ c ∈ r.head?, c.isDigit = false) :
    readWhole (Nat.toDigits 10 n ++ r) = some (Nat.toDigits 10 n, r) := by
  have hdigits : readDigits (Nat.toDigits 10 n ++ r) = some (Nat.toDigits 10 n, r) :=
    readDigits_append (fun c => Nat.isDigit_of_mem_toDigits (by omega) (le_refl 10))
      Nat.toDigits_ne_nil hr
  have hzero : ¬ ((Nat.toDigits 10 n).length > 1 && (Nat.toDigits 10 n).head? == some '0') = true := by
    by_cases hn : 10 ≤ n
    · simp [head?_toDigits hn]
    · simp [Nat.toDigits_of_lt_base (show n < 10 by omega)]
  rw [readWhole, hdigits]
  exact if_neg hzero

/-- Behind a number there is neither a digit nor a fraction nor an exponent. -/
lemma Ends.reads (hr : Ends r) : (∀ c ∈ r.head?, c.isDigit = false) ∧
    readFraction r = some (false, r) ∧ readExponent r = some (false, r) := by
  cases r with
  | nil => exact ⟨by simp, rfl, rfl⟩
  | cons c r =>
    rcases hr c rfl with rfl | rfl | rfl
    all_goals exact ⟨by simp, rfl, rfl⟩

lemma readNumber_toDigits (n : ℕ) (hr : Ends r) :
    readNumber (Nat.toDigits 10 n ++ r) = some (.number (some n), r) := by
  obtain ⟨hdigit, hfraction, hexponent⟩ := hr.reads
  have hwhole := readWhole_toDigits n hdigit
  have hvalue : (Nat.toDigits 10 n).foldl (fun n c => n * 10 + (c.toNat - 48)) 0 = n := by
    have hfold := Nat.ofDigitChars_ten_toDigits (n := n)
    rw [Nat.ofDigitChars_eq_foldl] at hfold
    simp only [Nat.mul_comm] at hfold
    exact hfold
  have hsign : readSign (Nat.toDigits 10 n ++ r) = (false, Nat.toDigits 10 n ++ r) := by
    obtain ⟨d, ds, hds, hd⟩ := exists_toDigits n
    rw [hds, List.cons_append, readSign]
    intro s hs
    obtain rfl := (List.cons.inj hs).1
    cases hd
  simp only [readNumber, hsign, hwhole, hfraction, hexponent, hvalue, Option.bind_eq_bind,
    Option.bind_some]
  rfl

lemma readNumber_negative (hr : Ends r) : readNumber ('-' :: '0' :: r) = some (.number none, r) := by
  obtain ⟨hdigit, hfraction, hexponent⟩ := hr.reads
  have hwhole : readWhole ('0' :: r) = some (['0'], r) := readWhole_toDigits 0 hdigit
  simp only [readNumber, readSign, hwhole, hfraction, hexponent, Option.bind_eq_bind,
    Option.bind_some]
  rfl

/-! ### Strings -/

/-- The unit of a character that is written. -/
def unitOf (c : Char) : Unit16 :=
  if c.toNat < 32 then .escape c.toNat else .char c

lemma text?_unitOf (c : Char) (us : List Unit16) : text? (unitOf c :: us) = (text? us).map (c :: ·) := by
  unfold unitOf
  split
  · next hc =>
    -- it is no surrogate
    have hlow : (decide (c.toNat < 0xd800) || decide (0xdfff < c.toNat)) = true := by
      rw [Bool.or_eq_true, decide_eq_true_iff]
      exact Or.inl (by omega)
    rw [text?.eq_def]
    simp only [hlow, if_true, Char.ofNat_toNat]
  · rfl

/-- The code of a character before the blank is written in two digits. -/
lemma hexValue?_digitChar (hn : n < 32) :
    hexValue? (Nat.digitChar (n / 16)) = some (n / 16) ∧
      hexValue? (Nat.digitChar (n % 16)) = some (n % 16) := by
  have hdigit : ∀ d < 16, hexValue? (Nat.digitChar d) = some d := by decide
  exact ⟨hdigit _ (by omega), hdigit _ (by omega)⟩

/-- **One character.** -/
lemma readUnits_writeChar {us : List Unit16} (c : Char) (hs : readUnits s = some (us, r)) :
    readUnits (writeChar c ++ s) = some (unitOf c :: us, r) := by
  unfold writeChar
  split
  · next hmark =>
    rcases hmark with rfl | rfl
    · simp [readUnits, simpleEscape?, hs, unitOf]
    · simp [readUnits, simpleEscape?, hs, unitOf]
  · next hmark =>
    obtain ⟨hquote, hslash⟩ := not_or.1 hmark
    split
    · next hc =>
      obtain ⟨hhigh, hlow⟩ := hexValue?_digitChar hc
      have hzero : hexValue? '0' = some 0 := rfl
      have hcode : 0 * 4096 + 0 * 256 + c.toNat / 16 * 16 + c.toNat % 16 = c.toNat := by omega
      simp only [List.cons_append, List.nil_append, readUnits, hzero, hhigh, hlow, hs,
        Option.bind_eq_bind, Option.bind_some, hcode, unitOf, if_pos hc]
    · next hc =>
      rw [List.singleton_append, readUnits, if_neg hc, hs, unitOf, if_neg hc]
      · rfl
      · exact hquote
      · exact fun _ _ _ _ _ heq _ => hslash heq
      · exact fun _ _ heq _ => hslash heq

/-- The characters of a string, up to its closing mark. -/
lemma exists_readUnits (cs r : List Char) :
    ∃ us, readUnits (cs.flatMap writeChar ++ '"' :: r) = some (us, r) ∧ text? us = some cs := by
  induction cs with
  | nil => exact ⟨[], by simp [readUnits], rfl⟩
  | cons c cs ih =>
    obtain ⟨us, hus, htext⟩ := ih
    refine ⟨unitOf c :: us, ?_, by rw [text?_unitOf, htext]; rfl⟩
    rw [List.flatMap_cons, List.append_assoc]
    exact readUnits_writeChar c hus

lemma readString_writeUnits (k : Option String) (r : List Char) :
    readString (writeUnits k ++ r) = some (k, r) := by
  cases k with
  | none => simp [writeUnits, readString, readUnits, hexValue?, text?]
  | some s =>
    obtain ⟨us, hus, htext⟩ := exists_readUnits s.toList r
    rw [writeUnits, List.append_assoc, readString, List.singleton_append, hus]
    simp [htext]

/-! ### Documents -/

lemma skipBlanks_cons (hc : isBlank c = false) (s : List Char) : skipBlanks (c :: s) = c :: s :=
  List.dropWhile_cons_of_neg (by simp [hc])

/-- A document starts with no blank, and with no bracket that closes. -/
lemma exists_write (j : Json) : ∃ c s, j.write = c :: s ∧ isBlank c = false ∧ c ≠ ']' := by
  cases j with
  | null => exact ⟨_, _, rfl, by decide⟩
  | bool b => cases b <;> exact ⟨_, _, rfl, by decide⟩
  | number v =>
    cases v with
    | none => exact ⟨_, _, rfl, by decide⟩
    | some n =>
      obtain ⟨d, ds, hds, hd⟩ := exists_toDigits n
      refine ⟨d, ds, by rw [write, hds], ?_, ne_of_isDigit hd rfl⟩
      simp [isBlank, ne_of_isDigit hd]
  | string k => exact ⟨_, _, rfl, by decide⟩
  | array items => cases items <;> exact ⟨_, _, rfl, by decide⟩
  | object fields => rcases fields with _ | ⟨⟨k, x⟩, fs⟩ <;> exact ⟨_, _, rfl, by decide⟩

/-- A digit or a sign starts a number. -/
lemma readValue_number (hc : c.isDigit = true ∨ c = '-') (n : ℕ) (s : List Char) :
    readValue (n + 1) (c :: s) = readNumber (c :: s) := by
  have hne : ∀ d, d.isDigit = false → d ≠ '-' → c ≠ d := by
    intro d hd hminus
    rcases hc with hc | rfl
    · exact ne_of_isDigit hc hd
    · exact hminus.symm
  have hbrace : c.toNat ≠ 123 := fun heq => hne '\x7b' rfl (by decide) (Char.toNat_inj.1 heq)
  rw [readValue, if_neg hbrace]
  all_goals exact hne _ rfl (by decide)

lemma skipBlanks_write (j : Json) (s : List Char) : skipBlanks (j.write ++ s) = j.write ++ s := by
  obtain ⟨c, t, hj, hblank, -⟩ := exists_write j
  rw [hj]
  exact skipBlanks_cons hblank _

/-- **The items of an array**, where one item is read as it is written. -/
lemma readItems_write {item : List Char → Option (Json × List Char)} {x : Json} {xs : List Json}
    (hitem : ∀ y ∈ x :: xs, ∀ r, Ends r → item (y.write ++ r) = some (y, r)) (hn : xs.length ≤ n) :
    readItems item (n + 1) (x.write ++ (writeItems xs ++ r)) = some (x :: xs, r) := by
  induction xs generalizing x n with
  | nil =>
    rw [readItems, skipBlanks_write, hitem x List.mem_cons_self _ (ends_writeItems [] r)]
    rfl
  | cons y xs ih =>
    cases n with
    | zero => simp at hn
    | succ n =>
      have hrest := ih (fun z hz => hitem z (List.mem_cons_of_mem x hz)) (Nat.le_of_succ_le_succ hn)
      rw [readItems, skipBlanks_write, hitem x List.mem_cons_self _ (ends_writeItems _ r), writeItems,
        List.cons_append, List.append_assoc]
      show Option.map _ (readItems item (n + 1) (y.write ++ (writeItems xs ++ r))) = _
      rw [hrest]
      rfl

/-- **The fields of an object**, likewise. -/
lemma readFields_write {item : List Char → Option (Json × List Char)} {k : Option String} {x : Json}
    {fs : List (Option String × Json)}
    (hitem : ∀ f ∈ (k, x) :: fs, ∀ r, Ends r → item (f.2.write ++ r) = some (f.2, r))
    (hn : fs.length ≤ n) :
    readFields item (n + 1) ('"' :: (writeUnits k ++ ':' :: (x.write ++ (writeFields fs ++ r)))) =
      some ((k, x) :: fs, r) := by
  have hstart : ∀ s, skipBlanks ('"' :: s) = '"' :: s := skipBlanks_cons rfl
  have hcolon : ∀ s, expect [':'] (skipBlanks (':' :: s)) = some s := fun s => rfl
  induction fs generalizing k x n with
  | nil =>
    have hfirst := hitem (k, x) List.mem_cons_self _ (ends_writeFields [] r)
    rw [readFields, hstart]
    simp only [readString_writeUnits, hcolon, skipBlanks_write, hfirst, Option.bind_eq_bind,
      Option.bind_some]
    rfl
  | cons f fs ih =>
    cases n with
    | zero => simp at hn
    | succ n =>
      have hfirst := hitem (k, x) List.mem_cons_self _ (ends_writeFields (f :: fs) r)
      have hrest := ih (fun g hg => hitem g (List.mem_cons_of_mem _ hg)) (Nat.le_of_succ_le_succ hn)
      rw [readFields, hstart]
      simp only [readString_writeUnits, hcolon, skipBlanks_write, hfirst, Option.bind_eq_bind,
        Option.bind_some]
      rw [writeFields]
      simp only [List.cons_append, List.append_assoc]
      show Option.map _ (readFields item (n + 1)
        ('"' :: (writeUnits f.1 ++ ':' :: (f.2.write ++ (writeFields fs ++ r))))) = _
      rw [hrest]
      rfl

/-! #### Lengths -/

lemma length_write_pos (j : Json) : 0 < j.write.length := by
  obtain ⟨c, s, hj, -⟩ := exists_write j
  rw [hj]
  exact Nat.succ_pos _

/-- There is a character for each item, and an item is shorter than all of them. -/
lemma length_writeItems (xs : List Json) :
    xs.length < (writeItems xs).length ∧ ∀ x ∈ xs, x.write.length < (writeItems xs).length := by
  induction xs with
  | nil => simp [writeItems]
  | cons y xs ih =>
    have hpos := length_write_pos y
    rw [writeItems, List.length_cons, List.length_cons, List.length_append]
    refine ⟨by omega, fun x hx => ?_⟩
    rcases List.mem_cons.1 hx with rfl | hx
    · omega
    · have hshort := ih.2 x hx
      omega

lemma length_writeFields (fs : List (Option String × Json)) :
    fs.length < (writeFields fs).length ∧ ∀ f ∈ fs, f.2.write.length < (writeFields fs).length := by
  induction fs with
  | nil => simp [writeFields]
  | cons g fs ih =>
    simp only [writeFields, List.length_cons, List.length_append]
    refine ⟨by omega, fun f hf => ?_⟩
    rcases List.mem_cons.1 hf with rfl | hf
    · omega
    · have hshort := ih.2 f hf
      omega

lemma readValue_array {x : Json} {xs : List Json}
    (hitems : readItems (readValue n) n (x.write ++ s) = some (xs, r)) :
    readValue (n + 1) ('[' :: (x.write ++ s)) = some (.array xs, r) := by
  obtain ⟨c, t, hx, -, hc⟩ := exists_write x
  rw [readValue, skipBlanks_write]
  split
  · next hclose =>
    rw [hx] at hclose
    exact absurd (List.cons.inj hclose).1 hc
  · rw [hitems]
    rfl

lemma readValue_object {fs : List (Option String × Json)}
    (hfields : readFields (readValue n) n ('"' :: s) = some (fs, r)) :
    readValue (n + 1) ('\x7b' :: '"' :: s) = some (.object fs, r) := by
  have hstart : skipBlanks ('"' :: s) = '"' :: s := skipBlanks_cons rfl s
  simp [readValue, hstart, hfields]

/-- **A document is read as it is written**, with what stands behind it left.  The induction is on the
fuel: an item or a field is shorter than the document. -/
theorem readValue_write (j : Json) (hn : j.write.length < n) (hr : Ends r) :
    readValue n (j.write ++ r) = some (j, r) := by
  induction n generalizing j r with
  | zero => exact absurd hn (Nat.not_lt_zero _)
  | succ n ih =>
    cases j with
    | null => rfl
    | bool b => cases b <;> rfl
    | number v =>
      cases v with
      | none => exact (readValue_number (Or.inr rfl) n _).trans (readNumber_negative hr)
      | some m =>
        obtain ⟨d, ds, hds, hd⟩ := exists_toDigits m
        have hnumber := readNumber_toDigits m hr
        rw [write]
        rw [hds, List.cons_append] at hnumber ⊢
        exact (readValue_number (Or.inl hd) n _).trans hnumber
    | string k =>
      rw [write, List.cons_append, readValue, readString_writeUnits]
      rfl
    | array items =>
      cases items with
      | nil => rfl
      | cons x xs =>
        obtain ⟨hcount, hshort⟩ := length_writeItems xs
        have hpos := length_write_pos x
        simp only [write, List.length_cons, List.length_append] at hn
        obtain ⟨n, rfl⟩ := Nat.exists_eq_add_one_of_ne_zero (show n ≠ 0 by omega)
        have hitem : ∀ y ∈ x :: xs, ∀ r, Ends r → readValue (n + 1) (y.write ++ r) = some (y, r) := by
          intro y hy r hr
          refine ih y ?_ hr
          rcases List.mem_cons.1 hy with rfl | hy
          · omega
          · have hlt := hshort y hy
            omega
        rw [write, List.cons_append, List.append_assoc]
        exact readValue_array (readItems_write hitem (by omega))
    | object fields =>
      cases fields with
      | nil => rfl
      | cons f fs =>
        obtain ⟨hcount, hshort⟩ := length_writeFields fs
        simp only [write, List.length_cons, List.length_append] at hn
        obtain ⟨n, rfl⟩ := Nat.exists_eq_add_one_of_ne_zero (show n ≠ 0 by omega)
        have hitem : ∀ g ∈ f :: fs, ∀ r, Ends r →
            readValue (n + 1) (g.2.write ++ r) = some (g.2, r) := by
          intro g hg r hr
          refine ih g.2 ?_ hr
          rcases List.mem_cons.1 hg with rfl | hg
          · omega
          · have hlt := hshort g hg
            omega
        simp only [write, List.cons_append, List.append_assoc]
        exact readValue_object (readFields_write hitem (by omega))

/-- **Reading gives every document back from its text.** -/
theorem parse?_text (j : Json) : parse? j.text = some j := by
  have hread : readValue (j.write.length + 1) (j.write ++ []) = some (j, []) :=
    readValue_write j (Nat.lt_succ_self _) ends_nil
  have hskip := skipBlanks_write j []
  rw [List.append_nil] at hread hskip
  rw [parse?, text, String.toList_ofList, hskip, hread]
  rfl

end Json

end LuaCore
