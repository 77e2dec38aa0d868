import LuaCore.Sequence.Reading
import Mathlib.Data.List.Chain
import Mathlib.Data.List.GetD
import Mathlib.Data.List.Nodup
import Mathlib.Data.List.Perm.Subperm
import Mathlib.Logic.Relation

/-!
The list of a sequence.

A sequence has its own values, and behind them the results of the call that it ends in, if that has
been made.  So it stands for a list, as long as no results lead back to their own call.  Counting,
reading a position, cutting and putting values in front all agree with that list.
-/

namespace LuaCore

namespace Sequence

variable {l : Ledger} {s t r : Sequence} {vs ws : List Value} {n i k : Nat}

/-- **The list of a sequence**, as far as the calls of the ledger have been made. -/
inductive Lists (l : Ledger) : Sequence → List Value → Prop where
  | empty : Lists l .empty []
  | one (v : Value) : Lists l (.one v) [v]
  | pair (v w : Value) : Lists l (.pair v w) [v, w]
  | slice {values : Array Value} {start : Nat} {inside : start < values.size} {more : Sequence}
      {vs : List Value} : Lists l more vs →
      Lists l (.slice values start inside more) (values.toList.drop start ++ vs)
  | prepend {v : Value} {rest : Sequence} {vs : List Value} :
      Lists l rest vs → Lists l (.prepend v rest) (v :: vs)
  | pending {c : CallId} : l.result? c = none → Lists l (.ofCall c) []
  | made {c : CallId} {r : Sequence} {vs : List Value} :
      l.result? c = some r → Lists l r vs → Lists l (.ofCall c) vs

lemma Lists.unique (hv : Lists l s vs) (hw : Lists l s ws) : vs = ws := by
  induction hv generalizing ws with
  | empty => cases hw; rfl
  | one v => cases hw; rfl
  | pair v w => cases hw; rfl
  | slice _ ih =>
    cases hw with
    | slice hmore => rw [ih hmore]
  | prepend _ ih =>
    cases hw with
    | prepend hrest => rw [ih hrest]
  | pending hnone =>
    cases hw with
    | pending _ => rfl
    | made hr _ => simp [hnone] at hr
  | made hr _ ih =>
    cases hw with
    | pending hnone => simp [hr] at hnone
    | made hr' hlists =>
      cases hr.symm.trans hr'
      exact ih hlists

/-! ### Own values, and what is behind them -/

/-- The values in front of the call that a sequence ends in. -/
def own : Sequence → List Value
  | empty => []
  | one v => [v]
  | pair v w => [v, w]
  | slice values start _ more => values.toList.drop start ++ more.own
  | prepend v rest => v :: rest.own
  | ofCall _ => []

/-- The call that a sequence ends in. -/
def last? : Sequence → Option CallId
  | slice _ _ _ more => more.last?
  | prepend _ rest => rest.last?
  | ofCall c => some c
  | _ => none

/-- The sequence that goes on behind the own values: the results of the call. -/
def behind? (s : Sequence) (l : Ledger) : Option Sequence := s.last?.bind l.result?

/-- The call of a sequence without own values is all that there is of it. -/
lemma eq_empty_of_own_eq_nil (hown : s.own = []) (hcall : s.call? = none) : s = .empty := by
  cases s with
  | empty => rfl
  | slice values start inside more =>
    have := congrArg List.length hown
    simp only [own, List.length_append, List.length_drop, Array.length_toList,
      List.length_nil] at this
    omega
  | ofCall c => simp at hcall
  | _ => simp [own] at hown

lemma lists_iff_of_behind_none (hs : s.behind? l = none) : Lists l s vs ↔ vs = s.own := by
  induction s generalizing vs with
  | empty => exact ⟨fun h => by cases h; rfl, fun h => h ▸ .empty⟩
  | one v => exact ⟨fun h => by cases h; rfl, fun h => h ▸ .one v⟩
  | pair v w => exact ⟨fun h => by cases h; rfl, fun h => h ▸ .pair v w⟩
  | slice values start inside more ih =>
    refine ⟨fun h => ?_, fun h => h ▸ .slice ((ih hs).2 rfl)⟩
    cases h with
    | slice hmore => rw [own, (ih hs).1 hmore]
  | prepend v rest ih =>
    refine ⟨fun h => ?_, fun h => h ▸ .prepend ((ih hs).2 rfl)⟩
    cases h with
    | prepend hrest => rw [own, (ih hs).1 hrest]
  | ofCall c =>
    refine ⟨fun h => ?_, fun h => h ▸ .pending hs⟩
    cases h with
    | pending _ => rfl
    | made hr _ => exact absurd (hs.symm.trans hr) (by simp)

lemma lists_iff_of_behind_some (hs : s.behind? l = some r) :
    Lists l s vs ↔ ∃ ws, Lists l r ws ∧ vs = s.own ++ ws := by
  induction s generalizing vs with
  | empty => simp [behind?, last?] at hs
  | one v => simp [behind?, last?] at hs
  | pair v w => simp [behind?, last?] at hs
  | slice values start inside more ih =>
    constructor
    · intro h
      cases h with
      | slice hmore =>
        obtain ⟨ws, hws, rfl⟩ := (ih hs).1 hmore
        exact ⟨ws, hws, by simp [own]⟩
    · rintro ⟨ws, hws, rfl⟩
      rw [own, List.append_assoc]
      exact .slice ((ih hs).2 ⟨ws, hws, rfl⟩)
  | prepend v rest ih =>
    constructor
    · intro h
      cases h with
      | prepend hrest =>
        obtain ⟨ws, hws, rfl⟩ := (ih hs).1 hrest
        exact ⟨ws, hws, rfl⟩
    · rintro ⟨ws, hws, rfl⟩
      exact .prepend ((ih hs).2 ⟨ws, hws, rfl⟩)
  | ofCall c =>
    constructor
    · intro h
      cases h with
      | pending hnone => exact absurd (hnone.symm.trans hs) (by simp)
      | made hr hlists =>
        cases hr.symm.trans hs
        exact ⟨vs, hlists, rfl⟩
    · rintro ⟨ws, hws, rfl⟩
      exact .made hs hws

/-! ### One sequence -/

lemma countWith_eq (l : Ledger) (later : Sequence → Option Nat) (s : Sequence) :
    s.countWith l later = ((s.behind? l).elim (some 0) later).map (s.own.length + ·) := by
  induction s with
  | empty => rfl
  | one v => rfl
  | pair v w => rfl
  | slice values start inside more ih =>
    rw [countWith, ih, show (slice values start inside more).behind? l = more.behind? l from rfl]
    cases (more.behind? l).elim (some 0) later with
    | none => rfl
    | some m => simp [own, Nat.add_assoc]
  | prepend v rest ih =>
    rw [countWith, ih, show (prepend v rest).behind? l = rest.behind? l from rfl]
    cases (rest.behind? l).elim (some 0) later with
    | none => rfl
    | some m =>
      simp only [Option.map_some, own, List.length_cons, Option.some_inj]
      omega
  | ofCall c =>
    rw [countWith, show (ofCall c).behind? l = l.result? c from rfl]
    cases l.result? c with
    | none => rfl
    | some r => simp [own]

/-- A position among the own values is read there, and any other one behind them. -/
lemma getWith_eq (l : Ledger) (later : Sequence → Nat → Option Value) (s : Sequence) (i : Nat) :
    s.getWith l later (i + 1) =
      if i < s.own.length then some (s.own.getD i .nil)
      else (s.behind? l).elim (some .nil) fun r => later r (i + 1 - s.own.length) := by
  induction s generalizing i with
  | empty => rfl
  | one v => cases i <;> rfl
  | pair v w => rcases i with _ | _ | i <;> rfl
  | slice values start inside more ih =>
    have hlen : (values.toList.drop start).length = values.size - start := by simp
    rw [getWith, show (slice values start inside more).behind? l = more.behind? l from rfl, own,
      List.length_append, hlen]
    by_cases h : i + 1 ≤ values.size - start
    · rw [dif_pos h, if_pos (by omega), List.getD_append _ _ _ _ (by omega)]
      simp [List.getD_eq_getElem?_getD, show start + i < values.size by omega]
    · obtain ⟨j, rfl⟩ : ∃ j, i = values.size - start + j := ⟨i - (values.size - start), by omega⟩
      rw [dif_neg h, List.getD_append_right _ _ _ _ (by omega), hlen, Nat.add_assoc,
        Nat.add_sub_cancel_left, Nat.add_sub_cancel_left, ih, Nat.add_sub_add_left]
      simp only [Nat.add_lt_add_iff_left]
  | prepend v rest ih =>
    rw [getWith, show (prepend v rest).behind? l = rest.behind? l from rfl]
    cases i with
    | zero => rfl
    | succ i =>
      rw [if_neg (by omega), Nat.add_sub_cancel, ih]
      simp [own]
  | ofCall c =>
    rw [getWith, show (ofCall c).behind? l = l.result? c from rfl]
    cases l.result? c <;> rfl

lemma startingWith_zero {later : Sequence → Nat → Option Sequence} (s : Sequence) :
    s.startingWith l later 0 = some s := by
  unfold startingWith
  exact if_pos (by omega)

/-- Cutting at most the own values leaves the rest of them and the call; cutting more goes on behind. -/
lemma startingWith_eq (l : Ledger) (later : Sequence → Nat → Option Sequence) (s : Sequence)
    (k : Nat) :
    (k ≤ s.own.length ∧ ∃ t, s.startingWith l later (k + 1) = some t ∧
        t.own = s.own.drop k ∧ t.last? = s.last?) ∨
      s.own.length < k ∧ s.startingWith l later (k + 1) =
        (s.behind? l).elim (some .empty) fun r => later r (k + 1 - s.own.length) := by
  induction s generalizing k with
  | empty =>
    cases k with
    | zero => exact Or.inl ⟨Nat.le_refl _, _, rfl, rfl, rfl⟩
    | succ k => exact Or.inr ⟨Nat.succ_pos k, rfl⟩
  | one v =>
    rcases k with _ | _ | k
    · exact Or.inl ⟨Nat.zero_le _, _, rfl, rfl, rfl⟩
    · exact Or.inl ⟨Nat.le_refl _, _, rfl, rfl, rfl⟩
    · exact Or.inr ⟨by simp [own], rfl⟩
  | pair v w =>
    rcases k with _ | _ | _ | k
    · exact Or.inl ⟨Nat.zero_le _, _, rfl, rfl, rfl⟩
    · exact Or.inl ⟨by simp [own], _, rfl, rfl, rfl⟩
    · exact Or.inl ⟨Nat.le_refl _, _, rfl, rfl, rfl⟩
    · exact Or.inr ⟨by simp [own], rfl⟩
  | slice values start inside more ih =>
    have hlen : (values.toList.drop start).length = values.size - start := by simp
    cases k with
    | zero => exact Or.inl ⟨Nat.zero_le _, _, rfl, rfl, rfl⟩
    | succ k =>
      rw [startingWith, if_neg (by omega), own, List.length_append, hlen]
      by_cases h : k + 1 + 1 ≤ values.size - start
      · refine Or.inl ⟨by omega, _, dif_pos h, ?_, rfl⟩
        rw [own, List.drop_append_of_le_length (by omega), List.drop_drop]
        rfl
      · obtain ⟨j, hj⟩ : ∃ j, k + 1 = values.size - start + j :=
          ⟨k + 1 - (values.size - start), by omega⟩
        rw [dif_neg h, hj, List.drop_append, hlen, Nat.add_assoc, Nat.add_sub_cancel_left,
          Nat.add_sub_cancel_left, Nat.add_sub_add_left, List.drop_eq_nil_of_le (by omega)]
        rcases ih j with ⟨hle, t, ht⟩ | ⟨hlt, ht⟩
        · exact Or.inl ⟨by omega, t, ht⟩
        · exact Or.inr ⟨by omega, ht⟩
  | prepend v rest ih =>
    cases k with
    | zero => exact Or.inl ⟨Nat.zero_le _, _, rfl, rfl, rfl⟩
    | succ k =>
      rw [startingWith, if_neg (by omega), own, List.length_cons, Nat.add_sub_cancel,
        List.drop_succ_cons]
      rcases ih k with ⟨hle, t, ht⟩ | ⟨hlt, ht⟩
      · exact Or.inl ⟨by omega, t, ht⟩
      · refine Or.inr ⟨by omega, ht.trans ?_⟩
        rw [show k + 1 + 1 - (rest.own.length + 1) = k + 1 - rest.own.length by omega]
        rfl
  | ofCall c =>
    cases k with
    | zero => exact Or.inl ⟨Nat.zero_le _, _, rfl, rfl, rfl⟩
    | succ k =>
      refine Or.inr ⟨Nat.succ_pos k, ?_⟩
      rw [startingWith, if_neg (by omega), show (ofCall c).behind? l = l.result? c from rfl]
      cases l.result? c <;> rfl

/-! ### Hops -/

/-- Reading the sequence to its end takes at most `n` hops. -/
inductive Within (l : Ledger) : Nat → Sequence → Prop where
  | last {n : Nat} {s : Sequence} : s.behind? l = none → Within l n s
  | hop {n : Nat} {s r : Sequence} : s.behind? l = some r → Within l n r → Within l (n + 1) s

lemma Within.mono (h : Within l n s) {m : Nat} (hnm : n ≤ m) : Within l m s := by
  induction h generalizing m with
  | last hs => exact .last hs
  | hop hs _ ih =>
    obtain ⟨m, rfl⟩ : ∃ j, m = j + 1 := ⟨m - 1, by omega⟩
    exact .hop hs (ih (by omega))

lemma Within.exists_lists (h : Within l n s) : ∃ vs, Lists l s vs := by
  induction h with
  | last hs => exact ⟨_, (lists_iff_of_behind_none hs).2 rfl⟩
  | hop hs _ ih =>
    obtain ⟨ws, hws⟩ := ih
    exact ⟨_, (lists_iff_of_behind_some hs).2 ⟨ws, hws, rfl⟩⟩

/-- A count is at least that of the own values. -/
lemma length_own_le {n m : Nat} (hm : countIn? l n s = some m) : s.own.length ≤ m := by
  have heq : ∃ later, countIn? l n s = s.countWith l later := by cases n <;> exact ⟨_, rfl⟩
  obtain ⟨later, heq⟩ := heq
  rw [heq, countWith_eq, Option.map_eq_some_iff] at hm
  obtain ⟨j, -, rfl⟩ := hm
  exact Nat.le_add_right _ _

lemma Within.countIn? (h : Within l n s) (hv : Lists l s vs) : countIn? l n s = some vs.length := by
  induction h generalizing vs with
  | @last n s hs =>
    rw [(lists_iff_of_behind_none hs).1 hv]
    cases n <;> rw [Sequence.countIn?, countWith_eq, hs] <;> rfl
  | hop hs _ ih =>
    obtain ⟨ws, hws, rfl⟩ := (lists_iff_of_behind_some hs).1 hv
    rw [Sequence.countIn?, countWith_eq, hs, Option.elim_some, ih hws]
    simp

lemma Within.getIn? (h : Within l n s) (hv : Lists l s vs) (i : Nat) :
    getIn? l n s (i + 1) = some (vs.getD i .nil) := by
  induction h generalizing vs i with
  | @last n s hs =>
    rw [(lists_iff_of_behind_none hs).1 hv]
    by_cases hi : i < s.own.length
    · cases n <;> rw [Sequence.getIn?, getWith_eq, if_pos hi]
    · rw [List.getD_eq_default _ _ (by omega)]
      cases n <;> rw [Sequence.getIn?, getWith_eq, if_neg hi, hs] <;> rfl
  | @hop n s r hs _ ih =>
    obtain ⟨ws, hws, rfl⟩ := (lists_iff_of_behind_some hs).1 hv
    rw [Sequence.getIn?, getWith_eq]
    by_cases hi : i < s.own.length
    · rw [if_pos hi, List.getD_append _ _ _ _ hi]
    · rw [if_neg hi, hs, Option.elim_some, List.getD_append_right _ _ _ _ (by omega),
        show i + 1 - s.own.length = i - s.own.length + 1 by omega, ih hws]

lemma Within.startingIn? (h : Within l n s) (hv : Lists l s vs) (k : Nat) :
    ∃ t, startingIn? l n s (k + 1) = some t ∧ Lists l t (vs.drop k) := by
  induction h generalizing vs k with
  | @last n s hs =>
    rw [(lists_iff_of_behind_none hs).1 hv]
    have heq : ∃ later, startingIn? l n s (k + 1) = s.startingWith l later (k + 1) := by
      cases n <;> exact ⟨_, rfl⟩
    obtain ⟨later, heq⟩ := heq
    rw [heq]
    rcases startingWith_eq l later s k with ⟨-, t, ht, hown, hlast⟩ | ⟨hlt, ht⟩
    · have hbehind : t.behind? l = none := by rw [behind?, hlast, ← behind?, hs]
      exact ⟨t, ht, (lists_iff_of_behind_none hbehind).2 hown.symm⟩
    · rw [hs] at ht
      rw [List.drop_eq_nil_of_le (by omega)]
      exact ⟨.empty, ht, .empty⟩
  | @hop n s r hs _ ih =>
    obtain ⟨ws, hws, rfl⟩ := (lists_iff_of_behind_some hs).1 hv
    rcases startingWith_eq l (Sequence.startingIn? l n) s k with ⟨hle, t, ht, hown, hlast⟩ | ⟨hlt, ht⟩
    · have hbehind : t.behind? l = some r := by rw [behind?, hlast, ← behind?, hs]
      rw [List.drop_append_of_le_length hle, ← hown]
      exact ⟨t, ht, (lists_iff_of_behind_some hbehind).2 ⟨ws, hws, rfl⟩⟩
    · obtain ⟨t, ht', hlists⟩ := ih hws (k - s.own.length)
      rw [hs, Option.elim_some, show k + 1 - s.own.length = k - s.own.length + 1 by omega, ht'] at ht
      rw [List.drop_append, List.drop_eq_nil_of_le (by omega)]
      exact ⟨t, ht, hlists⟩

end Sequence

/-! ### Ledgers without a way back -/

namespace Ledger

variable {l : Ledger} {c d : CallId}

/-- The results of one call end in another. -/
def Leads (l : Ledger) (c d : CallId) : Prop := ∃ r, l.result? c = some r ∧ r.last? = some d

/-- **No results lead back to their own call**, be it through those of other calls. -/
def Acyclic (l : Ledger) : Prop := ∀ c, ¬ Relation.TransGen l.Leads c c

lemma index_lt_of_result? {r : Sequence} (hr : l.result? c = some r) : c.index < l.size := by
  rw [result?, get?, Option.bind_eq_some_iff] at hr
  obtain ⟨d, hd, -⟩ := hr
  exact (Array.getElem?_eq_some_iff.1 hd).1

/-- There is no way back if results end in later calls only. -/
lemma acyclic_of_index_lt (h : ∀ c d, l.Leads c d → c.index < d.index) : l.Acyclic := by
  intro c hc
  have hlt : Relation.TransGen (· < ·) c.index c.index := hc.lift CallId.index h
  rw [Relation.transGen_eq_self] at hlt
  exact Nat.lt_irrefl _ hlt

lemma Acyclic.nodup (hl : l.Acyclic) {cs : List CallId} (hcs : cs.IsChain l.Leads) : cs.Nodup := by
  have htrans : cs.IsChain (Relation.TransGen l.Leads) := hcs.imp fun _ _ => .single
  have hpair : cs.Pairwise (Relation.TransGen l.Leads) := List.isChain_iff_pairwise.1 htrans
  refine hpair.imp fun {c d} hcd heq => ?_
  subst heq
  exact hl c hcd

/-- A way through calls that have been made, none of them twice, is no longer than the ledger. -/
lemma length_le_of_nodup {cs : List CallId} (hcs : cs.Nodup) (hmade : ∀ c ∈ cs, c.index < l.size) :
    cs.length ≤ l.size := by
  have hinj : Function.Injective CallId.index := fun c d h => by
    cases c
    cases d
    simpa using h
  have hsub : cs.map CallId.index ⊆ List.range l.size := by
    intro i hi
    obtain ⟨c, hc, rfl⟩ := List.mem_map.1 hi
    exact List.mem_range.2 (hmade c hc)
  have hperm := (hcs.map hinj).subperm hsub
  simpa using hperm.length_le

end Ledger

namespace Sequence

variable {l : Ledger} {s t r : Sequence} {vs ws : List Value}

/-- A reading that is not done within `n` hops passes more than `n` calls. -/
lemma within_or_exists_chain (l : Ledger) (n : Nat) (s : Sequence) :
    Within l n s ∨ ∃ cs : List CallId, cs.length = n + 1 ∧ cs.IsChain l.Leads ∧
      cs.head? = s.last? ∧ ∀ c ∈ cs, c.index < l.size := by
  induction n generalizing s with
  | zero =>
    cases hs : s.behind? l with
    | none => exact Or.inl (.last hs)
    | some r =>
      obtain ⟨c, hc, hr⟩ := Option.bind_eq_some_iff.1 hs
      refine Or.inr ⟨[c], rfl, List.isChain_singleton c, hc.symm, fun d hd => ?_⟩
      rw [List.mem_singleton.1 hd]
      exact Ledger.index_lt_of_result? hr
  | succ n ih =>
    cases hs : s.behind? l with
    | none => exact Or.inl (.last hs)
    | some r =>
      rcases ih r with h | ⟨cs, hlen, hchain, hhead, hmade⟩
      · exact Or.inl (.hop hs h)
      · obtain ⟨c, hc, hr⟩ := Option.bind_eq_some_iff.1 hs
        refine Or.inr ⟨c :: cs, by simp [hlen], List.isChain_cons.2 ⟨?_, hchain⟩, hc.symm, ?_⟩
        · intro d hd
          exact ⟨r, hr, hhead.symm.trans hd⟩
        · intro d hd
          rcases List.mem_cons.1 hd with rfl | hd
          · exact Ledger.index_lt_of_result? hr
          · exact hmade d hd

/-- **Without a way back there are at most as many hops as calls.** -/
lemma within_size (hl : l.Acyclic) (s : Sequence) : Within l l.size s := by
  rcases within_or_exists_chain l l.size s with h | ⟨cs, hlen, hchain, -, hmade⟩
  · exact h
  · have := Ledger.length_le_of_nodup (hl.nodup hchain) hmade
    omega

/-! ### Building -/

lemma lists_ofList (l : Ledger) (vs : List Value) : Lists l (ofList vs) vs := by
  rcases vs with _ | ⟨u, _ | ⟨v, _ | ⟨w, vs⟩⟩⟩
  · exact .empty
  · exact .one u
  · exact .pair u v
  · have h : Lists l (ofList (u :: v :: w :: vs))
        ((u :: v :: w :: vs).toArray.toList.drop 0 ++ []) := .slice .empty
    simpa using h

lemma Lists.cons (hv : Lists l s vs) (v : Value) : Lists l (s.cons v) (v :: vs) := by
  cases hv with
  | empty => exact .one v
  | one w => exact .pair v w
  | pair u w => exact .prepend (.pair u w)
  | slice h => exact .prepend (.slice h)
  | prepend h => exact .prepend (.prepend h)
  | pending h => exact .prepend (.pending h)
  | made hr h => exact .prepend (.made hr h)

/-- What is put in front of a sequence stays in front of its values, also of those that it gets later
by a call. -/
lemma lists_of_after? {l m : Ledger} {us : List Value} (ht : s.after? l us = some t)
    (hv : Lists m s vs) : Lists m t (us ++ vs) := by
  cases us with
  | nil =>
    cases ht
    exact hv
  | cons u us =>
    obtain ⟨n, hn, ht⟩ := Option.bind_eq_some_iff.1 ht
    split at ht
    · next hempty =>
      obtain ⟨rfl, hcall⟩ := hempty
      cases ht
      have hown : s.own = [] := List.length_eq_zero_iff.1 (Nat.le_zero.1 (length_own_le hn))
      obtain rfl := eq_empty_of_own_eq_nil hown hcall
      cases hv
      rw [List.append_nil]
      exact lists_ofList m (u :: us)
    · cases ht
      have h : Lists m (slice (u :: us).toArray 0 (by simp) s)
          ((u :: us).toArray.toList.drop 0 ++ vs) := .slice hv
      simpa using h

/-- **The operations on a sequence follow its list.**  Each of them gives an answer, and what is put
together stays together in any other ledger `m`, such as one in which more calls have been made. -/
structure ReadsAs (l : Ledger) (s : Sequence) (vs : List Value) : Prop where
  count : s.count? l = some vs.length
  get : ∀ i, 1 ≤ i → i ≤ vs.length → s.get? l i = vs[i - 1]?
  get_outside : ∀ i, i = 0 ∨ vs.length < i → s.get? l i = some .nil
  values : s.values? l = some vs
  starting : ∀ k, ∃ t, s.startingAt? l k = some t ∧ Lists l t (vs.drop (k - 1))
  snapshot : ∃ t, s.snapshot? l = some t ∧ Lists l t vs
  after : ∀ us, ∃ t, s.after? l us = some t ∧ Lists l t (us ++ vs) ∧
    ∀ m ws, Lists m s ws → Lists m t (us ++ ws)
  cons : ∀ v, Lists l (s.cons v) (v :: vs) ∧ ∀ m ws, Lists m s ws → Lists m (s.cons v) (v :: ws)

section Readings

variable (hw : Within l l.size s) (hv : Lists l s vs)

include hw hv

lemma Within.get?_succ (i : Nat) : s.get? l (i + 1) = some (vs.getD i .nil) := by
  rw [get?, if_neg (by omega)]
  exact (hw.mono (by omega)).getIn? hv i

lemma Within.values?_eq : s.values? l = some vs := by
  have hcount : s.count? l = some vs.length := hw.countIn? hv
  have hget : (fun i => s.get? l (i + 1)) = fun i => some (vs.getD i .nil) :=
    funext (hw.get?_succ hv)
  have hmap : (List.range vs.length).map (vs.getD · .nil) = vs := by
    refine List.ext_getElem (by simp) fun i hi hi' => ?_
    simp [List.getD_eq_getElem?_getD, hi']
  rw [values?, hcount, Option.bind_eq_bind, Option.bind_some, hget]
  calc (List.range vs.length).mapM (fun i => some (vs.getD i .nil))
      = some ((List.range vs.length).map (vs.getD · .nil)) := List.mapM_pure
    _ = some vs := by rw [hmap]

lemma Within.exists_startingAt? (k : Nat) :
    ∃ t, s.startingAt? l k = some t ∧ Lists l t (vs.drop (k - 1)) := by
  cases k with
  | zero =>
    refine ⟨s, ?_, hv⟩
    rw [startingAt?]
    cases l.size + 0 <;> exact startingWith_zero s
  | succ k => exact (hw.mono (by omega)).startingIn? hv k

lemma Within.exists_snapshot? : ∃ t, s.snapshot? l = some t ∧ Lists l t vs := by
  have hvalues : ∃ t, (s.values? l).map ofList = some t ∧ Lists l t vs :=
    ⟨ofList vs, by rw [hw.values?_eq hv]; rfl, lists_ofList l vs⟩
  cases s with
  | empty => exact ⟨_, rfl, hv⟩
  | one v => exact ⟨_, rfl, hv⟩
  | pair v w => exact ⟨_, rfl, hv⟩
  | _ => exact hvalues

lemma Within.exists_after? (us : List Value) : ∃ t, s.after? l us = some t := by
  cases us with
  | nil => exact ⟨s, rfl⟩
  | cons u us =>
    have hcount : s.count? l = some vs.length := hw.countIn? hv
    rw [after?, hcount, Option.bind_eq_bind, Option.bind_some]
    split <;> exact ⟨_, rfl⟩

lemma Within.readsAs : s.ReadsAs l vs := by
  refine
    { count := hw.countIn? hv
      get := fun i h1 hi => ?_
      get_outside := fun i hi => ?_
      values := hw.values?_eq hv
      starting := hw.exists_startingAt? hv
      snapshot := hw.exists_snapshot? hv
      after := fun us => ?_
      cons := fun v => ⟨hv.cons v, fun m ws hw => hw.cons v⟩ }
  · obtain ⟨i, rfl⟩ : ∃ j, i = j + 1 := ⟨i - 1, by omega⟩
    rw [hw.get?_succ hv, Nat.add_sub_cancel, List.getD_eq_getElem _ _ (by omega),
      List.getElem?_eq_getElem]
  · rcases i with _ | i
    · rfl
    · rw [hw.get?_succ hv, List.getD_eq_default _ _ (by omega)]
  · obtain ⟨t, ht⟩ := hw.exists_after? hv us
    exact ⟨t, ht, lists_of_after? ht hv, fun m ws hw => lists_of_after? ht hw⟩

end Readings

/-- **Sequences denote lists.**  In a ledger without a way back every sequence has one list, whatever its
form, and all operations follow it. -/
theorem reads_as_list (hl : l.Acyclic) :
    (∀ us, Lists l (ofList us) us) ∧
      ∀ s : Sequence, ∃ vs, (∀ ws, Lists l s ws ↔ ws = vs) ∧ s.ReadsAs l vs := by
  refine ⟨lists_ofList l, fun s => ?_⟩
  have hw := within_size hl s
  obtain ⟨vs, hv⟩ := hw.exists_lists
  exact ⟨vs, fun ws => ⟨fun h => h.unique hv, fun h => h ▸ hv⟩, hw.readsAs hv⟩

/-- Three calls, of which the first has results that end in the second, and the last is not made. -/
def threeCalls : Ledger where
  calls := #[
    { callee := .nil, args := .empty,
      result := some (.slice #[.int 1, .int 2, .int 3] 1 (by decide) (.ofCall ⟨1⟩)) },
    { callee := .nil, args := .empty, result := some (.pair (.int 4) .nil) },
    { callee := .nil, args := .empty }]

lemma acyclic_threeCalls : threeCalls.Acyclic := by
  refine Ledger.acyclic_of_index_lt ?_
  rintro ⟨i⟩ d ⟨r, hr, hd⟩
  have hi : i < 3 := Ledger.index_lt_of_result? hr
  rcases i with _ | _ | _ | i
  · cases hr
    cases hd
    decide
  · cases hr
    cases hd
  · cases hr
  · omega

theorem reads_as_list_threeCalls :
    threeCalls.Acyclic ∧
      (prepend (.int 0) (.ofCall ⟨0⟩)).ReadsAs threeCalls [.int 0, .int 2, .int 3, .int 4, .nil] ∧
      (prepend (.int 7) (.ofCall ⟨2⟩)).ReadsAs threeCalls [.int 7] := by
  have h := (reads_as_list acyclic_threeCalls).2
  refine ⟨acyclic_threeCalls, ?_, ?_⟩
  · obtain ⟨vs, hvs, hreads⟩ := h (prepend (.int 0) (.ofCall ⟨0⟩))
    have hlists : Lists threeCalls (prepend (.int 0) (.ofCall ⟨0⟩))
        [.int 0, .int 2, .int 3, .int 4, .nil] :=
      .prepend (.made rfl (.slice (.made rfl (.pair _ _))))
    rw [(hvs _).1 hlists]
    exact hreads
  · obtain ⟨vs, hvs, hreads⟩ := h (prepend (.int 7) (.ofCall ⟨2⟩))
    have hlists : Lists threeCalls (prepend (.int 7) (.ofCall ⟨2⟩)) [.int 7] :=
      .prepend (.pending rfl)
    rw [(hvs _).1 hlists]
    exact hreads

end Sequence

end LuaCore
