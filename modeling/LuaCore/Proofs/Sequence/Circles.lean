import LuaCore.Proofs.Program.Evolution
import LuaCore.Proofs.Sequence.Lists

/-!
Readings without an end.

The results of a call may lead back to the call itself.  A sequence that leads there can not be counted,
however many hops are taken, and so its values can not be listed.  Any other sequence can.  A single
position can be read in every sequence, as long as no results are a deferred call themselves: each hop
but the first brings a value, or is the last.
-/

namespace LuaCore

namespace Ledger

variable {l : Ledger} {c d : CallId}

/-- The call leads to one whose results lead back to it. -/
def Circles (l : Ledger) (c : CallId) : Prop :=
  ∃ d, Relation.ReflTransGen l.Leads c d ∧ Relation.TransGen l.Leads d d

/-- There is always a next call. -/
lemma Circles.exists_leads (h : l.Circles c) : ∃ d, l.Leads c d ∧ l.Circles d := by
  obtain ⟨d, hcd, hd⟩ := h
  rcases hcd.cases_head with rfl | ⟨e, hce, hed⟩
  · obtain ⟨e, hce, hec⟩ := Relation.TransGen.head'_iff.1 hd
    exact ⟨e, hce, c, hec, hd⟩
  · exact ⟨e, hce, d, hed, hd⟩

end Ledger

namespace Sequence

variable {l : Ledger} {s r : Sequence} {vs : List Value} {n i : Nat}

/-- **The sequence leads into a circle**: to a call whose results lead back to it. -/
def Circles (l : Ledger) (s : Sequence) : Prop := ∃ c, s.last? = some c ∧ l.Circles c

/-! ### Counting -/

lemma Within.not_circles (h : Within l n s) : ¬ s.Circles l := by
  induction h with
  | last hs =>
    rintro ⟨c, hc, hcircle⟩
    obtain ⟨d, ⟨r, hr, -⟩, -⟩ := hcircle.exists_leads
    rw [behind?, hc, Option.bind_some, hr] at hs
    cases hs
  | hop hs _ ih =>
    rintro ⟨c, hc, hcircle⟩
    obtain ⟨d, ⟨r, hr, hd⟩, hcircle'⟩ := hcircle.exists_leads
    rw [behind?, hc, Option.bind_some, hr] at hs
    cases hs
    exact ih ⟨d, hd, hcircle'⟩

/-- A way that leads into no circle passes no call twice. -/
lemma nodup_of_not_circles (hs : ¬ s.Circles l) {cs : List CallId} (hcs : cs.IsChain l.Leads)
    (hhead : cs.head? = s.last?) : cs.Nodup := by
  have htrans : cs.IsChain (Relation.TransGen l.Leads) := hcs.imp fun _ _ => .single
  have hpair : cs.Pairwise (Relation.TransGen l.Leads) := List.isChain_iff_pairwise.1 htrans
  cases cs with
  | nil => exact List.nodup_nil
  | cons c cs =>
    have hfrom : ∀ d ∈ c :: cs, Relation.ReflTransGen l.Leads c d := by
      intro d hd
      rcases List.mem_cons.1 hd with rfl | hd
      · exact .refl
      · exact ((List.pairwise_cons.1 hpair).1 d hd).to_reflTransGen
    refine hpair.imp_of_mem fun {d e} hd _ hde heq => ?_
    subst heq
    exact hs ⟨c, hhead.symm, d, hfrom d hd, hde⟩

lemma within_size_of_not_circles (hs : ¬ s.Circles l) : Within l l.size s := by
  rcases within_or_exists_chain l l.size s with h | ⟨cs, hlen, hchain, hhead, hmade⟩
  · exact h
  · have := Ledger.length_le_of_nodup (nodup_of_not_circles hs hchain hhead) hmade
    omega

lemma exists_within_iff : (∃ n, Within l n s) ↔ ¬ s.Circles l :=
  ⟨fun ⟨_, h⟩ => h.not_circles, fun h => ⟨_, within_size_of_not_circles h⟩⟩

/-- Counting takes the hops to the end. -/
lemma countIn?_eq_none_iff : countIn? l n s = none ↔ ¬ Within l n s := by
  constructor
  · intro hnone h
    obtain ⟨vs, hv⟩ := h.exists_lists
    rw [h.countIn? hv] at hnone
    cases hnone
  · intro h
    induction n generalizing s with
    | zero =>
      cases hs : s.behind? l with
      | none => exact absurd (.last hs) h
      | some r => rw [countIn?, countWith_eq, hs]; rfl
    | succ n ih =>
      cases hs : s.behind? l with
      | none => exact absurd (.last hs) h
      | some r =>
        have hr : countIn? l n r = none := ih fun hr => h (.hop hs hr)
        rw [countIn?, countWith_eq, hs, Option.elim_some, hr]
        rfl

lemma count?_eq_none_iff : s.count? l = none ↔ s.Circles l := by
  rw [count?, countIn?_eq_none_iff]
  constructor
  · intro h
    by_contra hs
    exact h (within_size_of_not_circles hs)
  · intro hs h
    exact h.not_circles hs

lemma values?_eq_none_iff : s.values? l = none ↔ s.Circles l := by
  constructor
  · intro hnone
    by_contra hs
    have hw := within_size_of_not_circles hs
    obtain ⟨vs, hv⟩ := hw.exists_lists
    rw [hw.values?_eq hv] at hnone
    cases hnone
  · intro hs
    rw [values?, count?_eq_none_iff.2 hs]
    rfl

/-! ### Single positions -/

/-- Results that are no call have a value of their own, or nothing comes behind them. -/
lemma own_pos_of_behind (hr : s.call? = none) (hs : s.behind? l = some r) : 0 < s.own.length := by
  rw [List.length_pos_iff]
  intro hown
  obtain rfl := eq_empty_of_own_eq_nil hown hr
  cases hs

lemma exists_getIn? (hl : l.Settled) (hs : s.call? = none) (hi : i ≤ n) :
    ∃ v, getIn? l n s (i + 1) = some v := by
  induction n generalizing s i with
  | zero =>
    rw [getIn?, getWith_eq]
    split
    · exact ⟨_, rfl⟩
    · next hown =>
      cases hb : s.behind? l with
      | none => exact ⟨_, rfl⟩
      | some r =>
        have := own_pos_of_behind hs hb
        omega
  | succ n ih =>
    rw [getIn?, getWith_eq]
    split
    · exact ⟨_, rfl⟩
    · next hown =>
      cases hb : s.behind? l with
      | none => exact ⟨_, rfl⟩
      | some r =>
        have hpos := own_pos_of_behind hs hb
        obtain ⟨c, -, hr⟩ := Option.bind_eq_some_iff.1 hb
        -- every hop goes down by the own values, and there is at least one
        rw [Option.elim_some, show i + 1 - s.own.length = (i - s.own.length) + 1 by omega]
        exact ih (hl c r hr) (by omega)

/-- **Every position can be read**, in a ledger without results that are a call. -/
lemma exists_get? (hl : l.Settled) (s : Sequence) (i : Nat) : ∃ v, s.get? l i = some v := by
  cases i with
  | zero => exact ⟨_, rfl⟩
  | succ i =>
    rw [get?, if_neg (by omega), show l.size + (i + 1) = l.size + i + 1 by omega, getIn?, getWith_eq]
    split
    · exact ⟨_, rfl⟩
    · cases hb : s.behind? l with
      | none => exact ⟨_, rfl⟩
      | some r =>
        obtain ⟨c, -, hr⟩ := Option.bind_eq_some_iff.1 hb
        rw [Option.elim_some, show i + 1 - s.own.length = (i - s.own.length) + 1 by omega]
        exact exists_getIn? hl (hl c r hr) (by omega)

end Sequence

end LuaCore
