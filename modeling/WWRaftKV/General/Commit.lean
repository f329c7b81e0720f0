/-
What is committed stays.

A prefix of a leader's log that ends in an entry of the leader's own term is
committed once a majority has confirmed it.  `leaderCompleteness` finds it in the
log of every later candidate that wins.  A prefix is safe when it lies below a
committed one.  Safe prefixes form a chain, which is all that state machines need.
-/
import WWRaftKV.General.Consensus

namespace Consensus

open TermLog Quorum

variable {ν ε : Type} {ids : List ν} {term : ε → Nat} {w w' : World ν ε}

/-- The prefix `l` of the log of the leader of term `t` is committed. -/
structure Committed (ids : List ν) (term : ε → Nat) (w : World ν ε) (t : Nat) (l : List ε) :
    Prop where
  own : ∃ p e, l = p ++ [e] ∧ term e = t
  written : l <+: w.llog t
  confirmed : Majority ids fun n => decide (l.length ≤ w.ack n t)

/-- A prefix below a committed one of a term up to `t`. -/
def Safe (ids : List ν) (term : ε → Nat) (w : World ν ε) (t : Nat) (l : List ε) : Prop :=
  l = [] ∨ ∃ u ≤ t, ∃ l', Committed ids term w u l' ∧ l <+: l'

theorem safe_nil {t : Nat} : Safe ids term w t [] := .inl rfl

theorem Safe.of_isPrefix {t : Nat} {l p : List ε} (h : Safe ids term w t l) (hp : p <+: l) :
    Safe ids term w t p := by
  rcases h with rfl | ⟨u, hu, l', hc, hl⟩
  · exact .inl (List.prefix_nil.mp hp)
  · exact .inr ⟨u, hu, l', hc, hp.trans hl⟩

theorem Safe.mono {t u : Nat} {l : List ε} (h : Safe ids term w t l) (hu : t ≤ u) :
    Safe ids term w u l := by
  rcases h with h | ⟨x, hx, h⟩
  · exact .inl h
  · exact .inr ⟨x, Nat.le_trans hx hu, h⟩

theorem Committed.safe {t : Nat} {l : List ε} (h : Committed ids term w t l) :
    Safe ids term w t l := .inr ⟨t, Nat.le_refl t, l, h, List.prefix_refl l⟩

/-! ## Steps keep what is committed -/

/-- What no step takes back. -/
structure Grows (w w' : World ν ε) : Prop where
  term : ∀ n, w.term n ≤ w'.term n
  vote : ∀ n t k, w.vote n t = some k → w'.vote n t = some k
  cand : ∀ n t, t ≤ w.term n → w'.cand n t = w.cand n t
  leader : ∀ t n, w.leader t = some n → w'.leader t = some n
  llog : ∀ t, w.llog t <+: w'.llog t
  log : ∀ n, w.log n <+: w'.log n
  ack : ∀ n t, w.ack n t ≤ w'.ack n t

theorem Grows.refl (w : World ν ε) : Grows w w where
  term := fun _ => Nat.le_refl _
  vote := fun _ _ _ h => h
  cand := fun _ _ _ => rfl
  leader := fun _ _ h => h
  llog := fun _ => List.prefix_refl _
  log := fun _ => List.prefix_refl _
  ack := fun _ _ => Nat.le_refl _

theorem Grows.trans {w'' : World ν ε} (h : Grows w w') (g : Grows w' w'') : Grows w w'' where
  term := fun n => Nat.le_trans (h.term n) (g.term n)
  vote := fun n t k hv => g.vote n t k (h.vote n t k hv)
  cand := fun n t ht => (g.cand n t (Nat.le_trans ht (h.term n))).trans (h.cand n t ht)
  leader := fun t n hl => g.leader t n (h.leader t n hl)
  llog := fun t => (h.llog t).trans (g.llog t)
  log := fun n => (h.log n).trans (g.log n)
  ack := fun n t => Nat.le_trans (h.ack n t) (g.ack n t)

theorem Committed.grows {t : Nat} {l : List ε} (h : Committed ids term w t l)
    (hg : Grows w w') : Committed ids term w' t l where
  own := h.own
  written := h.written.trans (hg.llog t)
  confirmed := by
    refine h.confirmed.mono fun n _ hn => ?_
    rw [decide_eq_true_iff] at hn ⊢
    exact Nat.le_trans hn (hg.ack n t)

theorem Safe.grows {t : Nat} {l : List ε} (h : Safe ids term w t l) (hg : Grows w w') :
    Safe ids term w' t l := by
  rcases h with h | ⟨u, hu, l', hc, hl⟩
  · exact .inl h
  · exact .inr ⟨u, hu, l', hc.grows hg, hl⟩

variable [DecidableEq ν]

theorem Step.grows (h : Inv ids term w) (hs : Step ids term w w') : Grows w w' := by
  cases hs with
  | observe n t ht => exact { Grows.refl w with term := update_of_mono ht }
  | stand n =>
    refine { Grows.refl w with term := ?_, vote := ?_, cand := ?_ }
    · exact update_of_mono (Nat.le_succ _)
    · intro a t k hv
      refine (set_other fun hat => ?_).trans hv
      obtain ⟨rfl, rfl⟩ := hat
      rw [h.vote_none (Nat.lt_succ_self _)] at hv
      cases hv
    · intro a t ht
      refine set_other fun hat => ?_
      obtain ⟨rfl, rfl⟩ := hat
      exact Nat.not_succ_le_self _ ht
  | grant n k t ht hn hk hu =>
    refine { Grows.refl w with term := update_of_mono ht, vote := ?_ }
    intro a u m hv
    refine (set_other fun hat => ?_).trans hv
    obtain ⟨rfl, rfl⟩ := hat
    rw [hn] at hv
    cases hv
  | elect n ht hl hq =>
    refine { Grows.refl w with leader := ?_, llog := ?_ }
    · intro t m hm
      refine (Function.update_of_ne (fun htn => ?_) _ _).trans hm
      rw [htn, hl] at hm
      cases hm
    · intro t
      refine update_ind (P := fun l => w.llog t <+: l) t (List.prefix_refl _) fun ht => ?_
      rw [ht, h.no_leader _ hl]
      exact List.nil_prefix
  | append n e hl he =>
    refine { Grows.refl w with llog := ?_, log := ?_ }
    · intro t
      refine update_ind (P := fun l => w.llog t <+: l) t (List.prefix_refl _) fun ht => ?_
      rw [ht, ← h.leader_log n hl]
      exact List.prefix_append _ _
    · intro a
      refine update_ind (P := fun l => w.log a <+: l) a (List.prefix_refl _) fun ha => ?_
      rw [ha]
      exact List.prefix_append _ _
  | extend n l hg hl =>
    refine { Grows.refl w with log := fun a => ?_ }
    refine update_ind (P := fun l => w.log a <+: l) a (List.prefix_refl _) fun ha => ?_
    rw [ha]
    exact hg
  | confirm n k hk hl =>
    refine { Grows.refl w with ack := fun a t => ?_ }
    refine set_ind (P := fun j => w.ack a t ≤ j) a t (Nat.le_refl _) fun ha ht => ?_
    rw [ha, ht]
    exact Nat.le_max_left _ _

/-! ## Leader completeness -/

theorem Inv.leaderCompleteness (h : Inv ids term w) {t : Nat} {l : List ε}
    (hc : Committed ids term w t l) (u : Nat) (k : ν) (hu : t < u)
    (hl : w.leader u = some k) : l <+: w.cand k u := by
  induction u using Nat.strongRecOn generalizing k with
  | _ u ih =>
    obtain ⟨n, _, hack, hvote⟩ := hc.confirmed.meet (h.elected u k hl).2.2
    obtain ⟨p, e, rfl, he⟩ := hc.own
    rw [decide_eq_true_iff, List.length_append] at hack
    rw [beq_iff_eq] at hvote
    have hup := h.covered n t u k p e hvote hu hc.written he hack
    rw [UpToDate, lastTerm_append, he] at hup
    have hne : w.cand k u ≠ [] := by
      intro hnil
      rw [hnil, lastTerm_nil, List.length_nil, List.length_append] at hup
      rcases hup with hup | ⟨_, hup⟩
      · exact absurd hup (Nat.not_lt_zero t)
      · exact absurd hup (Nat.not_succ_le_zero _)
    obtain ⟨q, f, hq⟩ := exists_append_of_ne_nil hne
    have hcand : w.cand k u <+: w.llog (term f) := by
      rw [hq]
      exact (hq ▸ h.proper_cand k u).traced.of_last
    rw [hq, lastTerm_append] at hup
    rcases hup with hlt | ⟨heq, hlen⟩
    · -- the candidate's last entry comes from a later leader, which has it all
      have hf : term f < u := h.cand_lt k u f (by rw [hq]; simp)
      have hsome : w.llog (term f) ≠ [] := by
        intro hnil
        rw [hnil] at hcand
        exact hne (List.prefix_nil.mp hcand)
      cases hm : w.leader (term f) with
      | none => exact absurd (h.no_leader _ hm) hsome
      | some m =>
        have hih := (ih (term f) hf m hlt hm).trans (h.leader_cand _ m hm)
        rcases List.prefix_or_prefix_of_prefix hih hcand with hpre | hpre
        · exact hpre
        · have hmem : f ∈ p ++ [e] := hpre.subset (by rw [hq]; simp)
          have hsort := (h.proper_llog (term f)).sorted.of_isPrefix hih
          have hle := hsort.le_last hmem
          omega
    · -- both logs end with an entry of term `t`
      rw [← heq] at hcand
      refine List.prefix_of_prefix_length_le hc.written hcand ?_
      rw [hq]
      exact hlen

/-! ## Safe prefixes form a chain -/

theorem Committed.leader (h : Inv ids term w) {t : Nat} {l : List ε}
    (hc : Committed ids term w t l) : ∃ k, w.leader t = some k := by
  obtain ⟨p, e, rfl, _⟩ := hc.own
  cases hl : w.leader t with
  | some k => exact ⟨k, rfl⟩
  | none =>
    have hw := hc.written
    rw [h.no_leader t hl] at hw
    exact absurd (List.prefix_nil.mp hw) (by simp)

theorem Committed.prefix_llog (h : Inv ids term w) {t u : Nat} {l : List ε} {k : ν}
    (hc : Committed ids term w t l) (hu : t ≤ u) (hl : w.leader u = some k) :
    l <+: w.llog u := by
  rcases Nat.eq_or_lt_of_le hu with rfl | hlt
  · exact hc.written
  · exact (h.leaderCompleteness hc u k hlt hl).trans (h.leader_cand u k hl)

theorem Committed.total (h : Inv ids term w) {t u : Nat} {l l' : List ε}
    (hc : Committed ids term w t l) (hc' : Committed ids term w u l') :
    l <+: l' ∨ l' <+: l := by
  rcases Nat.le_total t u with hle | hle
  · obtain ⟨k, hk⟩ := hc'.leader h
    exact List.prefix_or_prefix_of_prefix (hc.prefix_llog h hle hk) hc'.written
  · obtain ⟨k, hk⟩ := hc.leader h
    exact List.prefix_or_prefix_of_prefix hc.written (hc'.prefix_llog h hle hk)

/-- Any two safe prefixes are prefixes of one log. -/
theorem Inv.safe_total (h : Inv ids term w) {t u : Nat} {l l' : List ε}
    (hs : Safe ids term w t l) (hs' : Safe ids term w u l') : l <+: l' ∨ l' <+: l := by
  rcases hs with rfl | ⟨_, _, m, hc, hl⟩
  · exact .inl List.nil_prefix
  rcases hs' with rfl | ⟨_, _, m', hc', hl'⟩
  · exact .inr List.nil_prefix
  rcases hc.total h hc' with hm | hm
  · exact List.prefix_or_prefix_of_prefix (hl.trans hm) hl'
  · exact List.prefix_or_prefix_of_prefix hl (hl'.trans hm)

/-- Two safe prefixes have the same entry at a place. -/
theorem Inv.safe_agree (h : Inv ids term w) {t u : Nat} {l l' : List ε}
    (hs : Safe ids term w t l) (hs' : Safe ids term w u l') {i : Nat} {e e' : ε}
    (he : l[i]? = some e) (he' : l'[i]? = some e') : e = e' := by
  rcases h.safe_total hs hs' with hp | hp
  · exact Option.some.inj ((getElem?_of_isPrefix hp he).symm.trans he')
  · exact Option.some.inj (he.symm.trans (getElem?_of_isPrefix hp he'))

/-- What is safe in a term is in the log of every leader of a later term, from the
moment it stood. -/
theorem Inv.safe_cand (h : Inv ids term w) {t u : Nat} {l : List ε} {k : ν}
    (hs : Safe ids term w t l) (hu : t < u) (hl : w.leader u = some k) :
    l <+: w.cand k u := by
  rcases hs with rfl | ⟨x, hx, l', hc, hp⟩
  · exact List.nil_prefix
  · exact hp.trans (h.leaderCompleteness hc u k (Nat.lt_of_le_of_lt hx hu) hl)

end Consensus
