/-
Elections and replicated logs, without messages.

`World` records what a replicated log is about: who voted for whom in which term,
which log a candidate stood with, what the leader of a term has written, and how
much of it each node has confirmed.  Nodes move by the seven steps of `Step`.  Logs
only grow here: an implementation that overwrites entries is not covered.

`Inv` is inductive.  `Inv.leaderCompleteness` and `Inv.safe_total` are what it is for.
-/
import Mathlib.Logic.Function.Basic
import WWRaftKV.General.Quorum
import WWRaftKV.General.TermLog

namespace Consensus

open TermLog Quorum

variable {ν ε : Type} [DecidableEq ν]

structure World (ν ε : Type) where
  term : ν → Nat
  /-- the vote of a node in a term -/
  vote : ν → Nat → Option ν
  /-- the log a node stood with in a term -/
  cand : ν → Nat → List ε
  leader : Nat → Option ν
  /-- all that the leader of a term has written, and what it started from -/
  llog : Nat → List ε
  log : ν → List ε
  /-- how much of the leader's log of a term a node has confirmed -/
  ack : ν → Nat → Nat

namespace World

def start : World ν ε where
  term := fun _ => 0
  vote := fun _ _ => none
  cand := fun _ _ => []
  leader := fun _ => none
  llog := fun _ => []
  log := fun _ => []
  ack := fun _ _ => 0

/-- Set one value of a table with two keys. -/
def set {β : Type} (g : ν → Nat → β) (n : ν) (t : Nat) (b : β) : ν → Nat → β :=
  fun a u => if a = n ∧ u = t then b else g a u

def observe (w : World ν ε) (n : ν) (t : Nat) : World ν ε :=
  { w with term := Function.update w.term n t }

def stand (w : World ν ε) (n : ν) : World ν ε :=
  { w with
    term := Function.update w.term n (w.term n + 1)
    vote := set w.vote n (w.term n + 1) (some n)
    cand := set w.cand n (w.term n + 1) (w.log n) }

def grant (w : World ν ε) (n k : ν) (t : Nat) : World ν ε :=
  { w with
    term := Function.update w.term n t
    vote := set w.vote n t (some k) }

def elect (w : World ν ε) (n : ν) : World ν ε :=
  { w with
    leader := Function.update w.leader (w.term n) (some n)
    llog := Function.update w.llog (w.term n) (w.log n) }

def append (w : World ν ε) (n : ν) (e : ε) : World ν ε :=
  { w with
    log := Function.update w.log n (w.log n ++ [e])
    llog := Function.update w.llog (w.term n) (w.log n ++ [e]) }

def extend (w : World ν ε) (n : ν) (l : List ε) : World ν ε :=
  { w with log := Function.update w.log n l }

def confirm (w : World ν ε) (n : ν) (k : Nat) : World ν ε :=
  { w with ack := set w.ack n (w.term n) (max (w.ack n (w.term n)) k) }

end World

variable (ids : List ν) (term : ε → Nat)

inductive Step (w : World ν ε) : World ν ε → Prop
  | observe (n : ν) (t : Nat) (ht : w.term n ≤ t) : Step w (w.observe n t)
  | stand (n : ν) : Step w (w.stand n)
  | grant (n k : ν) (t : Nat) (ht : w.term n ≤ t) (hv : w.vote n t = none)
      (hk : w.vote k t = some k) (hu : UpToDate term (w.cand k t) (w.log n)) :
      Step w (w.grant n k t)
  | elect (n : ν) (ht : 0 < w.term n) (hl : w.leader (w.term n) = none)
      (hq : Majority ids fun a => w.vote a (w.term n) == some n) : Step w (w.elect n)
  | append (n : ν) (e : ε) (hl : w.leader (w.term n) = some n) (he : term e = w.term n) :
      Step w (w.append n e)
  | extend (n : ν) (l : List ε) (hg : w.log n <+: l) (hl : l <+: w.llog (w.term n)) :
      Step w (w.extend n l)
  | confirm (n : ν) (k : Nat) (hk : k ≤ (w.llog (w.term n)).length)
      (hl : (w.llog (w.term n)).take k <+: w.log n) : Step w (w.confirm n k)

structure Inv (w : World ν ε) : Prop where
  proper_log : ∀ n, Proper term w.llog (w.log n)
  proper_llog : ∀ t, Proper term w.llog (w.llog t)
  proper_cand : ∀ n t, Proper term w.llog (w.cand n t)
  log_le : ∀ n, ∀ e ∈ w.log n, term e ≤ w.term n
  llog_le : ∀ t, ∀ e ∈ w.llog t, term e ≤ t
  cand_lt : ∀ n t, ∀ e ∈ w.cand n t, term e < t
  voter : ∀ n t k, w.vote n t = some k → t ≤ w.term n
  stood : ∀ n t k, w.vote n t = some k → w.vote k t = some k
  vote_pos : ∀ n t k, w.vote n t = some k → 0 < t
  cand_log : ∀ n t, w.cand n t <+: w.log n
  elected : ∀ t n, w.leader t = some n →
    0 < t ∧ t ≤ w.term n ∧ Majority ids fun a => w.vote a t == some n
  leader_log : ∀ n, w.leader (w.term n) = some n → w.log n = w.llog (w.term n)
  leader_cand : ∀ t n, w.leader t = some n → w.cand n t <+: w.llog t
  no_leader : ∀ t, w.leader t = none → w.llog t = []
  ack_le : ∀ n t, w.ack n t ≤ (w.llog t).length
  acked : ∀ n t, (w.llog t).take (w.ack n t) <+: w.log n
  ack_term : ∀ n t, w.ack n t ≠ 0 → t ≤ w.term n
  /-- A voter has compared the candidate's log with all that it had confirmed. -/
  covered : ∀ n t u k p e, w.vote n u = some k → t < u → p ++ [e] <+: w.llog t →
    term e = t → p.length + 1 ≤ w.ack n t → UpToDate term (w.cand k u) (p ++ [e])

variable {ids term}

/-- What holds of the old value and of the new one holds after an update. -/
theorem update_ind {α β : Type} [DecidableEq α] {g : α → β} {n : α} {b : β} {P : β → Prop}
    (a : α) (hold : P (g a)) (hnew : a = n → P b) : P (Function.update g n b a) := by
  by_cases ha : a = n
  · rw [ha, Function.update_self]
    exact hnew ha
  · rw [Function.update_of_ne ha]
    exact hold

theorem set_ind {β : Type} {g : ν → Nat → β} {n : ν} {t : Nat} {b : β} {P : β → Prop} (a : ν)
    (u : Nat) (hold : P (g a u)) (hnew : a = n → u = t → P b) :
    P (World.set g n t b a u) := by
  unfold World.set
  split
  next hau => exact hnew hau.1 hau.2
  next => exact hold

theorem set_self {β : Type} (g : ν → Nat → β) (n : ν) (t : Nat) (b : β) :
    World.set g n t b n t = b := if_pos ⟨rfl, rfl⟩

theorem set_other {β : Type} {g : ν → Nat → β} {n a : ν} {t u : Nat} {b : β}
    (h : ¬ (a = n ∧ u = t)) : World.set g n t b a u = g a u := if_neg h

theorem inv_start : Inv ids term (World.start : World ν ε) where
  proper_log := fun _ => proper_nil
  proper_llog := fun _ => proper_nil
  proper_cand := fun _ _ => proper_nil
  log_le := fun _ _ he => nomatch he
  llog_le := fun _ _ he => nomatch he
  cand_lt := fun _ _ _ he => nomatch he
  voter := fun _ _ _ h => nomatch h
  stood := fun _ _ _ h => nomatch h
  vote_pos := fun _ _ _ h => nomatch h
  cand_log := fun _ _ => List.prefix_refl _
  elected := fun _ _ h => nomatch h
  leader_log := fun _ h => nomatch h
  leader_cand := fun _ _ h => nomatch h
  no_leader := fun _ _ => rfl
  ack_le := fun _ _ => Nat.le_refl _
  acked := fun _ _ => List.prefix_refl _
  ack_term := fun _ _ h => absurd rfl h
  covered := fun _ _ _ _ _ _ h => nomatch h

variable {w : World ν ε}

theorem Inv.vote_none (h : Inv ids term w) {n : ν} {t : Nat} (ht : w.term n < t) :
    w.vote n t = none := by
  cases hv : w.vote n t with
  | none => rfl
  | some k =>
    have hle := h.voter n t k hv
    omega

theorem Inv.unvoted (h : Inv ids term w) {n : ν} {t : Nat} (ht : w.term n < t) (a : ν) :
    w.vote a t ≠ some n := by
  intro hv
  have hself := h.stood a t n hv
  rw [h.vote_none ht] at hself
  cases hself

theorem Inv.unelected (h : Inv ids term w) {n : ν} {t : Nat} (ht : w.term n < t) :
    w.leader t ≠ some n := by
  intro hl
  have hle := (h.elected t n hl).2.1
  omega

/-- Two winners of one term are the same node. -/
theorem Inv.winner_unique (h : Inv ids term w) {t : Nat} {n m : ν} (hl : w.leader t = some m)
    (hq : Majority ids fun a => w.vote a t == some n) : m = n := by
  obtain ⟨a, _, hm, hn⟩ := (h.elected t m hl).2.2.meet hq
  simp only [beq_iff_eq] at hm hn
  exact Option.some.inj (hm.symm.trans hn)

/-! ## The steps keep the invariant -/

section Steps

variable {n k : ν} {t : Nat}

theorem update_of_mono {g : ν → Nat} {b : Nat} (hb : g n ≤ b) (a : ν) :
    g a ≤ Function.update g n b a := by
  rw [Function.update_apply]
  split
  next ha =>
    rw [ha]
    exact hb
  next => exact Nat.le_refl _

theorem Inv.observe (h : Inv ids term w) (ht : w.term n ≤ t) : Inv ids term (w.observe n t) := by
  have hmono : ∀ a, w.term a ≤ (w.observe n t).term a := update_of_mono ht
  constructor
  case proper_log => exact fun a => (h.proper_log a).mono fun _ => List.prefix_refl _
  case proper_llog => exact fun a => (h.proper_llog a).mono fun _ => List.prefix_refl _
  case proper_cand => exact fun a u => (h.proper_cand a u).mono fun _ => List.prefix_refl _
  case log_le => exact fun a e he => Nat.le_trans (h.log_le a e he) (hmono a)
  case llog_le => exact h.llog_le
  case cand_lt => exact h.cand_lt
  case voter => exact fun a u m hv => Nat.le_trans (h.voter a u m hv) (hmono a)
  case stood => exact h.stood
  case vote_pos => exact h.vote_pos
  case cand_log => exact h.cand_log
  case elected =>
    intro u m hl
    obtain ⟨hp, hle, hq⟩ := h.elected u m hl
    exact ⟨hp, Nat.le_trans hle (hmono m), hq⟩
  case leader_log =>
    intro a hl
    by_cases ha : a = n
    · subst ha
      simp only [World.observe, Function.update_self] at hl ⊢
      have heq : t = w.term a := Nat.le_antisymm (h.elected t a hl).2.1 ht
      rw [heq] at hl ⊢
      exact h.leader_log a hl
    · simp only [World.observe, Function.update_of_ne ha] at hl ⊢
      exact h.leader_log a hl
  case leader_cand => exact h.leader_cand
  case no_leader => exact h.no_leader
  case ack_le => exact h.ack_le
  case acked => exact h.acked
  case ack_term => exact fun a u ha => Nat.le_trans (h.ack_term a u ha) (hmono a)
  case covered => exact h.covered

/-- A vote for `k` in term `t`, by `n` itself or after a comparison of the logs. -/
theorem Inv.cast (h : Inv ids term w) (ht : w.term n = t) (hp : 0 < t) (hv : w.vote n t = none)
    (hk : w.vote k t = some k ∨ k = n) (hu : UpToDate term (w.cand k t) (w.log n)) :
    Inv ids term { w with vote := World.set w.vote n t (some k) } := by
  have hgrow : ∀ {a u m}, w.vote a u = some m →
      World.set w.vote n t (some k) a u = some m := by
    intro a u m ha
    by_cases hau : a = n ∧ u = t
    · obtain ⟨rfl, rfl⟩ := hau
      rw [hv] at ha
      cases ha
    · rw [set_other hau]
      exact ha
  have hcases : ∀ {a u m}, World.set w.vote n t (some k) a u = some m →
      (a = n ∧ u = t ∧ m = k) ∨ w.vote a u = some m := by
    intro a u m ha
    unfold World.set at ha
    split at ha
    next hau => exact .inl ⟨hau.1, hau.2, (Option.some.inj ha).symm⟩
    next => exact .inr ha
  constructor
  case proper_log => exact h.proper_log
  case proper_llog => exact h.proper_llog
  case proper_cand => exact h.proper_cand
  case log_le => exact h.log_le
  case llog_le => exact h.llog_le
  case cand_lt => exact h.cand_lt
  case voter =>
    intro a u m ha
    rcases hcases ha with ⟨rfl, rfl, _⟩ | ha
    · exact Nat.le_of_eq ht.symm
    · exact h.voter a u m ha
  case stood =>
    intro a u m ha
    rcases hcases ha with ⟨rfl, rfl, rfl⟩ | ha
    · rcases hk with hk | rfl
      · exact hgrow hk
      · exact ha
    · exact hgrow (h.stood a u m ha)
  case vote_pos =>
    intro a u m ha
    rcases hcases ha with ⟨_, rfl, _⟩ | ha
    · exact hp
    · exact h.vote_pos a u m ha
  case cand_log => exact h.cand_log
  case elected =>
    intro u m hl
    obtain ⟨hp, hle, hq⟩ := h.elected u m hl
    refine ⟨hp, hle, hq.mono fun a _ ha => ?_⟩
    rw [beq_iff_eq] at ha ⊢
    exact hgrow ha
  case leader_log => exact h.leader_log
  case leader_cand => exact h.leader_cand
  case no_leader => exact h.no_leader
  case ack_le => exact h.ack_le
  case acked => exact h.acked
  case ack_term => exact h.ack_term
  case covered =>
    intro a u x m p e ha hlt hp he hack
    rcases hcases ha with ⟨rfl, rfl, rfl⟩ | ha
    · have hlog : p ++ [e] <+: w.log a := by
        refine List.IsPrefix.trans ?_ (h.acked a u)
        refine List.prefix_of_prefix_length_le hp (List.take_prefix _ _) ?_
        rw [List.length_take, Nat.min_eq_left (h.ack_le a u), List.length_append]
        exact hack
      exact hu.trans (upToDate_of_isPrefix (h.proper_log a).sorted hlog)
    · exact h.covered a u x m p e ha hlt hp he hack

theorem Inv.grant (h : Inv ids term w) (ht : w.term n ≤ t) (hv : w.vote n t = none)
    (hk : w.vote k t = some k) (hu : UpToDate term (w.cand k t) (w.log n)) :
    Inv ids term (w.grant n k t) :=
  (h.observe ht).cast (Function.update_self ..) (h.vote_pos k t k hk) hv (.inl hk) hu

/-- A log put on record for a term that nobody has been a candidate of `n` in. -/
theorem Inv.record (h : Inv ids term w) (ht : w.term n < t) :
    Inv ids term { w with cand := World.set w.cand n t (w.log n) } := by
  constructor
  case proper_log => exact h.proper_log
  case proper_llog => exact h.proper_llog
  case proper_cand =>
    exact fun a u => set_ind (P := Proper term w.llog) a u (h.proper_cand a u)
      fun _ _ => h.proper_log n
  case log_le => exact h.log_le
  case llog_le => exact h.llog_le
  case cand_lt =>
    refine fun a u => set_ind (P := fun l => ∀ e ∈ l, term e < u) a u (h.cand_lt a u) ?_
    intro _ hu e he
    have hle := h.log_le n e he
    omega
  case voter => exact h.voter
  case stood => exact h.stood
  case vote_pos => exact h.vote_pos
  case cand_log =>
    refine fun a u => set_ind (P := fun l => l <+: w.log a) a u (h.cand_log a u) ?_
    intro ha _
    rw [ha]
  case elected => exact h.elected
  case leader_log => exact h.leader_log
  case leader_cand =>
    intro u m hl
    refine set_ind (P := fun l => l <+: w.llog u) m u (h.leader_cand u m hl) ?_
    intro hm hu
    rw [hm, hu] at hl
    exact absurd hl (h.unelected ht)
  case no_leader => exact h.no_leader
  case ack_le => exact h.ack_le
  case acked => exact h.acked
  case ack_term => exact h.ack_term
  case covered =>
    intro a u x m p e ha hlt hp he hack
    refine set_ind (P := fun l => UpToDate term l (p ++ [e])) m x
      (h.covered a u x m p e ha hlt hp he hack) ?_
    intro hm hx
    rw [hm, hx] at ha
    exact absurd ha (h.unvoted ht a)

theorem Inv.stand (h : Inv ids term w) (n : ν) : Inv ids term (w.stand n) := by
  have hlt : w.term n < w.term n + 1 := Nat.lt_succ_self _
  refine ((h.record hlt).observe (t := w.term n + 1) (Nat.le_of_lt hlt)).cast (k := n)
    (Function.update_self ..) (Nat.succ_pos _) (h.vote_none hlt) (.inr rfl) ?_
  show UpToDate term (World.set w.cand n (w.term n + 1) (w.log n) n (w.term n + 1)) (w.log n)
  rw [set_self]
  exact .inr ⟨rfl, Nat.le_refl _⟩

theorem Inv.elect (h : Inv ids term w) (ht : 0 < w.term n)
    (hl : w.leader (w.term n) = none)
    (hq : Majority ids fun a => w.vote a (w.term n) == some n) : Inv ids term (w.elect n) := by
  have hnil : w.llog (w.term n) = [] := h.no_leader _ hl
  have hgrow : ∀ u, w.llog u <+: (w.elect n).llog u := by
    intro u
    refine update_ind (P := fun l => w.llog u <+: l) u (List.prefix_refl _) fun hu => ?_
    rw [hu, hnil]
    exact List.nil_prefix
  have hzero : ∀ a, w.ack a (w.term n) = 0 := by
    intro a
    have hle := h.ack_le a (w.term n)
    rw [hnil] at hle
    exact Nat.le_zero.mp hle
  have hleader : ∀ {u m}, (w.elect n).leader u = some m →
      (u = w.term n ∧ m = n) ∨ w.leader u = some m := by
    intro u m hm
    by_cases hu : u = w.term n
    · rw [hu] at hm
      simp only [World.elect, Function.update_self] at hm
      exact .inl ⟨hu, (Option.some.inj hm).symm⟩
    · simp only [World.elect, Function.update_of_ne hu] at hm
      exact .inr hm
  constructor
  case proper_log => exact fun a => (h.proper_log a).mono hgrow
  case proper_llog =>
    exact fun u => update_ind (P := Proper term (w.elect n).llog) u ((h.proper_llog u).mono hgrow)
      fun _ => (h.proper_log n).mono hgrow
  case proper_cand => exact fun a u => (h.proper_cand a u).mono hgrow
  case log_le => exact h.log_le
  case llog_le =>
    refine fun u => update_ind (P := fun l => ∀ e ∈ l, term e ≤ u) u (h.llog_le u) fun hu => ?_
    rw [hu]
    exact h.log_le n
  case cand_lt => exact h.cand_lt
  case voter => exact h.voter
  case stood => exact h.stood
  case vote_pos => exact h.vote_pos
  case cand_log => exact h.cand_log
  case elected =>
    intro u m hm
    rcases hleader hm with ⟨rfl, rfl⟩ | hm
    · exact ⟨ht, Nat.le_refl _, hq⟩
    · exact h.elected u m hm
  case leader_log =>
    intro a ha
    show w.log a = (w.elect n).llog (w.term a)
    rcases hleader ha with ⟨_, rfl⟩ | ha
    · show w.log a = Function.update w.llog (w.term a) (w.log a) (w.term a)
      rw [Function.update_self]
    · refine update_ind (P := fun l => w.log a = l) (w.term a) (h.leader_log a ha) fun hu => ?_
      have ha' : w.leader (w.term a) = some a := ha
      rw [hu, hl] at ha'
      cases ha'
  case leader_cand =>
    intro u m hm
    rcases hleader hm with ⟨rfl, rfl⟩ | hm
    · show w.cand m (w.term m) <+: Function.update w.llog (w.term m) (w.log m) (w.term m)
      rw [Function.update_self]
      exact h.cand_log m _
    · exact (h.leader_cand u m hm).trans (hgrow u)
  case no_leader =>
    intro u hu
    by_cases hut : u = w.term n
    · rw [hut] at hu
      simp only [World.elect, Function.update_self] at hu
      cases hu
    · simp only [World.elect, Function.update_of_ne hut] at hu ⊢
      exact h.no_leader u hu
  case ack_le => exact fun a u => Nat.le_trans (h.ack_le a u) (hgrow u).length_le
  case acked =>
    intro a u
    refine update_ind (P := fun l : List ε => l.take (w.ack a u) <+: w.log a) u (h.acked a u)
      fun hu => ?_
    rw [hu, hzero, List.take_zero]
    exact List.nil_prefix
  case ack_term => exact h.ack_term
  case covered =>
    intro a u x m p e ha hlt hp he hack
    by_cases hu : u = w.term n
    · have hack' : p.length + 1 ≤ w.ack a u := hack
      rw [hu, hzero] at hack'
      omega
    · simp only [World.elect, Function.update_of_ne hu] at hp
      exact h.covered a u x m p e ha hlt hp he hack

theorem Inv.append (h : Inv ids term w) {e : ε} (hl : w.leader (w.term n) = some n)
    (he : term e = w.term n) : Inv ids term (w.append n e) := by
  have hlog : w.log n = w.llog (w.term n) := h.leader_log n hl
  have hself : (w.append n e).llog (w.term n) = w.log n ++ [e] := Function.update_self ..
  have hgrow : ∀ u, w.llog u <+: (w.append n e).llog u := by
    intro u
    refine update_ind (P := fun l => w.llog u <+: l) u (List.prefix_refl _) fun hu => ?_
    rw [hu, ← hlog]
    exact List.prefix_append _ _
  have hgrowLog : ∀ a, w.log a <+: (w.append n e).log a := by
    intro a
    refine update_ind (P := fun l => w.log a <+: l) a (List.prefix_refl _) fun ha => ?_
    rw [ha]
    exact List.prefix_append _ _
  have hnew : Proper term (w.append n e).llog (w.log n ++ [e]) := by
    refine ((h.proper_log n).mono hgrow).append (fun f hf => ?_) ?_ ?_
    · rw [he]
      exact h.log_le n f hf
    · rw [he, hself]
    · rw [he]
      exact (h.elected _ n hl).1
  have hall : ∀ f ∈ w.log n ++ [e], term f ≤ w.term n := by
    intro f hf
    rcases List.mem_append.mp hf with hf | hf
    · exact h.log_le n f hf
    · rw [List.mem_singleton.mp hf, he]
  have htake : ∀ a u, ((w.append n e).llog u).take (w.ack a u) = (w.llog u).take (w.ack a u) := by
    intro a u
    obtain ⟨s, hs⟩ := hgrow u
    rw [← hs, List.take_append_of_le_length (h.ack_le a u)]
  constructor
  case proper_log =>
    exact fun a => update_ind (P := Proper term (w.append n e).llog) a ((h.proper_log a).mono hgrow)
      fun _ => hnew
  case proper_llog =>
    exact fun u => update_ind (P := Proper term (w.append n e).llog) u
      ((h.proper_llog u).mono hgrow) fun _ => hnew
  case proper_cand => exact fun a u => (h.proper_cand a u).mono hgrow
  case log_le =>
    refine fun a => update_ind (P := fun l => ∀ f ∈ l, term f ≤ w.term a) a (h.log_le a) ?_
    intro ha
    rw [ha]
    exact hall
  case llog_le =>
    refine fun u => update_ind (P := fun l => ∀ f ∈ l, term f ≤ u) u (h.llog_le u) ?_
    intro hu
    rw [hu]
    exact hall
  case cand_lt => exact h.cand_lt
  case voter => exact h.voter
  case stood => exact h.stood
  case vote_pos => exact h.vote_pos
  case cand_log => exact fun a u => (h.cand_log a u).trans (hgrowLog a)
  case elected => exact h.elected
  case leader_log =>
    intro a ha
    by_cases han : a = n
    · subst han
      simp only [World.append, Function.update_self]
    · have hne : w.term a ≠ w.term n := by
        intro hu
        have ha' : w.leader (w.term a) = some a := ha
        rw [hu, hl] at ha'
        exact han (Option.some.inj ha').symm
      simp only [World.append, Function.update_of_ne han, Function.update_of_ne hne]
      exact h.leader_log a ha
  case leader_cand => exact fun u m hm => (h.leader_cand u m hm).trans (hgrow u)
  case no_leader =>
    intro u hu
    refine update_ind (P := fun l => l = []) u (h.no_leader u hu) fun hut => ?_
    have hu' : w.leader u = none := hu
    rw [hut, hl] at hu'
    cases hu'
  case ack_le => exact fun a u => Nat.le_trans (h.ack_le a u) (hgrow u).length_le
  case acked =>
    intro a u
    show ((w.append n e).llog u).take (w.ack a u) <+: (w.append n e).log a
    rw [htake]
    exact (h.acked a u).trans (hgrowLog a)
  case ack_term => exact h.ack_term
  case covered =>
    intro a u x m p f ha hlt hp hf hack
    refine h.covered a u x m p f ha hlt ?_ hf hack
    have hlen : (p ++ [f]).length ≤ (w.llog u).length := by
      rw [List.length_append]
      exact Nat.le_trans hack (h.ack_le a u)
    exact List.prefix_of_prefix_length_le hp (hgrow u) hlen

theorem Inv.extend (h : Inv ids term w) {l : List ε} (hg : w.log n <+: l)
    (hl : l <+: w.llog (w.term n)) : Inv ids term (w.extend n l) := by
  have hgrow : ∀ a, w.log a <+: (w.extend n l).log a := by
    intro a
    refine update_ind (P := fun l => w.log a <+: l) a (List.prefix_refl _) fun ha => ?_
    rw [ha]
    exact hg
  constructor
  case proper_log =>
    exact fun a => update_ind (P := Proper term w.llog) a (h.proper_log a)
      fun _ => (h.proper_llog _).of_isPrefix hl
  case proper_llog => exact h.proper_llog
  case proper_cand => exact h.proper_cand
  case log_le =>
    refine fun a => update_ind (P := fun l => ∀ e ∈ l, term e ≤ w.term a) a (h.log_le a) ?_
    intro ha e he
    rw [ha]
    exact h.llog_le _ e (hl.subset he)
  case llog_le => exact h.llog_le
  case cand_lt => exact h.cand_lt
  case voter => exact h.voter
  case stood => exact h.stood
  case vote_pos => exact h.vote_pos
  case cand_log => exact fun a u => (h.cand_log a u).trans (hgrow a)
  case elected => exact h.elected
  case leader_log =>
    intro a ha
    refine update_ind (P := fun l => l = w.llog (w.term a)) a (h.leader_log a ha) fun han => ?_
    subst han
    have hlog := h.leader_log a ha
    rw [hlog] at hg
    exact hl.eq_of_length_le hg.length_le
  case leader_cand => exact h.leader_cand
  case no_leader => exact h.no_leader
  case ack_le => exact h.ack_le
  case acked => exact fun a u => (h.acked a u).trans (hgrow a)
  case ack_term => exact h.ack_term
  case covered => exact h.covered

theorem Inv.confirm (h : Inv ids term w) {k : Nat} (hk : k ≤ (w.llog (w.term n)).length)
    (hl : (w.llog (w.term n)).take k <+: w.log n) : Inv ids term (w.confirm n k) := by
  have hset : ∀ {P : Nat → Prop} (a : ν) (u : Nat), P (w.ack a u) →
      (a = n → u = w.term n → P k) → P ((w.confirm n k).ack a u) := by
    intro P a u hold hnew
    refine set_ind a u hold fun ha hu => ?_
    rcases Nat.le_total (w.ack n (w.term n)) k with hm | hm
    · rw [Nat.max_eq_right hm]
      exact hnew ha hu
    · rw [Nat.max_eq_left hm, ← hu, ← ha]
      exact hold
  constructor
  case proper_log => exact h.proper_log
  case proper_llog => exact h.proper_llog
  case proper_cand => exact h.proper_cand
  case log_le => exact h.log_le
  case llog_le => exact h.llog_le
  case cand_lt => exact h.cand_lt
  case voter => exact h.voter
  case stood => exact h.stood
  case vote_pos => exact h.vote_pos
  case cand_log => exact h.cand_log
  case elected => exact h.elected
  case leader_log => exact h.leader_log
  case leader_cand => exact h.leader_cand
  case no_leader => exact h.no_leader
  case ack_le =>
    refine fun a u => hset (P := fun j => j ≤ (w.llog u).length) a u (h.ack_le a u) ?_
    intro _ hu
    rw [hu]
    exact hk
  case acked =>
    refine fun a u => hset (P := fun j => (w.llog u).take j <+: w.log a) a u (h.acked a u) ?_
    intro ha hu
    rw [ha, hu]
    exact hl
  case ack_term =>
    refine fun a u => hset (P := fun j => j ≠ 0 → u ≤ w.term a) a u (h.ack_term a u) ?_
    intro ha hu _
    rw [ha, hu]
  case covered =>
    intro a u x m p e ha hlt hp he
    refine hset (P := fun j => p.length + 1 ≤ j → UpToDate term (w.cand m x) (p ++ [e])) a u
      (h.covered a u x m p e ha hlt hp he) fun han hu _ => ?_
    -- a node that has voted in a later term confirms nothing in this one
    have hle := h.voter a x m ha
    rw [han] at hle
    omega

theorem Inv.step {w' : World ν ε} (h : Inv ids term w) (hs : Step ids term w w') :
    Inv ids term w' := by
  cases hs with
  | observe n t ht => exact h.observe ht
  | stand n => exact h.stand n
  | grant n k t ht hv hk hu => exact h.grant ht hv hk hu
  | elect n ht hl hq => exact h.elect ht hl hq
  | append n e hl he => exact h.append hl he
  | extend n l hg hl => exact h.extend hg hl
  | confirm n k hk hl => exact h.confirm hk hl

end Steps

end Consensus
