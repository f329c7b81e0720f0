/-
Cyclic redundancy checks over a register of `w` bits, low bit first.

A shift drops the low bit of the register and adds the generator when the bit was set.  It
is linear in exclusive or, and when the generator has its top bit set it is injective.  A
symbol of `k` bits is added into the low end and shifted through.  As long as the symbols
fit into the register, they are absorbed as one word, and the register tells them apart.
-/
import Mathlib.Data.BitVec
import Mathlib.Logic.Function.Iterate

namespace WWRaftKV

namespace Crc

variable {w k : Nat}

/-! ## The shift -/

/-- One division step by the generator `p`. -/
def shift (p c : BitVec w) : BitVec w :=
  if c.getLsbD 0 then p ^^^ (c >>> 1) else c >>> 1

theorem shift_xor (p a b : BitVec w) : shift p (a ^^^ b) = shift p a ^^^ shift p b := by
  have hcancel : (p ^^^ a >>> 1) ^^^ (p ^^^ b >>> 1) = a >>> 1 ^^^ b >>> 1 := by
    rw [BitVec.xor_comm p (a >>> 1), BitVec.xor_assoc, ← BitVec.xor_assoc p p, BitVec.xor_self,
      BitVec.zero_xor]
  unfold shift
  rw [BitVec.getLsbD_xor, BitVec.ushiftRight_xor_distrib]
  cases ha : a.getLsbD 0 <;> cases hb : b.getLsbD 0 <;> simp only [Bool.false_xor, Bool.true_xor,
    Bool.not_false, Bool.not_true, Bool.false_eq_true, if_true, if_false]
  · rw [← BitVec.xor_assoc, BitVec.xor_comm p, BitVec.xor_assoc]
  · rw [BitVec.xor_assoc]
  · exact hcancel.symm

/-- A register that a shift takes to zero was zero: the top bit of the generator is not
cleared by the register, which a shift leaves without its top bit. -/
theorem eq_zero_of_shift {p : BitVec w} (hp : p.msb = true) {c : BitVec w}
    (h : shift p c = 0#w) : c = 0#w := by
  unfold shift at h
  by_cases hc : c.getLsbD 0
  · rw [if_pos hc, BitVec.xor_eq_zero_iff] at h
    rw [h, BitVec.msb_ushiftRight] at hp
    simp at hp
  · rw [if_neg hc] at h
    refine BitVec.eq_of_getLsbD_eq fun i hi => ?_
    rw [BitVec.getLsbD_zero]
    cases i with
    | zero => exact Bool.eq_false_of_not_eq_true hc
    | succ i =>
      have hbit := congrArg (fun x => x.getLsbD i) h
      rw [BitVec.getLsbD_ushiftRight, BitVec.getLsbD_zero, Nat.add_comm] at hbit
      exact hbit

theorem shift_injective {p : BitVec w} (hp : p.msb = true) : Function.Injective (shift p) := by
  intro a b h
  have hz : shift p (a ^^^ b) = 0#w := by
    rw [shift_xor, h, BitVec.xor_self]
  exact BitVec.xor_eq_zero_iff.mp (eq_zero_of_shift hp hz)

/-! ## Many shifts -/

/-- `n` division steps. -/
def shifts (p : BitVec w) (n : Nat) (c : BitVec w) : BitVec w := (shift p)^[n] c

theorem shifts_succ (p : BitVec w) (n : Nat) (c : BitVec w) :
    shifts p (n + 1) c = shifts p n (shift p c) := Function.iterate_succ_apply _ _ _

theorem shifts_add (p : BitVec w) (m n : Nat) (c : BitVec w) :
    shifts p (m + n) c = shifts p m (shifts p n c) := Function.iterate_add_apply _ _ _ _

theorem shifts_xor (p : BitVec w) (n : Nat) (a b : BitVec w) :
    shifts p n (a ^^^ b) = shifts p n a ^^^ shifts p n b := by
  induction n generalizing a b with
  | zero => rfl
  | succ n ih => rw [shifts_succ, shifts_succ, shifts_succ, shift_xor, ih]

theorem shifts_injective {p : BitVec w} (hp : p.msb = true) (n : Nat) :
    Function.Injective (shifts p n) := (shift_injective hp).iterate n

/-- The low bit of a word that was moved up is clear, so a shift moves it down again. -/
theorem shift_shiftLeft (p y : BitVec w) {n : Nat}
    (hy : ∀ i, w ≤ i + (n + 1) → y.getLsbD i = false) :
    shift p (y <<< (n + 1)) = y <<< n := by
  have hlow : (y <<< (n + 1)).getLsbD 0 = false := by
    simp
  rw [shift, hlow, if_neg Bool.false_ne_true]
  refine BitVec.eq_of_getLsbD_eq fun i hi => ?_
  rw [BitVec.getLsbD_ushiftRight, BitVec.getLsbD_shiftLeft, BitVec.getLsbD_shiftLeft]
  have hsub : 1 + i - (n + 1) = i - n := by omega
  have hlt : decide (1 + i < n + 1) = decide (i < n) := by
    exact decide_eq_decide.mpr (by omega)
  rw [hsub, hlt, decide_eq_true hi]
  by_cases hfit : 1 + i < w
  · rw [decide_eq_true hfit]
  · by_cases hin : i < n
    · rw [decide_eq_true hin]
      simp
    · rw [hy (i - n) (by omega)]
      simp

/-- What fits above `n` bits comes down unchanged through `n` shifts. -/
theorem shifts_shiftLeft (p y : BitVec w) {n : Nat} (hy : ∀ i, w ≤ i + n → y.getLsbD i = false) :
    shifts p n (y <<< n) = y := by
  induction n with
  | zero => rw [BitVec.shiftLeft_zero]; rfl
  | succ n ih =>
    rw [shifts_succ, shift_shiftLeft p y hy]
    exact ih fun i hi => hy i (by omega)

/-- Through `n` shifts the upper part of a register only moves down. -/
theorem shifts_split (p c : BitVec w) (n : Nat) :
    shifts p n c = (c >>> n) ^^^ shifts p n (c ^^^ c >>> n <<< n) := by
  have hup : shifts p n (c >>> n <<< n) = c >>> n := by
    refine shifts_shiftLeft p (c >>> n) fun i hi => ?_
    rw [BitVec.getLsbD_ushiftRight]
    exact BitVec.getLsbD_of_ge c _ (by omega)
  rw [shifts_xor, hup, BitVec.xor_comm (shifts p n c), ← BitVec.xor_assoc, BitVec.xor_self,
    BitVec.zero_xor]

/-! ## Symbols -/

/-- A symbol is added into the low end of the register and shifted through. -/
def absorb (p c : BitVec w) (b : BitVec k) : BitVec w := shifts p k (c ^^^ b.setWidth w)

theorem absorb_injective {p : BitVec w} (hp : p.msb = true) (b : BitVec k) :
    Function.Injective fun c => absorb p c b := by
  intro c d h
  exact (BitVec.xor_left_inj _).mp (shifts_injective hp k h)

/-- Two registers that differ still differ after the same symbols. -/
theorem foldl_absorb_injective {p : BitVec w} (hp : p.msb = true) (bs : List (BitVec k)) :
    Function.Injective fun c => bs.foldl (absorb p) c := by
  induction bs with
  | nil => exact fun _ _ h => h
  | cons b bs ih => exact fun c d h => absorb_injective hp b (ih h)

/-- The symbols as one word, the first in the low end. -/
def word (w : Nat) : List (BitVec k) → BitVec w
  | [] => 0#w
  | b :: bs => b.setWidth w ^^^ word w bs <<< k

/-- The word of `n` symbols has nothing above its `k * n` bits. -/
theorem getLsbD_word_of_le (bs : List (BitVec k)) {i : Nat} (h : k * bs.length ≤ i) :
    (word w bs).getLsbD i = false := by
  induction bs generalizing i with
  | nil => exact BitVec.getLsbD_zero
  | cons b bs ih =>
    rw [List.length_cons, Nat.mul_add, Nat.mul_one] at h
    have hrest : (word w bs).getLsbD (i - k) = false := ih (by omega)
    rw [word, BitVec.getLsbD_xor, BitVec.getLsbD_setWidth, BitVec.getLsbD_shiftLeft, hrest,
      BitVec.getLsbD_of_ge b i (by omega)]
    simp

/-- The first symbol is the low end of the word. -/
theorem getLsbD_word_cons (b : BitVec k) (bs : List (BitVec k)) {i : Nat} (hw : i < w) :
    (word w (b :: bs)).getLsbD i =
      if i < k then b.getLsbD i else (word w bs).getLsbD (i - k) := by
  rw [word, BitVec.getLsbD_xor, BitVec.getLsbD_setWidth, BitVec.getLsbD_shiftLeft,
    decide_eq_true hw]
  by_cases hi : i < k
  · rw [if_pos hi, decide_eq_true hi]
    simp
  · rw [if_neg hi, decide_eq_false hi, BitVec.getLsbD_of_ge b i (by omega)]
    simp

/-- Words of symbols that fit into the register tell the symbols apart. -/
theorem word_injective {as bs : List (BitVec k)} (hlen : as.length = bs.length)
    (hfit : k * as.length ≤ w) (h : word w as = word w bs) : as = bs := by
  induction as generalizing bs with
  | nil => exact (List.length_eq_zero_iff.mp hlen.symm).symm
  | cons a as ih =>
    cases bs with
    | nil => cases hlen
    | cons b bs =>
      rw [List.length_cons, Nat.mul_add, Nat.mul_one] at hfit
      have hlen' : as.length = bs.length := Nat.succ.inj hlen
      have hbit : ∀ i, i < w → (if i < k then a.getLsbD i else (word w as).getLsbD (i - k)) =
          if i < k then b.getLsbD i else (word w bs).getLsbD (i - k) := by
        intro i hi
        rw [← getLsbD_word_cons a as hi, ← getLsbD_word_cons b bs hi, h]
      have hab : a = b := by
        refine BitVec.eq_of_getLsbD_eq fun i hi => ?_
        have := hbit i (by omega)
        rwa [if_pos hi, if_pos hi] at this
      have hrest : word w as = word w bs := by
        refine BitVec.eq_of_getLsbD_eq fun i hi => ?_
        by_cases hk : i + k < w
        · have := hbit (i + k) hk
          rwa [if_neg (by omega), if_neg (by omega), Nat.add_sub_cancel] at this
        · have hi : k * as.length ≤ i := by omega
          rw [getLsbD_word_of_le as hi, getLsbD_word_of_le bs (hlen' ▸ hi)]
      rw [hab, ih hlen' (by omega) hrest]

/-- Symbols that fit into the register are absorbed as one word. -/
theorem foldl_absorb (p c : BitVec w) {bs : List (BitVec k)} (hfit : k * bs.length ≤ w) :
    bs.foldl (absorb p) c = shifts p (k * bs.length) (c ^^^ word w bs) := by
  induction bs generalizing c with
  | nil =>
    rw [word, BitVec.xor_zero]
    rfl
  | cons b bs ih =>
    rw [List.length_cons, Nat.mul_add, Nat.mul_one] at hfit ⊢
    have hword : shifts p k (word w bs <<< k) = word w bs :=
      shifts_shiftLeft p _ fun i hi => getLsbD_word_of_le bs (by omega)
    rw [List.foldl_cons, ih _ (by omega), shifts_add, absorb, word, ← BitVec.xor_assoc,
      shifts_xor p k _ (word w bs <<< k), hword]

/-- From one register, different symbols that fit lead to different registers. -/
theorem foldl_absorb_ne {p : BitVec w} (hp : p.msb = true) (c : BitVec w)
    {as bs : List (BitVec k)} (hlen : as.length = bs.length) (hfit : k * as.length ≤ w)
    (hne : as ≠ bs) : as.foldl (absorb p) c ≠ bs.foldl (absorb p) c := by
  intro h
  rw [foldl_absorb p c hfit, foldl_absorb p c (hlen ▸ hfit), hlen] at h
  have hword := (BitVec.xor_right_inj c).mp (shifts_injective hp _ h)
  exact hne (word_injective hlen hfit hword)

/-! ## Bursts -/

/-- Two lists that differ, at places within `n` consecutive ones from `lo` only. -/
structure Burst {α : Type} (lo n : Nat) (as bs : List α) : Prop where
  length : as.length = bs.length
  ne : as ≠ bs
  within : ∀ i, as[i]? ≠ bs[i]? → lo ≤ i ∧ i < lo + n

namespace Burst

variable {α : Type} {lo n : Nat} {as bs : List α}

theorem take_eq (h : Burst lo n as bs) : as.take lo = bs.take lo := by
  refine List.ext_getElem? fun i => ?_
  rw [List.getElem?_take, List.getElem?_take]
  by_cases hi : i < lo
  · rw [if_pos hi, if_pos hi]
    by_contra hne
    have := (h.within i hne).1
    omega
  · rw [if_neg hi, if_neg hi]

theorem drop_eq (h : Burst lo n as bs) : as.drop (lo + n) = bs.drop (lo + n) := by
  refine List.ext_getElem? fun i => ?_
  rw [List.getElem?_drop, List.getElem?_drop]
  by_contra hne
  have := (h.within _ hne).2
  omega

/-- The two lists around the places where they may differ. -/
theorem parts (h : Burst lo n as bs) : ∃ pre mid mid' post : List α,
    as = pre ++ (mid ++ post) ∧ bs = pre ++ (mid' ++ post) ∧
      mid.length = mid'.length ∧ mid.length ≤ n ∧ mid ≠ mid' := by
  have hsplit : ∀ l : List α, l = l.take lo ++ ((l.drop lo).take n ++ l.drop (lo + n)) := by
    intro l
    rw [← List.drop_drop, List.take_append_drop, List.take_append_drop]
  refine ⟨as.take lo, (as.drop lo).take n, (bs.drop lo).take n, as.drop (lo + n), hsplit as,
    ?_, ?_, List.length_take_le _ _, ?_⟩
  · rw [h.take_eq, h.drop_eq]
    exact hsplit bs
  · rw [List.length_take, List.length_take, List.length_drop, List.length_drop, h.length]
  · intro hmid
    apply h.ne
    rw [hsplit as, hsplit bs, h.take_eq, h.drop_eq, hmid]

/-- Lists that agree before and behind the places. -/
theorem of_take_drop (hlen : as.length = bs.length) (hne : as ≠ bs)
    (htake : as.take lo = bs.take lo) (hdrop : as.drop (lo + n) = bs.drop (lo + n)) :
    Burst lo n as bs where
  length := hlen
  ne := hne
  within i hi := by
    by_contra hout
    apply hi
    rcases Nat.lt_or_ge i lo with hlo | hlo
    · rw [← List.getElem?_take_of_lt hlo, htake, List.getElem?_take_of_lt hlo]
    · have hback : i = lo + n + (i - (lo + n)) := by omega
      rw [hback, ← List.getElem?_drop, hdrop, List.getElem?_drop]

end Burst

/-- The register tells two lists apart that differ in a burst it has room for. -/
theorem foldl_absorb_burst {p : BitVec w} (hp : p.msb = true) (c : BitVec w) {lo n : Nat}
    {as bs : List (BitVec k)} (h : Burst lo n as bs) (hfit : k * n ≤ w) :
    as.foldl (absorb p) c ≠ bs.foldl (absorb p) c := by
  obtain ⟨pre, mid, mid', post, rfl, rfl, hlen, hn, hne⟩ := h.parts
  have hroom : k * mid.length ≤ w := (Nat.mul_le_mul_left k hn).trans hfit
  rw [List.foldl_append, List.foldl_append, List.foldl_append, List.foldl_append]
  intro heq
  exact foldl_absorb_ne hp _ hlen hroom hne (foldl_absorb_injective hp post heq)

end Crc

end WWRaftKV
