/-
Size classes: 208 block sizes, and the class of a size.
-/
import Mathlib.Data.Nat.Bitwise
import WWRaftKV.Pool.PageCache

namespace WWRaftKV

namespace Pool

namespace Size

def indexToSize (index : Nat) : Nat :=
  if index ≤ 15 then (index + 1) * 8
  else if index ≤ 71 then 128 + 16 * (index - 15)
  else if index ≤ 127 then 1024 + 128 * (index - 71)
  else if index ≤ 183 then 8192 + 1024 * (index - 127)
  else if index ≤ 207 then 65536 + 8192 * (index - 183)
  else 0

/-- The size is an aligned one. -/
def sizeToIndex (size : Nat) : Nat :=
  if size ≤ 128 then (size + 7) / 8 - 1
  else if size ≤ 1024 then 16 + (size - 129) / 16
  else if size ≤ 8192 then 72 + (size - 1025) / 128
  else if size ≤ 65536 then 128 + (size - 8193) / 1024
  else if size ≤ 262144 then 184 + (size - 65537) / 8192
  else 0

/-- `(size + align - 1) & ~(align - 1)` in 64 bits. -/
def alignUp (align size : Nat) : Nat := (size + align - 1) &&& (2 ^ 64 - align)

def roundUp (size : Nat) : Nat :=
  if size ≤ 128 then alignUp 8 size
  else if size ≤ 1024 then alignUp 16 size
  else if size ≤ 8192 then alignUp 128 size
  else if size ≤ 65536 then alignUp 1024 size
  else alignUp 8192 size

/-- The mask clears the low bits. -/
theorem and_mask {n k : Nat} (hk : k ≤ 64) (hn : n < 2 ^ 64) :
    n &&& (2 ^ 64 - 2 ^ k) = n / 2 ^ k * 2 ^ k := by
  have hmask : 2 ^ 64 - 2 ^ k = (2 ^ (64 - k) - 1) <<< k := by
    rw [Nat.shiftLeft_eq, Nat.sub_mul, Nat.one_mul, ← Nat.pow_add, Nat.sub_add_cancel hk]
  have hsmall : n / 2 ^ k < 2 ^ (64 - k) := by
    apply Nat.div_lt_of_lt_mul
    rw [← Nat.pow_add, Nat.add_sub_cancel' hk]
    exact hn
  rw [hmask, ← Nat.shiftLeft_eq, ← Nat.shiftRight_eq_div_pow]
  apply Nat.eq_of_testBit_eq
  intro i
  rw [Nat.testBit_and, Nat.testBit_shiftLeft, Nat.testBit_shiftLeft, Nat.testBit_shiftRight]
  by_cases hi : k ≤ i
  · rw [Nat.testBit_two_pow_sub_one]
    have hadd : k + (i - k) = i := by omega
    rw [hadd]
    by_cases hin : i - k < 64 - k
    · simp [hi, hin]
    · have hbit : n.testBit i = false := by
        apply Nat.testBit_lt_two_pow
        exact Nat.lt_of_lt_of_le hn (Nat.pow_le_pow_right (by omega) (by omega))
      simp [hbit]
  · simp [hi]

theorem alignUp_eq {k size : Nat} (hk : k ≤ 64) (hsize : size + 2 ^ k - 1 < 2 ^ 64) :
    alignUp (2 ^ k) size = (size + 2 ^ k - 1) / 2 ^ k * 2 ^ k :=
  and_mask hk hsize

/-- The rounded size of a request, without the masks. -/
theorem roundUp_eq {size : Nat} (hsize : size ≤ maxMemorySize) :
    roundUp size =
      if size ≤ 128 then (size + 7) / 8 * 8
      else if size ≤ 1024 then (size + 15) / 16 * 16
      else if size ≤ 8192 then (size + 127) / 128 * 128
      else if size ≤ 65536 then (size + 1023) / 1024 * 1024
      else (size + 8191) / 8192 * 8192 := by
  have hmax : size ≤ 262144 := hsize
  unfold roundUp
  split
  · exact alignUp_eq (k := 3) (by omega) (by omega)
  split
  · exact alignUp_eq (k := 4) (by omega) (by omega)
  split
  · exact alignUp_eq (k := 7) (by omega) (by omega)
  split
  · exact alignUp_eq (k := 10) (by omega) (by omega)
  · exact alignUp_eq (k := 13) (by omega) (by omega)

theorem le_roundUp {size : Nat} (hsize : size ≤ maxMemorySize) : size ≤ roundUp size := by
  rw [roundUp_eq hsize]
  split
  · omega
  split
  · omega
  split
  · omega
  split
  · omega
  · omega

/-! ## The five ranges -/

section Ranges

variable {index size : Nat}

theorem indexToSize_first (h : index ≤ 15) : indexToSize index = (index + 1) * 8 := if_pos h

theorem indexToSize_second (h : 15 < index) (h' : index ≤ 71) :
    indexToSize index = 128 + 16 * (index - 15) := by
  rw [indexToSize, if_neg (by omega), if_pos h']

theorem indexToSize_third (h : 71 < index) (h' : index ≤ 127) :
    indexToSize index = 1024 + 128 * (index - 71) := by
  rw [indexToSize, if_neg (by omega), if_neg (by omega), if_pos h']

theorem indexToSize_fourth (h : 127 < index) (h' : index ≤ 183) :
    indexToSize index = 8192 + 1024 * (index - 127) := by
  rw [indexToSize, if_neg (by omega), if_neg (by omega), if_neg (by omega), if_pos h']

theorem indexToSize_fifth (h : 183 < index) (h' : index ≤ 207) :
    indexToSize index = 65536 + 8192 * (index - 183) := by
  rw [indexToSize, if_neg (by omega), if_neg (by omega), if_neg (by omega), if_neg (by omega),
    if_pos h']

theorem sizeToIndex_first (h : size ≤ 128) : sizeToIndex size = (size + 7) / 8 - 1 := if_pos h

theorem sizeToIndex_second (h : 128 < size) (h' : size ≤ 1024) :
    sizeToIndex size = 16 + (size - 129) / 16 := by
  rw [sizeToIndex, if_neg (by omega), if_pos h']

theorem sizeToIndex_third (h : 1024 < size) (h' : size ≤ 8192) :
    sizeToIndex size = 72 + (size - 1025) / 128 := by
  rw [sizeToIndex, if_neg (by omega), if_neg (by omega), if_pos h']

theorem sizeToIndex_fourth (h : 8192 < size) (h' : size ≤ 65536) :
    sizeToIndex size = 128 + (size - 8193) / 1024 := by
  rw [sizeToIndex, if_neg (by omega), if_neg (by omega), if_neg (by omega), if_pos h']

theorem sizeToIndex_fifth (h : 65536 < size) (h' : size ≤ 262144) :
    sizeToIndex size = 184 + (size - 65537) / 8192 := by
  rw [sizeToIndex, if_neg (by omega), if_neg (by omega), if_neg (by omega), if_neg (by omega),
    if_pos h']

/-- The class of a rounded size has exactly this size. -/
theorem indexToSize_roundUp (hpos : 0 < size) (hsize : size ≤ maxMemorySize) :
    sizeToIndex (roundUp size) < maxArraySize ∧
      indexToSize (sizeToIndex (roundUp size)) = roundUp size := by
  have hmax : size ≤ 262144 := hsize
  rw [roundUp_eq hsize]
  show _ < 208 ∧ _
  -- the rounded size stays in the range of the size
  by_cases h₁ : size ≤ 128
  · rw [if_pos h₁, sizeToIndex_first (by omega), indexToSize_first (by omega)]
    omega
  by_cases h₂ : size ≤ 1024
  · rw [if_neg h₁, if_pos h₂, sizeToIndex_second (by omega) (by omega),
      indexToSize_second (by omega) (by omega)]
    omega
  by_cases h₃ : size ≤ 8192
  · rw [if_neg h₁, if_neg h₂, if_pos h₃, sizeToIndex_third (by omega) (by omega),
      indexToSize_third (by omega) (by omega)]
    omega
  by_cases h₄ : size ≤ 65536
  · rw [if_neg h₁, if_neg h₂, if_neg h₃, if_pos h₄, sizeToIndex_fourth (by omega) (by omega),
      indexToSize_fourth (by omega) (by omega)]
    omega
  · rw [if_neg h₁, if_neg h₂, if_neg h₃, if_neg h₄, sizeToIndex_fifth (by omega) (by omega),
      indexToSize_fifth (by omega) (by omega)]
    omega

theorem sizeToIndex_indexToSize (h : index < maxArraySize) :
    sizeToIndex (indexToSize index) = index := by
  have hmax : index < 208 := h
  by_cases h₁ : index ≤ 15
  · rw [indexToSize_first h₁, sizeToIndex_first (by omega)]
    omega
  by_cases h₂ : index ≤ 71
  · rw [indexToSize_second (by omega) h₂, sizeToIndex_second (by omega) (by omega)]
    omega
  by_cases h₃ : index ≤ 127
  · rw [indexToSize_third (by omega) h₃, sizeToIndex_third (by omega) (by omega)]
    omega
  by_cases h₄ : index ≤ 183
  · rw [indexToSize_fourth (by omega) h₄, sizeToIndex_fourth (by omega) (by omega)]
    omega
  · rw [indexToSize_fifth (by omega) (by omega), sizeToIndex_fifth (by omega) (by omega)]
    omega

/-- A block is large enough for the link of a free list. -/
theorem indexToSize_bounds (h : index < maxArraySize) :
    8 ≤ indexToSize index ∧ indexToSize index ≤ maxMemorySize := by
  have hmax : index < 208 := h
  show 8 ≤ indexToSize index ∧ indexToSize index ≤ 262144
  by_cases h₁ : index ≤ 15
  · rw [indexToSize_first h₁]
    omega
  by_cases h₂ : index ≤ 71
  · rw [indexToSize_second (by omega) h₂]
    omega
  by_cases h₃ : index ≤ 127
  · rw [indexToSize_third (by omega) h₃]
    omega
  by_cases h₄ : index ≤ 183
  · rw [indexToSize_fourth (by omega) h₄]
    omega
  · rw [indexToSize_fifth (by omega) (by omega)]
    omega

end Ranges

end Size

end Pool

end WWRaftKV
