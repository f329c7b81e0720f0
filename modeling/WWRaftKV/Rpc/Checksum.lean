/-
The checksum of the header.

`crc32` takes a byte with one lookup in the table.  The division it stands for takes it bit
by bit.  The two agree because the shift is linear: eight shifts of the register are eight
shifts of its low byte, which the table holds, and the rest of it moved down.
-/
import WWRaftKV.General.Crc
import WWRaftKV.Rpc.Frame

namespace WWRaftKV

namespace Rpc

open Crc

/-! ## The table -/

/-- The generator, low bit first. -/
def kPolynomial : BitVec 32 := 0xEDB88320

theorem kPolynomial_msb : kPolynomial.msb = true := by decide

theorem crcShift_eq (c : BitVec 32) : crcShift c = shift kPolynomial c := by
  have hlow : c &&& 1 = (BitVec.ofBool (c.getLsbD 0)).setWidth 32 :=
    BitVec.and_one_eq_setWidth_ofBool_getLsbD
  unfold crcShift shift
  rw [hlow]
  cases c.getLsbD 0 <;> rfl

theorem crcEntry_eq (c : BitVec 32) : crcEntry c.toNat = shifts kPolynomial 8 c := by
  rw [crcEntry, BitVec.ofNat_toNat, BitVec.setWidth_eq, shifts, funext crcShift_eq]

theorem crcTable_getD {c : BitVec 32} (h : c.toNat < 256) :
    crcTable.getD c.toNat 0 = shifts kPolynomial 8 c := by
  rw [crcTable, List.getD_eq_getElem?_getD, List.getElem?_map, List.getElem?_range h,
    Option.map_some, Option.getD_some, crcEntry_eq]

/-- The mask that `crc32` takes the index with. -/
theorem low_byte (c : BitVec 32) : c &&& (0xFF : BitVec 32) = c ^^^ c >>> 8 <<< 8 := by
  refine BitVec.eq_of_getLsbD_eq fun i hi => ?_
  have hmask : (0xFF : BitVec 32).getLsbD i = decide (i < 8) := by
    show (BitVec.ofNat 32 (2 ^ 8 - 1)).getLsbD i = decide (i < 8)
    rw [BitVec.getLsbD_ofNat, Nat.testBit_two_pow_sub_one, decide_eq_true hi, Bool.true_and]
  rw [BitVec.getLsbD_and, BitVec.getLsbD_xor, BitVec.getLsbD_shiftLeft, BitVec.getLsbD_ushiftRight,
    hmask, decide_eq_true hi]
  by_cases hlow : i < 8
  · rw [decide_eq_true hlow]
    simp
  · have hback : 8 + (i - 8) = i := by omega
    rw [decide_eq_false hlow, hback]
    simp

theorem low_byte_lt (c : BitVec 32) (byte : Byte) :
    ((c &&& (0xFF : BitVec 32)) ^^^ byte.zeroExtend 32).toNat < 256 := by
  have hc : (c &&& (0xFF : BitVec 32)).toNat < 2 ^ 8 := by
    rw [BitVec.toNat_and]
    exact Nat.and_lt_two_pow _ (by decide)
  have hb : (byte.zeroExtend 32).toNat < 2 ^ 8 := by
    rw [BitVec.toNat_setWidth]
    exact Nat.lt_of_le_of_lt (Nat.mod_le _ _) byte.isLt
  rw [BitVec.toNat_xor]
  exact Nat.xor_lt_two_pow hc hb

/-- One lookup absorbs a byte. -/
theorem crcByte_eq (crc : BitVec 32) (byte : Byte) :
    crcByte crc byte = absorb kPolynomial crc byte := by
  have hbyte : byte.zeroExtend 32 >>> 8 = 0#32 := by
    refine BitVec.eq_of_getLsbD_eq fun i _ => ?_
    rw [BitVec.getLsbD_ushiftRight, BitVec.getLsbD_setWidth,
      BitVec.getLsbD_of_ge byte _ (Nat.le_add_right 8 i), Bool.and_false, BitVec.getLsbD_zero]
  have hup : (crc ^^^ byte.zeroExtend 32) >>> 8 = crc >>> 8 := by
    rw [BitVec.ushiftRight_xor_distrib, hbyte, BitVec.xor_zero]
  have hlow : crc ^^^ byte.zeroExtend 32 ^^^ crc >>> 8 <<< 8 =
      (crc &&& (0xFF : BitVec 32)) ^^^ byte.zeroExtend 32 := by
    rw [low_byte, BitVec.xor_assoc, BitVec.xor_comm (byte.zeroExtend 32), ← BitVec.xor_assoc]
  rw [crcByte, crcTable_getD (low_byte_lt crc byte), absorb]
  show _ = shifts kPolynomial 8 (crc ^^^ byte.zeroExtend 32)
  rw [shifts_split kPolynomial (crc ^^^ byte.zeroExtend 32), hup, hlow]

theorem crc32_eq_absorb (data : Bytes) :
    crc32 data = data.foldl (absorb kPolynomial) 0xFFFFFFFF ^^^ 0xFFFFFFFF := by
  rw [crc32, funext₂ crcByte_eq]

/-! ## The division bit by bit -/

/-- One bit of the division. -/
def divideBit (crc : BitVec 32) : BitVec 32 :=
  if crc &&& 1 = 1 then (crc >>> 1) ^^^ 0xEDB88320 else crc >>> 1

/-- The byte is added into the low byte, and shifted out bit by bit. -/
def divideByte (crc : BitVec 32) (byte : Byte) : BitVec 32 :=
  Nat.iterate divideBit 8 (crc ^^^ byte.zeroExtend 32)

/-- CRC-32 by its definition. -/
def referenceCrc32 (data : Bytes) : BitVec 32 := ~~~ data.foldl divideByte 0xFFFFFFFF

theorem divideBit_eq (crc : BitVec 32) : divideBit crc = shift kPolynomial crc := by
  have hlow : crc &&& 1 = (BitVec.ofBool (crc.getLsbD 0)).setWidth 32 :=
    BitVec.and_one_eq_setWidth_ofBool_getLsbD
  unfold divideBit shift
  rw [hlow, BitVec.xor_comm]
  cases crc.getLsbD 0 <;> rfl

theorem divideByte_eq (crc : BitVec 32) (byte : Byte) :
    divideByte crc byte = absorb kPolynomial crc byte := by
  rw [divideByte, absorb, shifts, funext divideBit_eq]

/-- `crc32` is the division bit by bit. -/
theorem crc32_eq_reference (data : Bytes) : crc32 data = referenceCrc32 data := by
  have hones : (0xFFFFFFFF : BitVec 32) = BitVec.allOnes 32 := by decide
  rw [crc32_eq_absorb, referenceCrc32, funext₂ divideByte_eq, hones, BitVec.xor_allOnes]

/-! ## Fields as bytes -/

theorem netBytes_netValue (bs : Bytes) : netBytes bs.length (netValue bs) = bs := by
  induction bs using List.reverseRecOn with
  | nil => rfl
  | append_singleton bs b ih =>
    have hvalue : netValue (bs ++ [b]) = 256 * netValue bs + b.toNat := by
      rw [netValue, List.foldl_append]
      rfl
    have hb : b.toNat < 256 := b.isLt
    have hdiv : (256 * netValue bs + b.toNat) / 256 = netValue bs := by omega
    have hlow : BitVec.ofNat 8 (256 * netValue bs + b.toNat) = b := by
      refine BitVec.eq_of_toNat_eq ?_
      rw [BitVec.toNat_ofNat]
      omega
    rw [List.length_append, List.length_singleton, netBytes, hvalue, hdiv, ih, hlow]

theorem netValue_injective {as bs : Bytes} (hlen : as.length = bs.length)
    (h : netValue as = netValue bs) : as = bs := by
  rw [← netBytes_netValue as, ← netBytes_netValue bs, hlen, h]

theorem netValue_lt (bs : Bytes) : netValue bs < 256 ^ bs.length := by
  have h := netValue_netBytes bs.length (netValue bs)
  rw [netBytes_netValue] at h
  rw [h]
  exact Nat.mod_lt _ (Nat.pow_pos (by decide))

@[simp] theorem hostBytes_length (order : ByteOrder) (width n : Nat) :
    (hostBytes order width n).length = width := by
  cases order <;> simp [hostBytes]

theorem hostBytes_injective (order : ByteOrder) {width m n : Nat} (hm : m < 256 ^ width)
    (hn : n < 256 ^ width) (h : hostBytes order width m = hostBytes order width n) : m = n := by
  have hnet : netBytes width m = netBytes width n := by
    cases order with
    | big => exact h
    | little => exact List.reverse_injective h
  rw [← Nat.mod_eq_of_lt hm, ← Nat.mod_eq_of_lt hn, ← netValue_netBytes, ← netValue_netBytes, hnet]

/-! ## Corruption -/

/-- A burst of four bytes is as long as the register. -/
theorem crc32_burst {lo : Nat} {a b : Bytes} (h : Burst lo 4 a b) : crc32 a ≠ crc32 b := by
  rw [crc32_eq_absorb, crc32_eq_absorb]
  intro heq
  exact foldl_absorb_burst kPolynomial_msb _ h (by decide) ((BitVec.xor_left_inj _).mp heq)

/-- The receive loop takes the checksum for right. -/
def HeaderChecks (order : ByteOrder) (f : Bytes) : Prop :=
  (RaftRpcFixedHeader.read f).calculateHeaderChecksum order =
    (RaftRpcFixedHeader.read f).headerChecksum

/-- Two lengths with one magic number have two checksums. -/
theorem calculateHeaderChecksum_ne (order : ByteOrder) {h h' : RaftRpcFixedHeader}
    (hmagic : h.magicNumber = h'.magicNumber) (hl : h.totalLength < 256 ^ 4)
    (hl' : h'.totalLength < 256 ^ 4) (hne : h.totalLength ≠ h'.totalLength) :
    h.calculateHeaderChecksum order ≠ h'.calculateHeaderChecksum order := by
  have hbytes : hostBytes order 4 h.totalLength ≠ hostBytes order 4 h'.totalLength :=
    fun heq => hne (hostBytes_injective order hl hl' heq)
  have hburst : Burst 8 4 (hostBytes order 8 h.magicNumber ++ hostBytes order 4 h.totalLength)
      (hostBytes order 8 h.magicNumber ++ hostBytes order 4 h'.totalLength) :=
    Burst.of_take_drop (by simp) (fun heq => hbytes (List.append_cancel_left heq)) (by simp)
      (by rw [List.drop_of_length_le (by simp), List.drop_of_length_le (by simp)])
  rw [RaftRpcFixedHeader.calculateHeaderChecksum, RaftRpcFixedHeader.calculateHeaderChecksum,
    ← hmagic]
  exact fun heq => crc32_burst hburst (BitVec.eq_of_toNat_eq heq)

/-- A corrupted length field changes the length that is read, and nothing else. -/
theorem read_burst {f f' : Bytes} (hsize : headerSize ≤ f.length) (h : Burst 8 4 f f') :
    (RaftRpcFixedHeader.read f).magicNumber = (RaftRpcFixedHeader.read f').magicNumber ∧
      (RaftRpcFixedHeader.read f).headerChecksum = (RaftRpcFixedHeader.read f').headerChecksum ∧
      (RaftRpcFixedHeader.read f).totalLength ≠ (RaftRpcFixedHeader.read f').totalLength := by
  have hlen : 16 ≤ f.length := hsize
  refine ⟨?_, ?_, ?_⟩
  · rw [RaftRpcFixedHeader.read, RaftRpcFixedHeader.read, h.take_eq]
  · rw [RaftRpcFixedHeader.read, RaftRpcFixedHeader.read, h.drop_eq]
  · intro htotal
    have hfield : (f.drop 8).take 4 = (f'.drop 8).take 4 := by
      refine netValue_injective ?_ htotal
      rw [List.length_take, List.length_take, List.length_drop, List.length_drop, h.length]
    apply h.ne
    rw [← List.take_append_drop 8 f, ← List.take_append_drop 8 f', h.take_eq,
      ← List.take_append_drop 4 (f.drop 8), ← List.take_append_drop 4 (f'.drop 8), hfield,
      List.drop_drop, List.drop_drop, h.drop_eq]

theorem read_totalLength_lt (f : Bytes) : (RaftRpcFixedHeader.read f).totalLength < 256 ^ 4 := by
  refine (netValue_lt _).trans_le (Nat.pow_le_pow_right (by decide) ?_)
  exact List.length_take_le _ _

/-- A burst of at most four bytes changes the checksum of any data.  In a header with the
right checksum, corruption of the length field is always noticed. -/
theorem checksum_detects_burst :
    (∀ (lo : Nat) (a b : Bytes), Burst lo 4 a b → crc32 a ≠ crc32 b) ∧
      ∀ (order : ByteOrder) (f f' : Bytes), headerSize ≤ f.length → Burst 8 4 f f' →
        HeaderChecks order f → ¬ HeaderChecks order f' := by
  refine ⟨fun lo a b => crc32_burst, fun order f f' hsize h hf hf' => ?_⟩
  obtain ⟨hmagic, hchecksum, htotal⟩ := read_burst hsize h
  have hne := calculateHeaderChecksum_ne order hmagic (read_totalLength_lt f)
    (read_totalLength_lt f') htotal
  exact hne (hf.trans (hchecksum.trans hf'.symm))

/-- The empty frame with two other lengths in its header. -/
theorem checksum_detects_burst_packFrame :
    crc32 [1, 2, 3, 4, 5] ≠ crc32 [1, 9, 3, 8, 5] ∧
      ¬ HeaderChecks .little
        ((packFrame .little []).take 8 ++ [1, 2, 3, 4] ++ (packFrame .little []).drop 12) :=
  ⟨checksum_detects_burst.1 1 _ _ (Burst.of_take_drop rfl (by decide) rfl rfl),
    checksum_detects_burst.2 .little (packFrame .little []) _ (by decide +kernel)
      (Burst.of_take_drop (by decide +kernel) (by decide +kernel) (by decide +kernel)
        (by decide +kernel))
      (by unfold HeaderChecks; decide +kernel)⟩

end Rpc

end WWRaftKV
