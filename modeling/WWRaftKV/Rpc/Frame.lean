/-
Frames on the wire: the fixed header and the receive loop.

The message callbacks of the channel and of the two dispatchers run the same loop over the
receive buffer and differ in what they do with a packet.  The loop is written once, over
that difference.
-/
import Mathlib.Data.BitVec
import WWRaftKV.General.Framing

namespace WWRaftKV

namespace Rpc

abbrev Byte := BitVec 8

abbrev Bytes := List Byte

/-! ## CRC32 -/

/-- One round of the inner loop of `RaftRpcCRC32::_Init`. -/
def crcShift (c : BitVec 32) : BitVec 32 :=
  if c &&& 1 = 0 then c >>> 1 else 0xEDB88320 ^^^ (c >>> 1)

/-- `_Table[i]`. -/
def crcEntry (i : Nat) : BitVec 32 := Nat.iterate crcShift 8 (BitVec.ofNat 32 i)

/-- `_Table`. -/
def crcTable : List (BitVec 32) := (List.range 256).map crcEntry

/-- One byte of the loop of `crc32`.  The index is a byte, so it lies in the table. -/
def crcByte (crc : BitVec 32) (byte : Byte) : BitVec 32 :=
  (crc >>> 8) ^^^ crcTable.getD ((crc &&& 0xFF) ^^^ byte.zeroExtend 32).toNat 0

def crc32 (data : Bytes) : BitVec 32 := data.foldl crcByte 0xFFFFFFFF ^^^ 0xFFFFFFFF

/-! ## Integers in memory -/

/-- The `width` bytes of a number in network order. -/
def netBytes : Nat → Nat → Bytes
  | 0, _ => []
  | width + 1, n => netBytes width (n / 256) ++ [BitVec.ofNat 8 n]

/-- The number with these bytes in network order. -/
def netValue (bs : Bytes) : Nat := bs.foldl (fun n b => 256 * n + b.toNat) 0

@[simp] theorem netBytes_length (width n : Nat) : (netBytes width n).length = width := by
  induction width generalizing n with
  | zero => rfl
  | succ width ih => simp [netBytes, ih]

theorem netValue_netBytes (width n : Nat) : netValue (netBytes width n) = n % 256 ^ width := by
  induction width generalizing n with
  | zero => simp [netBytes, netValue, Nat.mod_one]
  | succ width ih =>
    have hfold : netValue (netBytes (width + 1) n) =
        256 * netValue (netBytes width (n / 256)) + (BitVec.ofNat 8 n).toNat := by
      simp [netBytes, netValue, List.foldl_append]
    have hpow : 256 ^ (width + 1) = 256 * 256 ^ width := Nat.pow_succ'
    have hbyte : (BitVec.ofNat 8 n).toNat = n % 256 := BitVec.toNat_ofNat n 8
    rw [hfold, ih, hbyte, hpow, Nat.mod_mul]
    omega

/-- The byte order of the two hosts. -/
inductive ByteOrder
  | little
  | big
deriving DecidableEq, Repr

/-- The bytes of a number as `memcpy` reads them. -/
def hostBytes : ByteOrder → Nat → Nat → Bytes
  | .big, width, n => netBytes width n
  | .little, width, n => (netBytes width n).reverse

/-! ## The fixed header -/

def kMagicNumber : Nat := 0x0A1B2C3D4E5F6A7B

structure RaftRpcFixedHeader where
  magicNumber : Nat
  totalLength : Nat
  headerChecksum : Nat
deriving DecidableEq, Repr

/-- `sizeof(RaftRpcFixedHeader)`. -/
def headerSize : Nat := 16

namespace RaftRpcFixedHeader

/-- The header at the front of a buffer, in the byte order of the host. -/
def read (buffer : Bytes) : RaftRpcFixedHeader where
  magicNumber := netValue (buffer.take 8)
  totalLength := netValue ((buffer.drop 8).take 4)
  headerChecksum := netValue ((buffer.drop 12).take 4)

/-- The checksum is that of the fields in host order. -/
def calculateHeaderChecksum (order : ByteOrder) (h : RaftRpcFixedHeader) : Nat :=
  (crc32 (hostBytes order 8 h.magicNumber ++ hostBytes order 4 h.totalLength)).toNat

/-- The header in network order. -/
def bytes (h : RaftRpcFixedHeader) : Bytes :=
  netBytes 8 h.magicNumber ++ netBytes 4 h.totalLength ++ netBytes 4 h.headerChecksum

@[simp] theorem bytes_length (h : RaftRpcFixedHeader) : h.bytes.length = headerSize := by
  simp [bytes, headerSize]

theorem read_bytes {h : RaftRpcFixedHeader} (hm : h.magicNumber < 2 ^ 64)
    (ht : h.totalLength < 2 ^ 32) (hc : h.headerChecksum < 2 ^ 32) (rest : Bytes) :
    read (h.bytes ++ rest) = h := by
  have hmagic : (h.bytes ++ rest).take 8 = netBytes 8 h.magicNumber := by
    simp [bytes, List.append_assoc]
  have htotal : ((h.bytes ++ rest).drop 8).take 4 = netBytes 4 h.totalLength := by
    simp [bytes, List.append_assoc]
  have hcheck : ((h.bytes ++ rest).drop 12).take 4 = netBytes 4 h.headerChecksum := by
    have hfront : (netBytes 8 h.magicNumber ++ netBytes 4 h.totalLength).length = 12 := by simp
    rw [bytes, List.append_assoc, ← hfront, List.drop_left]
    simp
  unfold read
  rw [hmagic, htotal, hcheck, netValue_netBytes, netValue_netBytes, netValue_netBytes,
    Nat.mod_eq_of_lt (by omega), Nat.mod_eq_of_lt (by omega), Nat.mod_eq_of_lt (by omega)]

/-- The header is in the first bytes. -/
theorem read_append {buffer : Bytes} (h : headerSize ≤ buffer.length) (rest : Bytes) :
    read (buffer ++ rest) = read buffer := by
  have hlen : 16 ≤ buffer.length := h
  have htake : (buffer ++ rest).take 8 = buffer.take 8 := List.take_append_of_le_length (by omega)
  have hmid : ((buffer ++ rest).drop 8).take 4 = (buffer.drop 8).take 4 := by
    rw [List.drop_append_of_le_length (by omega), List.take_append_of_le_length]
    rw [List.length_drop]
    omega
  have hlast : ((buffer ++ rest).drop 12).take 4 = (buffer.drop 12).take 4 := by
    rw [List.drop_append_of_le_length (by omega), List.take_append_of_le_length]
    rw [List.length_drop]
    omega
  unfold read
  rw [htake, hmid, hlast]

end RaftRpcFixedHeader

/-- The frame around a packet, as `CallMethod` and `_SendResponse` build it. -/
def packFrame (order : ByteOrder) (packet : Bytes) : Bytes :=
  let header : RaftRpcFixedHeader :=
    { magicNumber := kMagicNumber
      totalLength := (headerSize + packet.length) % 2 ^ 32
      headerChecksum := 0 }
  { header with headerChecksum := header.calculateHeaderChecksum order }.bytes ++ packet

/-! ## The receive loop -/

/-- The loop of `_OnMessage`.  `handle` is what follows the packet, and whether it goes on
with the loop.  `none` is the failed assertion of `retrieveAsString`, for a length that is
below the size of the header and wraps around. -/
def frameLoop {σ : Type} (order : ByteOrder) (handle : σ → Bytes → σ × Bool) :
    Nat → σ → Bytes → Option (σ × Bytes)
  | 0, s, buffer => some (s, buffer)
  | rounds + 1, s, buffer =>
    if buffer.length < headerSize then some (s, buffer)
    else
      let header := RaftRpcFixedHeader.read buffer
      if header.magicNumber ≠ kMagicNumber then some (s, [])
      else if header.calculateHeaderChecksum order ≠ header.headerChecksum then
        some (s, buffer.drop headerSize)
      else if buffer.length < header.totalLength then some (s, buffer)
      else if header.totalLength < headerSize then none
      else
        let packet := (buffer.drop headerSize).take (header.totalLength - headerSize)
        let (s, goesOn) := handle s packet
        if goesOn then frameLoop order handle rounds s (buffer.drop header.totalLength)
        else some (s, buffer.drop header.totalLength)

/-- `_OnMessage` on a buffer.  Every round takes a header's length or more. -/
def onMessage {σ : Type} (order : ByteOrder) (handle : σ → Bytes → σ × Bool) (s : σ)
    (buffer : Bytes) : Option (σ × Bytes) :=
  frameLoop order handle buffer.length s buffer

/-- A complete frame with a valid header. -/
structure IsFrame (order : ByteOrder) (f : Bytes) : Prop where
  size : headerSize ≤ f.length
  magic : (RaftRpcFixedHeader.read f).magicNumber = kMagicNumber
  total : (RaftRpcFixedHeader.read f).totalLength = f.length
  checksum : (RaftRpcFixedHeader.read f).calculateHeaderChecksum order =
    (RaftRpcFixedHeader.read f).headerChecksum

instance (order : ByteOrder) (f : Bytes) : Decidable (IsFrame order f) :=
  decidable_of_iff (headerSize ≤ f.length ∧
    (RaftRpcFixedHeader.read f).magicNumber = kMagicNumber ∧
    (RaftRpcFixedHeader.read f).totalLength = f.length ∧
    (RaftRpcFixedHeader.read f).calculateHeaderChecksum order =
      (RaftRpcFixedHeader.read f).headerChecksum)
    ⟨fun h => ⟨h.1, h.2.1, h.2.2.1, h.2.2.2⟩, fun h => ⟨h.size, h.magic, h.total, h.checksum⟩⟩

/-- What a frame carries behind its header. -/
def packetOf (f : Bytes) : Bytes := f.drop headerSize

theorem packFrame_length (order : ByteOrder) (packet : Bytes) :
    (packFrame order packet).length = headerSize + packet.length := by
  simp [packFrame]

theorem packetOf_packFrame (order : ByteOrder) (packet : Bytes) :
    packetOf (packFrame order packet) = packet := by
  unfold packetOf packFrame
  apply List.drop_left'
  apply RaftRpcFixedHeader.bytes_length

/-- A packet that is short enough for the length field makes a complete frame. -/
theorem packFrame_isFrame (order : ByteOrder) {packet : Bytes}
    (h : headerSize + packet.length < 2 ^ 32) : IsFrame order (packFrame order packet) := by
  have hread : RaftRpcFixedHeader.read (packFrame order packet) =
      { magicNumber := kMagicNumber
        totalLength := headerSize + packet.length
        headerChecksum := RaftRpcFixedHeader.calculateHeaderChecksum order
          { magicNumber := kMagicNumber
            totalLength := headerSize + packet.length
            headerChecksum := 0 } } := by
    unfold packFrame
    rw [Nat.mod_eq_of_lt h]
    apply RaftRpcFixedHeader.read_bytes
    · show kMagicNumber < 2 ^ 64
      decide
    · exact h
    · exact BitVec.isLt _
  constructor
  · rw [packFrame_length]
    omega
  · rw [hread]
  · rw [hread, packFrame_length]
  · rw [hread]
    rfl

section Loop

variable {σ : Type} {order : ByteOrder} {handle : σ → Bytes → σ × Bool} {s : σ} {f : Bytes}

/-- More rounds than the buffer can give make no difference. -/
theorem frameLoop_rounds {n m : Nat} {buffer : Bytes} (hn : buffer.length ≤ n)
    (hm : buffer.length ≤ m) :
    frameLoop order handle n s buffer = frameLoop order handle m s buffer := by
  induction n generalizing m s buffer with
  | zero =>
    have hnil : buffer.length < headerSize := by
      unfold headerSize
      omega
    cases m with
    | zero => rfl
    | succ m =>
      rw [frameLoop, frameLoop, if_pos hnil]
  | succ n ih =>
    cases m with
    | zero =>
      have hnil : buffer.length < headerSize := by
        unfold headerSize
        omega
      rw [frameLoop, frameLoop, if_pos hnil]
    | succ m =>
      rw [frameLoop, frameLoop]
      split
      · rfl
      next hsize =>
      dsimp only
      split
      · rfl
      split
      · rfl
      split
      · rfl
      next hlen =>
      split
      · rfl
      next htotal =>
      split
      · unfold headerSize at htotal hsize
        apply ih <;>
        · rw [List.length_drop]
          omega
      · rfl

theorem onMessage_short {buffer : Bytes} (h : buffer.length < headerSize) :
    onMessage order handle s buffer = some (s, buffer) := by
  unfold onMessage
  cases buffer.length with
  | zero => rfl
  | succ n => rw [frameLoop, if_pos h]

/-- One round over a buffer that starts with a complete frame. -/
theorem onMessage_frame (hf : IsFrame order f) (rest : Bytes) :
    onMessage order handle s (f ++ rest) =
      if (handle s (packetOf f)).2 then onMessage order handle (handle s (packetOf f)).1 rest
      else some ((handle s (packetOf f)).1, rest) := by
  have hsize : headerSize ≤ f.length := hf.size
  have hread := RaftRpcFixedHeader.read_append hsize rest
  have hlen : (f ++ rest).length = f.length + rest.length := List.length_append
  obtain ⟨n, hn⟩ : ∃ n, (f ++ rest).length = n + 1 := by
    apply Nat.exists_eq_succ_of_ne_zero
    unfold headerSize at hsize
    omega
  have hpacket : ((f ++ rest).drop headerSize).take (f.length - headerSize) = packetOf f := by
    rw [List.drop_append_of_le_length hsize, List.take_append_of_le_length]
    · rw [List.take_of_length_le]
      · rfl
      · rw [List.length_drop]
    · rw [List.length_drop]
  unfold onMessage
  rw [hn, frameLoop, if_neg (by omega)]
  dsimp only
  rw [hread, hf.total, hpacket, List.drop_left, if_neg (not_not.mpr hf.magic),
    if_neg (not_not.mpr hf.checksum), if_neg (by omega), if_neg (by omega)]
  split
  · apply frameLoop_rounds
    · unfold headerSize at hsize
      omega
    · exact Nat.le_refl _
  · rfl

/-- The receive loop reads complete frames. -/
theorem onMessage_reads (order : ByteOrder) (handle : σ → Bytes → σ × Bool) :
    Framing.Reads (IsFrame order) (fun s f => handle s (packetOf f))
      (onMessage order handle) where
  nonempty := by
    rintro f hf rfl
    exact absurd hf.size (by decide)
  empty := fun s => rfl
  wait := by
    intro s f p hf hp hlt
    by_cases hshort : p.length < headerSize
    · exact onMessage_short hshort
    · obtain ⟨rest, rfl⟩ := hp
      have hread := RaftRpcFixedHeader.read_append (Nat.le_of_not_lt hshort) rest
      obtain ⟨n, hn⟩ : ∃ n, p.length = n + 1 := by
        apply Nat.exists_eq_succ_of_ne_zero
        unfold headerSize at hshort
        omega
      have hmagic := hf.magic
      have hcheck := hf.checksum
      have htotal := hf.total
      rw [hread] at hmagic hcheck htotal
      unfold onMessage
      rw [hn, frameLoop, if_neg hshort]
      dsimp only
      rw [htotal, if_neg (not_not.mpr hmagic), if_neg (not_not.mpr hcheck), if_pos hlt]
  next := by
    intro s f rest hf hgo
    rw [onMessage_frame hf, if_pos hgo]
  stop := by
    intro s f rest hf hgo
    rw [onMessage_frame hf, hgo]
    rfl

end Loop

end Rpc

end WWRaftKV
