/-
The lengths in the receive loop.

One iteration of the loop, with the length that it passes to `retrieveAsString` as the
unsigned difference it is.  A connection receives chunks, and runs the loop to its end
after each of them.  `onMessage` is such a sequence of iterations.
-/
import WWRaftKV.General.Run
import WWRaftKV.Rpc.Checksum
import WWRaftKV.Rpc.Dispatcher

namespace WWRaftKV

namespace Rpc

variable {σ : Type}

/-! ## One iteration -/

/-- `header._Total_length - sizeof(RaftRpcFixedHeader)`, which is a `std::size_t`. -/
def packetLength (total : Nat) : Nat := (total + 2 ^ 64 - headerSize) % 2 ^ 64

/-- The test of the loop and its body: the state, the buffer, and whether the loop goes on.
`none` is the failed assertion of `retrieveAsString`. -/
def loopRound (order : ByteOrder) (handle : σ → Bytes → σ × Bool) (s : σ) (buffer : Bytes) :
    Option (σ × Bytes × Bool) :=
  if buffer.length < headerSize then some (s, buffer, false)
  else
    let header := RaftRpcFixedHeader.read buffer
    if header.magicNumber ≠ kMagicNumber then some (s, [], false)
    else if header.calculateHeaderChecksum order ≠ header.headerChecksum then
      some (s, buffer.drop headerSize, false)
    else if buffer.length < header.totalLength then some (s, buffer, false)
    else
      let readable := buffer.drop headerSize
      let length := packetLength header.totalLength
      if readable.length < length then none
      else
        let (s, goesOn) := handle s (readable.take length)
        some (s, readable.drop length, goesOn)

/-- The iteration gets as far as `retrieveAsString`. -/
structure Retrieves (order : ByteOrder) (buffer : Bytes) : Prop where
  size : headerSize ≤ buffer.length
  magic : (RaftRpcFixedHeader.read buffer).magicNumber = kMagicNumber
  checksum : (RaftRpcFixedHeader.read buffer).calculateHeaderChecksum order =
    (RaftRpcFixedHeader.read buffer).headerChecksum
  complete : (RaftRpcFixedHeader.read buffer).totalLength ≤ buffer.length

instance (order : ByteOrder) (buffer : Bytes) : Decidable (Retrieves order buffer) :=
  decidable_of_iff (headerSize ≤ buffer.length ∧
    (RaftRpcFixedHeader.read buffer).magicNumber = kMagicNumber ∧
    (RaftRpcFixedHeader.read buffer).calculateHeaderChecksum order =
      (RaftRpcFixedHeader.read buffer).headerChecksum ∧
    (RaftRpcFixedHeader.read buffer).totalLength ≤ buffer.length)
    ⟨fun h => ⟨h.1, h.2.1, h.2.2.1, h.2.2.2⟩,
      fun h => ⟨h.size, h.magic, h.checksum, h.complete⟩⟩

theorem packetLength_of_le {total : Nat} (hle : headerSize ≤ total) (hlt : total < 2 ^ 64) :
    packetLength total = total - headerSize := by
  unfold packetLength
  rw [Nat.sub_add_comm hle, Nat.add_mod_right, Nat.mod_eq_of_lt]
  omega

/-- Below the header's size the difference wraps around. -/
theorem packetLength_of_lt {total : Nat} (h : total < headerSize) :
    packetLength total = total + 2 ^ 64 - headerSize := by
  unfold packetLength
  rw [Nat.mod_eq_of_lt]
  omega

section Round

variable {order : ByteOrder} {handle : σ → Bytes → σ × Bool} {s : σ} {buffer : Bytes}

variable (handle s) in
/-- An iteration that does not get to `retrieveAsString` ends the loop. -/
theorem loopRound_of_not_retrieves (h : ¬ Retrieves order buffer) :
    ∃ rest, loopRound order handle s buffer = some (s, rest, false) ∧
      ∀ n, frameLoop order handle (n + 1) s buffer = some (s, rest) := by
  unfold loopRound frameLoop
  by_cases hsize : buffer.length < headerSize
  · exact ⟨buffer, if_pos hsize, fun _ => if_pos hsize⟩
  rw [if_neg hsize]
  dsimp only
  by_cases hmagic : (RaftRpcFixedHeader.read buffer).magicNumber = kMagicNumber
  · rw [if_neg (not_not.mpr hmagic)]
    by_cases hcheck : (RaftRpcFixedHeader.read buffer).calculateHeaderChecksum order =
        (RaftRpcFixedHeader.read buffer).headerChecksum
    · rw [if_neg (not_not.mpr hcheck)]
      by_cases hlen : buffer.length < (RaftRpcFixedHeader.read buffer).totalLength
      · refine ⟨buffer, if_pos hlen, fun n => ?_⟩
        rw [if_neg hsize, if_neg (not_not.mpr hmagic), if_neg (not_not.mpr hcheck), if_pos hlen]
      · exact absurd ⟨by omega, hmagic, hcheck, by omega⟩ h
    · refine ⟨_, if_pos hcheck, fun n => ?_⟩
      rw [if_neg hsize, if_neg (not_not.mpr hmagic), if_pos hcheck]
  · refine ⟨_, if_pos hmagic, fun n => ?_⟩
    rw [if_neg hsize, if_pos hmagic]

theorem loopRound_of_retrieves (h : Retrieves order buffer) :
    loopRound order handle s buffer =
      let readable := buffer.drop headerSize
      let length := packetLength (RaftRpcFixedHeader.read buffer).totalLength
      if readable.length < length then none
      else
        let (s, goesOn) := handle s (readable.take length)
        some (s, readable.drop length, goesOn) := by
  have hsize := h.size
  have hcomplete := h.complete
  unfold loopRound
  rw [if_neg (by omega)]
  dsimp only
  rw [if_neg (not_not.mpr h.magic), if_neg (not_not.mpr h.checksum), if_neg (by omega)]

/-- A header of the full size is followed by the packet it announces. -/
theorem loopRound_of_headerSize_le (h : Retrieves order buffer)
    (hle : headerSize ≤ (RaftRpcFixedHeader.read buffer).totalLength) :
    loopRound order handle s buffer =
      let total := (RaftRpcFixedHeader.read buffer).totalLength
      let (s, goesOn) := handle s ((buffer.drop headerSize).take (total - headerSize))
      some (s, buffer.drop total, goesOn) := by
  have hlt := read_totalLength_lt buffer
  have hcomplete := h.complete
  have hback : headerSize + ((RaftRpcFixedHeader.read buffer).totalLength - headerSize) =
      (RaftRpcFixedHeader.read buffer).totalLength := by omega
  rw [loopRound_of_retrieves h]
  dsimp only
  rw [packetLength_of_le hle (by omega), if_neg (by rw [List.length_drop]; omega),
    List.drop_drop, hback]

/-- A header below its own size lets the assertion fail. -/
theorem loopRound_of_lt_headerSize (h : Retrieves order buffer)
    (hlt : (RaftRpcFixedHeader.read buffer).totalLength < headerSize)
    (hbuffer : buffer.length < 2 ^ 64) : loopRound order handle s buffer = none := by
  rw [loopRound_of_retrieves h]
  dsimp only
  rw [packetLength_of_lt hlt, if_pos]
  rw [List.length_drop]
  unfold headerSize at hlt ⊢
  omega

/-! ## The bounds of an iteration -/

/-- The length does not underflow and lies within the readable bytes, and an iteration that
goes on has consumed exactly the bytes that the header announces. -/
def RoundInBounds (order : ByteOrder) (handle : σ → Bytes → σ × Bool) (s : σ)
    (buffer : Bytes) : Prop :=
  let total := (RaftRpcFixedHeader.read buffer).totalLength
  (Retrieves order buffer →
    headerSize ≤ total ∧ packetLength total ≤ (buffer.drop headerSize).length) ∧
  ∀ s' rest, loopRound order handle s buffer = some (s', rest, true) →
    ∃ used, used.length = total ∧ buffer = used ++ rest

/-- A header that passes the checks announces at least itself. -/
def AnnouncesHeader (order : ByteOrder) (buffer : Bytes) : Prop :=
  Retrieves order buffer → headerSize ≤ (RaftRpcFixedHeader.read buffer).totalLength

instance (order : ByteOrder) (buffer : Bytes) : Decidable (AnnouncesHeader order buffer) :=
  inferInstanceAs (Decidable (_ → _))

theorem roundInBounds_iff : RoundInBounds order handle s buffer ↔ AnnouncesHeader order buffer := by
  constructor
  · exact fun h hr => (h.1 hr).1
  intro h
  have hlt := read_totalLength_lt buffer
  refine ⟨fun hr => ⟨h hr, ?_⟩, fun s' rest hgo => ?_⟩
  · have hcomplete := hr.complete
    rw [packetLength_of_le (h hr) (by omega), List.length_drop]
    omega
  · by_cases hr : Retrieves order buffer
    · have hcomplete := hr.complete
      rw [loopRound_of_headerSize_le hr (h hr)] at hgo
      obtain ⟨-, hrest⟩ := Prod.mk.inj (Option.some.inj hgo)
      obtain ⟨rfl, -⟩ := Prod.mk.inj hrest
      refine ⟨buffer.take (RaftRpcFixedHeader.read buffer).totalLength, ?_, ?_⟩
      · rw [List.length_take]
        omega
      · exact (List.take_append_drop _ _).symm
    · obtain ⟨rest', hend, -⟩ := loopRound_of_not_retrieves handle s hr
      rw [hend] at hgo
      cases hgo

end Round

/-! ## A connection -/

/-- What a connection has received and not used.  It is in the loop, or waits for a chunk. -/
structure Receiver (σ : Type) where
  state : σ
  buffer : Bytes
  looping : Bool

inductive ReceiverEvent
  /-- The bytes of one read, behind which the loop is entered. -/
  | chunk (bytes : Bytes)
  /-- One iteration of the loop. -/
  | iteration

/-- `none` for an event that cannot happen, and for the failed assertion. -/
def receive (order : ByteOrder) (handle : σ → Bytes → σ × Bool) (r : Receiver σ) :
    ReceiverEvent → Option (Receiver σ)
  | .chunk bytes =>
    if r.looping then none
    else some { state := r.state, buffer := r.buffer ++ bytes, looping := true }
  | .iteration =>
    if r.looping then
      match loopRound order handle r.state r.buffer with
      | some (s, rest, goesOn) => some { state := s, buffer := rest, looping := goesOn }
      | none => none
    else none

/-- The iteration that starts in this state is within its bounds. -/
def InBounds (order : ByteOrder) (handle : σ → Bytes → σ × Bool) (r : Receiver σ) :
    ReceiverEvent → Prop
  | .chunk _ => True
  | .iteration => r.looping = true → RoundInBounds order handle r.state r.buffer

/-- The iteration that starts in this state accepts no header that announces less than
itself. -/
def Announces (order : ByteOrder) (r : Receiver σ) : ReceiverEvent → Prop
  | .chunk _ => True
  | .iteration => r.looping = true → AnnouncesHeader order r.buffer

/-- All iterations over all chunks are within their bounds exactly when none of them accepts
a header that announces less than itself. -/
theorem receive_inBounds_iff (order : ByteOrder) (handle : σ → Bytes → σ × Bool)
    (r : Receiver σ) (events : List ReceiverEvent) :
    Transition.Along (receive order handle) (InBounds order handle) r events ↔
      Transition.Along (receive order handle) (fun r => Announces order r) r events := by
  refine Transition.Along.congr fun r e => ?_
  cases e with
  | chunk bytes => exact Iff.rfl
  | iteration => exact imp_congr_right fun _ => roundInBounds_iff

/-- A header alone, with the right checksum, that announces nothing. -/
def shortHeader : RaftRpcFixedHeader where
  magicNumber := kMagicNumber
  totalLength := 0
  headerChecksum := RaftRpcFixedHeader.calculateHeaderChecksum .little
    { magicNumber := kMagicNumber, totalLength := 0, headerChecksum := 0 }

/-- The dispatcher accepts it, and the length underflows. -/
theorem receive_shortHeader :
    ¬ ∀ events, Transition.Along
      (receive .little (dispatchPacket voteServices (voteCodec [1, 2])))
      (InBounds .little (dispatchPacket voteServices (voteCodec [1, 2])))
      { state := [], buffer := [], looping := false } events := by
  intro h
  have hround := ((h [.chunk shortHeader.bytes, .iteration]).2 _ rfl).1 rfl
  have hsize := roundInBounds_iff.mp hround (by decide +kernel)
  exact absurd hsize (by decide +kernel)

/-! ## The callback -/

section Callback

variable {order : ByteOrder} {handle : σ → Bytes → σ × Bool} {s : σ} {buffer : Bytes}

/-- `frameLoop` runs one iteration after the other. -/
theorem frameLoop_succ (n : Nat) (hbuffer : buffer.length < 2 ^ 64) :
    frameLoop order handle (n + 1) s buffer =
      match loopRound order handle s buffer with
      | some (s', rest, true) => frameLoop order handle n s' rest
      | some (s', rest, false) => some (s', rest)
      | none => none := by
  by_cases hr : Retrieves order buffer
  · have hsize := hr.size
    have hcomplete := hr.complete
    rw [frameLoop, if_neg (by omega)]
    dsimp only
    rw [if_neg (not_not.mpr hr.magic), if_neg (not_not.mpr hr.checksum), if_neg (by omega)]
    by_cases hlt : (RaftRpcFixedHeader.read buffer).totalLength < headerSize
    · rw [if_pos hlt, loopRound_of_lt_headerSize hr hlt hbuffer]
    · rw [if_neg hlt, loopRound_of_headerSize_le hr (by omega)]
      dsimp only
      cases (handle s ((buffer.drop headerSize).take
        ((RaftRpcFixedHeader.read buffer).totalLength - headerSize))).2 <;> rfl
  · obtain ⟨rest, hround, hloop⟩ := loopRound_of_not_retrieves handle s hr
    rw [hloop, hround]

/-- An iteration that goes on leaves less in the buffer than it found. -/
theorem loopRound_length {s' : σ} {rest : Bytes}
    (h : loopRound order handle s buffer = some (s', rest, true))
    (hbuffer : buffer.length < 2 ^ 64) : rest.length < buffer.length := by
  by_cases hr : Retrieves order buffer
  · by_cases hlt : (RaftRpcFixedHeader.read buffer).totalLength < headerSize
    · rw [loopRound_of_lt_headerSize hr hlt hbuffer] at h
      cases h
    · have hin : RoundInBounds order handle s buffer := roundInBounds_iff.mpr fun _ => by omega
      obtain ⟨used, hused, hsplit⟩ := hin.2 s' rest h
      rw [hsplit, List.length_append, hused]
      unfold headerSize at hlt
      omega
  · obtain ⟨rest', hend, -⟩ := loopRound_of_not_retrieves handle s hr
    rw [hend] at h
    cases h

/-- The callback is a sequence of iterations.  It ends with the loop, or in the iteration
whose assertion fails. -/
theorem onMessage_iterations (hbuffer : buffer.length < 2 ^ 64) :
    ∃ (n : Nat) (r : Receiver σ),
      Transition.Run (receive order handle) (fun _ _ => True)
        { state := s, buffer := buffer, looping := true }
        (List.replicate n .iteration) r ∧
      match onMessage order handle s buffer with
      | some (s', rest) => r = { state := s', buffer := rest, looping := false }
      | none => r.looping = true ∧ receive order handle r .iteration = none := by
  unfold onMessage
  generalize hn : buffer.length = n
  induction n using Nat.strongRecOn generalizing s buffer with
  | ind n ih =>
    have hrounds : frameLoop order handle n s buffer = frameLoop order handle (n + 1) s buffer :=
      frameLoop_rounds (by omega) (by omega)
    rw [hrounds, frameLoop_succ n hbuffer]
    cases hround : loopRound order handle s buffer with
    | none =>
      refine ⟨0, _, .nil _, rfl, ?_⟩
      rw [receive, if_pos rfl, hround]
    | some result =>
      obtain ⟨s', rest, goesOn⟩ := result
      have hstep :
          receive order handle { state := s, buffer := buffer, looping := true } .iteration =
            some { state := s', buffer := rest, looping := goesOn } := by
        rw [receive, if_pos rfl, hround]
      cases goesOn with
      | false => exact ⟨1, _, .cons trivial hstep (.nil _), rfl⟩
      | true =>
        have hlt := loopRound_length hround hbuffer
        obtain ⟨m, r, hrun, hend⟩ := ih rest.length (by omega) (s := s') (by omega) rfl
        refine ⟨m + 1, r, .cons trivial hstep hrun, ?_⟩
        have hmore : frameLoop order handle n s' rest =
            frameLoop order handle rest.length s' rest := frameLoop_rounds (by omega) (by omega)
        dsimp only
        rw [hmore]
        exact hend

end Callback

end Rpc

end WWRaftKV
