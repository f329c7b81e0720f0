/-
The handlers of `class Raft`, in the order of `Raft.cpp`.
-/
import WWRaftKV.Core.Raft

namespace WWRaftKV

/-! ## Commands -/

/-- What a handler does outside the fields of its node. -/
inductive Effect
  /-- `_Inner_channel.push` -/
  | push (m : RaftMessage)
  /-- one call of `_Persist`, with the data it writes -/
  | persist (d : RaftPersistData)
deriving DecidableEq, Repr

/-- `std::out_of_range`. -/
inductive OutOfRange
  | outOfRange
deriving DecidableEq, Repr

/-- The fields of the node and the effects so far, oldest first. -/
structure Scope where
  raft : Raft
  effects : List Effect
deriving DecidableEq, Repr

/-- A command keeps the scope it has reached when it throws. -/
abbrev RaftM := EStateM OutOfRange Scope

namespace Raft

def fields : RaftM Raft := fun s => .ok s.raft s

def assign (f : Raft → Raft) : RaftM Unit :=
  fun s => .ok () { s with raft := f s.raft }

def push (m : RaftMessage) : RaftM Unit :=
  fun s => .ok () { s with effects := s.effects ++ [.push m] }

/-- `_Persist`.  Whether the file can be opened and written is not decided here:
the effect records the attempt and the data. -/
def persist : RaftM Unit :=
  fun s => .ok () { s with effects := s.effects ++ [.persist s.raft.persistData] }

/-- The value of a lookup, or the exception it throws. -/
def orThrow {α : Type} (x : Option α) : RaftM α :=
  fun s => match x with
    | some a => .ok a s
    | none => .error .outOfRange s

/-! ## Changes of role -/

def becomeFollower (leaderId : Int) (leaderTerm : Nat) : RaftM Unit := do
  assign (toFollower leaderId leaderTerm)
  persist

/-- The second term test of the three request handlers: a larger term turns the
node into a follower before the rest of the handler runs. -/
def observeTerm (leaderId : Int) (term : Nat) : RaftM Unit := do
  let r ← fields
  if term > r.term then becomeFollower leaderId term else pure ()

def requestVoteTo (r : Raft) (peer : RaftPeer) : RaftMessage :=
  .requestVoteRequest {
    fromId := r.id
    term := r.term
    lastLogIndex := r.lastLogIndex
    lastLogTerm := r.lastLogTerm
    toId := peer.id }

def becomeCandidate : RaftM Unit := do
  assign toCandidate
  persist
  let r ← fields
  r.peers.forM fun peer =>
    if peer.id = r.id then pure () else push (requestVoteTo r peer)

/-- One round of the loop of `_SendAppendEntries`. -/
def sendAppendEntriesTo (isHeartbeat : Bool) (peer : RaftPeer) : RaftM Unit := do
  let r ← fields
  if peer.id = r.id then
    pure ()
  else if peer.nextIndex < r.baseIndex then
    push (.installSnapshotRequest {
      term := r.term
      fromId := r.id
      toId := peer.id
      lastIncludedIndex := r.lastIncludedIndex
      lastIncludedTerm := r.lastIncludedTerm })
  else
    let prevLogTerm ← orThrow (r.getTermAt (peer.nextIndex - 1))
    push (.appendEntriesRequest {
      term := r.term
      fromId := r.id
      toId := peer.id
      leaderCommit := r.lastCommitIndex
      prevLogIndex := peer.nextIndex - 1
      prevLogTerm := prevLogTerm
      entries := if isHeartbeat then [] else r.getLogFrom peer.nextIndex })

def sendAppendEntries (isHeartbeat : Bool) : RaftM Unit := do
  let r ← fields
  r.peers.forM (sendAppendEntriesTo isHeartbeat)

/-- The reset of every other peer in `_BecomeLeader`. -/
def resetPeer (r : Raft) (peer : RaftPeer) : RaftPeer :=
  if peer.id = r.id then peer
  else (peer.setMatchIndex 0).setNextIndex (r.lastLogIndex + 1)

def becomeLeader : RaftM Unit := do
  assign toLeader
  persist
  assign fun r => r.setPeers (r.peers.map r.resetPeer)
  sendAppendEntries true

/-! ## Commit and snapshot helpers -/

/-- The indices of the loop `for (i = applied + 1; i <= commit; ++i)`. -/
def applyWindow (applied commit : Int) : List Int :=
  (List.range (commit - applied).toNat).map fun (k : Nat) => applied + 1 + (k : Int)

def applyCommitLogs : RaftM Unit := do
  let r ← fields
  if r.isApplying then
    pure ()
  else
    assign (setIsApplying true)
    let entries ← orThrow
      ((applyWindow r.lastAppliedIndex r.lastCommitIndex).mapM r.getLogAt)
    push (.applyCommitLogsRequest {
      lastCommitIndex := r.lastCommitIndex
      entries := entries })

def generateSnapshot : RaftM Unit := do
  let r ← fields
  let lastAppliedTerm ← orThrow (r.getTermAt r.lastAppliedIndex)
  push (.generateSnapshotRequest {
    lastAppliedIndex := r.lastAppliedIndex
    lastAppliedTerm := lastAppliedTerm })

def snapshotThreshold : Int := 3

def checkIfNeedSnapshot : RaftM Unit := do
  let r ← fields
  if r.isSnapshoting then
    pure ()
  else
    assign (setIsSnapshoting true)
    if r.lastAppliedIndex - r.lastIncludedIndex ≥ snapshotThreshold then
      generateSnapshot
    else
      assign (setIsSnapshoting false)

/-! ## Votes -/

def handleRequestVoteRequest (m : RaftRequestVoteRequestMessage) : RaftM Unit := do
  let r ← fields
  if m.term < r.term then
    push (.requestVoteResponse { seq := m.seq, term := r.term, voteGranted := false })
  else
    observeTerm (-1) m.term
    let r ← fields
    let refusal : RaftRequestVoteResponseMessage :=
      { seq := m.seq, term := r.term, voteGranted := false }
    if r.votedFor ≠ -1 ∧ r.votedFor ≠ m.fromId then
      push (.requestVoteResponse refusal)
    else if ¬ r.logUpToDate m.lastLogIndex m.lastLogTerm then
      push (.requestVoteResponse refusal)
    else
      assign (setVotedFor m.fromId)
      persist
      push (.requestVoteResponse { refusal with voteGranted := true })

def handleRequestVoteResponse (m : RaftRequestVoteResponseMessage) : RaftM Unit := do
  let r ← fields
  if r.role ≠ .candidate then
    pure ()
  else if m.term > r.term then
    becomeFollower (-1) m.term
  else if m.term < r.term then
    pure ()
  else if m.voteGranted then
    assign countVote
    let r ← fields
    if r.voteCount > r.peers.length / 2 then
      becomeLeader
    else
      pure ()
  else
    pure ()

/-! ## Replication -/

/-- Step 2 of `_HandleAppendEntriesRequest` when the previous entry is missing.
The text of the second debug line calls `_GetTermAt` once more, on the vector
that has just been shortened. -/
def rejectEntries (prevLogIndex : Int) (response : RaftAppendEntriesResponseMessage) :
    RaftM Unit := do
  assign (truncateAfter prevLogIndex)
  push (.appendEntriesResponse response)
  let r ← fields
  let _ ← orThrow (r.getTermAt prevLogIndex)
  pure ()

/-- Step 3: every entry of the request goes to the end of the vector. -/
def syncLogs (entries : List RaftLogEntry) : RaftM Unit := do
  if entries.isEmpty then
    pure ()
  else
    assign (appendLogs entries)
    persist
    assign refreshLast

/-- Step 4. -/
def followCommit (leaderCommit : Int) : RaftM Unit := do
  let r ← fields
  if leaderCommit > r.lastCommitIndex then
    assign fun r => r.setLastCommitIndex (min leaderCommit r.lastLogIndex)
    applyCommitLogs
  else
    pure ()

def handleAppendEntriesRequest (m : RaftAppendEntriesRequestMessage) : RaftM Unit := do
  let r ← fields
  if m.term < r.term then
    push (.appendEntriesResponse {
      seq := m.seq, fromId := r.id, term := r.term, success := false })
  else
    observeTerm m.fromId m.term
    let r ← fields
    let response : RaftAppendEntriesResponseMessage :=
      { seq := m.seq, fromId := r.id, term := r.term, success := false }
    let matched ← orThrow (r.logMatch m.prevLogIndex m.prevLogTerm)
    if matched then
      syncLogs m.entries
      followCommit m.leaderCommit
      let r ← fields
      push (.appendEntriesResponse
        { response with lastLogIndex := r.lastLogIndex, success := true })
    else
      rejectEntries m.prevLogIndex response

/-- Write through the iterator that `find` over `_Peers` yields: the first peer
with this id. -/
def updatePeer (id : Int) (f : RaftPeer → RaftPeer) : List RaftPeer → List RaftPeer
  | [] => []
  | p :: ps => if p.id = id then f p :: ps else p :: updatePeer id f ps

def findPeer (r : Raft) (id : Int) : Option RaftPeer :=
  r.peers.find? fun p => p.id = id

/-- Steps 3 and 4 of `_HandleAppendEntriesResponse`. -/
def commitMajority : RaftM Unit := do
  let r ← fields
  let majorityTerm ← orThrow (r.getTermAt r.majorityMatch)
  if majorityTerm = r.term then
    assign fun r => r.setLastCommitIndex r.majorityMatch
    applyCommitLogs
    checkIfNeedSnapshot
  else
    pure ()

def handleAppendEntriesResponse (m : RaftAppendEntriesResponseMessage) : RaftM Unit := do
  let r ← fields
  if r.role ≠ .leader then
    pure ()
  else if m.term > r.term then
    becomeFollower (-1) m.term
  else
    match r.findPeer m.fromId with
    | none => pure ()
    | some otherNode =>
      if m.success then
        assign fun r => r.setPeers (updatePeer m.fromId (·.setProgress m.lastLogIndex) r.peers)
        commitMajority
      else if otherNode.nextIndex > 1 then
        assign fun r => r.setPeers
          (updatePeer m.fromId (·.setNextIndex (otherNode.nextIndex - 1)) r.peers)
      else
        pure ()

/-! ## Snapshots -/

def handleInstallSnapshotRequest (m : RaftInstallSnapshotRequestMessage) : RaftM Unit := do
  let r ← fields
  if m.term < r.term then
    push (.installSnapshotResponse { seq := m.seq, term := r.term })
  else
    observeTerm m.fromId m.term
    let r ← fields
    if m.lastIncludedIndex < r.lastIncludedIndex then
      push (.installSnapshotResponse { seq := m.seq, term := r.term })
    else
      push (.applySnapshotRequest {
        seq := m.seq
        lastIncludedIndex := m.lastIncludedIndex
        lastIncludedTerm := m.lastIncludedTerm
        snapshot := m.snapshot })

def handleInstallSnapshotResponse (m : RaftInstallSnapshotResponseMessage) :
    RaftM Unit := do
  let r ← fields
  if r.role ≠ .leader then
    pure ()
  else if m.term < r.term then
    pure ()
  else if m.term > r.term then
    becomeFollower (-1) m.term
  else
    match r.findPeer m.fromId with
    | none => pure ()
    | some _ =>
      assign fun r => r.setPeers
        (updatePeer m.fromId (·.setProgress r.lastIncludedIndex) r.peers)

def handleApplyCommitLogs (m : ApplyCommitLogsResponseMessage) : RaftM Unit := do
  assign (setLastAppliedIndex m.lastCommitIndex)
  assign (setIsApplying false)
  checkIfNeedSnapshot

def handleGenerateSnapshot (m : GenerateSnapshotResponseMessage) : RaftM Unit := do
  if m.lastAppliedIndex = -1 ∧ m.lastAppliedTerm = 0 then
    pure ()
  else
    assign (truncateBefore (m.lastAppliedIndex + 1))
    assign (setLastIncluded m.lastAppliedIndex m.lastAppliedTerm)
    persist
    assign (setIsSnapshoting false)

def handleApplySnapshot (m : ApplySnapshotResponseMessage) : RaftM Unit := do
  if m.lastIncludedIndex = -1 ∧ m.lastIncludedTerm = 0 then
    push (.installSnapshotResponse { seq := m.seq, term := 0 })
  else
    assign (truncateBefore m.lastIncludedIndex)
    let r ← fields
    assign (setLastIncluded m.lastIncludedIndex m.lastIncludedTerm)
    push (.installSnapshotResponse { seq := m.seq, term := r.term })

/-! ## Client operations -/

/-- The text of a write.  `none` is a read, which adds no entry. -/
def commandText (op : OperationType) (key value : Str) : Option Str :=
  match op with
  | .put => some (['p', 'u', 't', ' '] ++ key ++ [' '] ++ value)
  | .update => some (['u', 'p', 'd', 'a', 't', 'e', ' '] ++ key ++ [' '] ++ value)
  | .delete => some (['d', 'e', 'l', 'e', 't', 'e', ' '] ++ key)
  | .get => none

def handleKVOperationRequest (m : KVOperationRequestMessage) : RaftM Unit := do
  let r ← fields
  if r.role ≠ .leader then
    push (.kvOperationResponse {
      seq := m.seq
      uuid := m.uuid
      leaderId := r.leaderId
      key := m.key
      value := m.value
      success := false })
  else
    match commandText m.opType m.key m.value with
    | some command =>
      assign (appendLogs [{
        uuid := m.uuid, sequenceId := m.seq, term := r.term, command := command }])
      persist
      assign advanceLast
      sendAppendEntries false
    | none =>
      push (.kvOperationResponse {
        seq := m.seq
        uuid := m.uuid
        opType := .get
        key := m.key
        value := m.value
        success := true })

/-! ## Dispatch -/

def handleShutdown : RaftM Unit := do
  assign (setRunning false)
  push .shutdown

/-- `_HandleMessage`.  The types that only the clerk handles fall into the
default branch. -/
def handleMessage : RaftMessage → RaftM Unit
  | .requestVoteRequest m => handleRequestVoteRequest m
  | .requestVoteResponse m => handleRequestVoteResponse m
  | .appendEntriesRequest m => handleAppendEntriesRequest m
  | .appendEntriesResponse m => handleAppendEntriesResponse m
  | .installSnapshotRequest m => handleInstallSnapshotRequest m
  | .installSnapshotResponse m => handleInstallSnapshotResponse m
  | .kvOperationRequest m => handleKVOperationRequest m
  | .applyCommitLogsResponse m => handleApplyCommitLogs m
  | .generateSnapshotResponse m => handleGenerateSnapshot m
  | .applySnapshotResponse m => handleApplySnapshot m
  | .shutdown => handleShutdown
  | _ => pure ()

/-- The two branches of `_RaftLoop`. -/
def electionTimeout : RaftM Unit := do
  let r ← fields
  if r.role ≠ .leader then becomeCandidate else pure ()

def heartbeatTimeout : RaftM Unit := do
  let r ← fields
  if r.role = .leader then sendAppendEntries true else pure ()

end Raft

/-- What makes the core act: one of its timers, or a message taken from
`_Outter_channel`. -/
inductive Input
  | electionTimeout
  | heartbeatTimeout
  | message (m : RaftMessage)
deriving DecidableEq, Repr

namespace Raft

def command : Input → RaftM Unit
  | .electionTimeout => electionTimeout
  | .heartbeatTimeout => heartbeatTimeout
  | .message m => handleMessage m

end Raft

/-- The end of one atomic step of the core.  After a throw the exception leaves
the thread's function, which ends the process. -/
structure Reaction where
  raft : Raft
  effects : List Effect
  thrown : Bool
deriving DecidableEq, Repr

namespace Raft

/-- Run a command from an empty list of effects. -/
def runCommand (c : RaftM Unit) (r : Raft) : Reaction :=
  match c.run { raft := r, effects := [] } with
  | .ok _ s => { raft := s.raft, effects := s.effects, thrown := false }
  | .error _ s => { raft := s.raft, effects := s.effects, thrown := true }

def react (r : Raft) (i : Input) : Reaction := runCommand (command i) r

end Raft

/-- The messages among the effects, in order. -/
def pushedOf (es : List Effect) : List RaftMessage :=
  es.filterMap fun e => match e with
    | .push m => some m
    | .persist _ => none

/-- The data of the calls of `_Persist` among the effects, in order. -/
def persistedOf (es : List Effect) : List RaftPersistData :=
  es.filterMap fun e => match e with
    | .push _ => none
    | .persist d => some d

namespace Reaction

/-- The messages pushed into `_Inner_channel`. -/
def pushed (x : Reaction) : List RaftMessage := pushedOf x.effects

def persisted (x : Reaction) : List RaftPersistData := persistedOf x.effects

end Reaction

end WWRaftKV
