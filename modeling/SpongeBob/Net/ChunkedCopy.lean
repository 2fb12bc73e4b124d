import SpongeBob.Net.Transfer

/-!
# Copies in pieces

When all operations succeed, a transfer in pieces is a copy of the whole range, and
touches nothing else but the staging buffer of its task.
-/

namespace SpongeBob
namespace Net
namespace Transfer

open Foundation
open Bytes
open Completion
open Polling
open Shares

/-!
# What is expected
-/

/-- The operation is accepted, its bytes move, and its entry is a success. -/
structure Outcome.Succeeds (outcome : Outcome) : Prop where
  posted : outcome.posted = true
  moved : outcome.moved = true
  reported : exists value, outcome.reported = some value ∧ 0 ≤ value

/-- The number of bytes of a staging buffer. -/
def poolBytes : Nat := 1024 * 1024

/-- The address is in the staging buffer of a task. -/
def Staged (s : Socket) (taskID : Nat) (x : UInt64) : Prop :=
  InRange (sendPoolAddr s.mm taskID) poolBytes x

/-- Where the range of a task starts in the memory of the peer. -/
def remoteStart (s : Socket) (nodeID : UInt16) (task : TransferTask) : UInt64 :=
  task.bufferReceive + s.registeredMemory nodeID

/--
The operations that have been added are all on one queue pair, at most as large as the
staging buffer, and in it.
-/
def Issues (s : Socket) (taskID : Nat) (nodeID : UInt16) (m m' : Machine) : Prop :=
  exists issued,
    m'.requests = Function.update m.requests (nodeID, taskID + 1)
      (m.requests (nodeID, taskID + 1) ++ issued) ∧
    forall r, r ∈ issued -> r.length.toNat ≤ poolBytes ∧
      forall offset : UInt64, offset < r.length -> Staged s taskID (r.localAddr + offset)

/-- The range of the task has been copied to the peer, and nothing else has changed. -/
structure Sent (s : Socket) (taskID : Nat) (nodeID : UInt16) (task : TransferTask)
    (m m' : Machine) : Prop where
  copied : forall offset : UInt64, offset < task.size ->
    m'.remote nodeID (remoteStart s nodeID task + offset) = m.memory (task.bufferSend + offset)
  remoteKept : forall x, ¬ InRange (remoteStart s nodeID task) task.size.toNat x ->
    m'.remote nodeID x = m.remote nodeID x
  peersKept : forall node, node ≠ nodeID -> m'.remote node = m.remote node
  localKept : forall x, ¬ Staged s taskID x -> m'.memory x = m.memory x
  issues : Issues s taskID nodeID m m'

/-- The range of the task has been copied from the peer, and nothing else has changed. -/
structure Received (s : Socket) (taskID : Nat) (nodeID : UInt16) (task : TransferTask)
    (m m' : Machine) : Prop where
  copied : forall offset : UInt64, offset < task.size ->
    m'.memory (task.bufferSend + offset) = m.remote nodeID (remoteStart s nodeID task + offset)
  remoteKept : m'.remote = m.remote
  localKept : forall x, ¬ InRange task.bufferSend task.size.toNat x -> ¬ Staged s taskID x ->
    m'.memory x = m.memory x
  issues : Issues s taskID nodeID m m'

/-!
# Single pieces
-/

section Pieces

variable {s : Socket} {device : Device} {taskID : Nat} {nodeID : UInt16} {l : Loop}
  {m m' m'' : Machine}

theorem Issues.refl : Issues s taskID nodeID m m := by
  exists []
  constructor
  · rw [List.append_nil, Function.update_eq_self]
  · intro r hr
    cases hr

theorem Issues.trans (h : Issues s taskID nodeID m m') (h' : Issues s taskID nodeID m' m'') :
    Issues s taskID nodeID m m'' := by
  rcases h with ⟨issued, heq, hissued⟩
  rcases h' with ⟨issued', heq', hissued'⟩
  exists issued ++ issued'
  constructor
  · rw [heq', heq, Function.update_idem, Function.update_self, List.append_assoc]
  · intro r hr
    cases List.mem_append.mp hr with
    | inl hfirst => exact hissued r hfirst
    | inr hsecond => exact hissued' r hsecond

theorem toNat_sendSize_le (h : l.unfinished = true) : l.sendSize.toNat ≤ poolBytes := by
  rw [toNat_sendSize h]
  exact Nat.min_le_right _ _

theorem issues_piece (h : l.unfinished = true) {opcode : Opcode}
    (hm : m'.requests = Function.update m.requests (nodeID, taskID + 1)
      (m.requests (nodeID, taskID + 1) ++ [pieceRequest s taskID nodeID l opcode])) :
    Issues s taskID nodeID m m' := by
  exists [pieceRequest s taskID nodeID l opcode]
  constructor
  · exact hm
  · intro r hr
    cases List.mem_singleton.mp hr
    constructor
    · exact toNat_sendSize_le h
    · intro offset hoffset
      apply inRange_add
      exact Nat.lt_of_lt_of_le (UInt64.lt_iff_toNat_lt.mp hoffset) (toNat_sendSize_le h)

theorem postSend_of_succeeds {q : QueuePair} {r : WorkRequest}
    (h : (device q (m.requests q).length).Succeeds) :
    m.postSend device q r = (true, (m.carryOut q.1 r).record q r) := by
  simp only [Machine.postSend, Machine.nextOutcome, h.posted, h.moved, Bool.and_self, if_true]

/-- With an entry to take, the polling ends. -/
theorem bind_pollCompletion {q : QueuePair} (hall : forall k, (device q k).Succeeds)
    (next : Option Machine) : (pollCompletion device q m).bind (fun _ => next) = next := by
  rcases (hall ((m.requests q).length - 1)).reported with ⟨value, hvalue, _⟩
  unfold pollCompletion
  rw [hvalue]
  rfl

theorem map_pollCompletion {q : QueuePair} (hall : forall k, (device q k).Succeeds)
    (next : Machine) : (pollCompletion device q m).map (fun _ => next) = some next := by
  rw [Option.map_eq_bind]
  exact bind_pollCompletion hall (some next)

/-- A piece that is read comes to the staging buffer and from there to its place. -/
theorem inboundPiece_eq (hall : forall k, (device (nodeID, taskID + 1) k).Succeeds) :
    inboundPiece s device taskID nodeID l m =
      some (((m.carryOut nodeID (pieceRequest s taskID nodeID l Opcode.rdmaRead)).record
        (nodeID, taskID + 1) (pieceRequest s taskID nodeID l Opcode.rdmaRead)).memcpy
          (l.task.bufferSend + l.totalSizeSend) (sendPoolAddr s.mm taskID) l.sendSize) := by
  unfold inboundPiece rdmaRead
  rw [postSend_of_succeeds (hall _)]
  exact map_pollCompletion hall _

/-- A piece that is written comes to the staging buffer and from there to the peer. -/
theorem outboundPiece_eq (hall : forall k, (device (nodeID, taskID + 1) k).Succeeds) :
    outboundPiece s device taskID nodeID l m =
      some (((m.memcpy (sendPoolAddr s.mm taskID) (l.task.bufferSend + l.totalSizeSend)
        l.sendSize).carryOut nodeID (pieceRequest s taskID nodeID l Opcode.rdmaWrite)).record
          (nodeID, taskID + 1) (pieceRequest s taskID nodeID l Opcode.rdmaWrite)) := by
  simp only [outboundPiece, rdmaWrite, postSend_of_succeeds (hall _)]
  exact bind_pollCompletion hall _

end Pieces

/-!
# The loops
-/

section Loops

variable {s : Socket} {device : Device} {taskID : Nat} {nodeID : UInt16} {l : Loop}
  {m : Machine}

/-- A piece and the rest of the range, at both ends. -/
theorem copy_next (h : l.unfinished = true) {source target : Memory} {src dst : UInt64} :
    copy source (src + l.next.totalSizeSend) (dst + l.next.totalSizeSend) (left l.next)
        (copy source (src + l.totalSizeSend) (dst + l.totalSizeSend) l.sendSize.toNat target) =
      copy source (src + l.totalSizeSend) (dst + l.totalSizeSend) (left l) target := by
  have hsum := sendSize_add_left h
  have hlt := left_lt l
  have hnext : l.next.totalSizeSend = l.totalSizeSend + l.sendSize := rfl
  rw [hnext, ← UInt64.add_assoc, ← UInt64.add_assoc, copy_copy (by omega), hsum]

/-- What is left to move lies in the range of the task. -/
theorem inRange_of_left (hle : l.totalSizeSend.toNat ≤ l.task.size.toNat) {start x : UInt64}
    (hx : InRange (start + l.totalSizeSend) (left l) x) :
    InRange start l.task.size.toNat x := by
  have hsum : l.totalSizeSend.toNat + left l = l.task.size.toNat := Nat.add_sub_cancel' hle
  have hsize := l.task.size.toNat_lt
  rw [← hsum]
  exact (inRange_split (by omega)).mpr (Or.inr hx)

theorem next_le (h : l.unfinished = true) :
    l.next.totalSizeSend.toNat ≤ l.next.task.size.toNat := by
  have hsend := toNat_sendSize h
  have hlt := unfinished_iff.mp h
  have hnext := toNat_totalSizeSend_next h
  show l.next.totalSizeSend.toNat ≤ l.task.size.toNat
  unfold left at hsend
  omega

theorem remoteAddr_eq (opcode : Opcode) :
    (pieceRequest s taskID nodeID l opcode).remoteAddr =
      remoteStart s nodeID l.task + l.totalSizeSend := by
  unfold pieceRequest remoteStart
  grind

/-- What a piece that is written leaves behind. -/
theorem outboundPiece_copies (h : l.unfinished = true)
    (hall : forall k, (device (nodeID, taskID + 1) k).Succeeds) :
    exists m', outboundPiece s device taskID nodeID l m = some m' ∧
      AgreeOff (sendPoolAddr s.mm taskID) poolBytes m'.memory m.memory ∧
      m'.remote = Function.update m.remote nodeID
        (copy m.memory (l.task.bufferSend + l.totalSizeSend)
          (remoteStart s nodeID l.task + l.totalSizeSend) l.sendSize.toNat
          (m.remote nodeID)) ∧
      Issues s taskID nodeID m m' := by
  refine ⟨_, outboundPiece_eq hall, ?_, ?_, ?_⟩
  · exact copy_agreeOff (toNat_sendSize_le h)
  · rw [← remoteAddr_eq Opcode.rdmaWrite]
    exact congrArg (Function.update m.remote nodeID) copy_through
  · exact issues_piece h rfl

/-- What a piece that is read leaves behind. -/
theorem inboundPiece_copies (h : l.unfinished = true)
    (hall : forall k, (device (nodeID, taskID + 1) k).Succeeds) :
    exists m', inboundPiece s device taskID nodeID l m = some m' ∧
      AgreeOff (sendPoolAddr s.mm taskID) poolBytes m'.memory
        (copy (m.remote nodeID) (remoteStart s nodeID l.task + l.totalSizeSend)
          (l.task.bufferSend + l.totalSizeSend) l.sendSize.toNat m.memory) ∧
      m'.remote = m.remote ∧ Issues s taskID nodeID m m' := by
  refine ⟨_, inboundPiece_eq hall, ?_, ?_, ?_⟩
  · rw [← remoteAddr_eq Opcode.rdmaRead]
    -- the copy to the staging buffer, and the one from there
    let filled := copy (m.remote nodeID)
      (pieceRequest s taskID nodeID l Opcode.rdmaRead).remoteAddr
      (sendPoolAddr s.mm taskID) l.sendSize.toNat m.memory
    have hfilled : AgreeOff (sendPoolAddr s.mm taskID) poolBytes filled m.memory :=
      copy_agreeOff (toNat_sendSize_le h)
    show AgreeOff _ _ (copy filled (sendPoolAddr s.mm taskID)
      (l.task.bufferSend + l.totalSizeSend) l.sendSize.toNat filled) _
    rw [copy_through]
    exact hfilled.copy
  · rfl
  · exact issues_piece h rfl

/-- The rest of a range that is written. -/
theorem outboundLoop_copies (hall : forall k, (device (nodeID, taskID + 1) k).Succeeds)
    (hapart : forall x, InRange l.task.bufferSend l.task.size.toNat x -> ¬ Staged s taskID x) :
    exists m', hamal (outboundPiece s device taskID nodeID) l m = some m' ∧
      AgreeOff (sendPoolAddr s.mm taskID) poolBytes m'.memory m.memory ∧
      m'.remote = Function.update m.remote nodeID
        (copy m.memory (l.task.bufferSend + l.totalSizeSend)
          (remoteStart s nodeID l.task + l.totalSizeSend) (left l) (m.remote nodeID)) ∧
      Issues s taskID nodeID m m' := by
  induction l using loop_induction generalizing m with
  | finished l h =>
      exists m
      constructor
      · exact hamal_of_finished h
      constructor
      · exact AgreeOff.refl
      constructor
      · rw [left_of_finished h, copy_zero, Function.update_eq_self]
      · exact Issues.refl
  | unfinished l h ih =>
      rcases outboundPiece_copies (m := m) h hall with ⟨m1, hpiece, hmemory, hremote, hissues⟩
      rcases ih (m := m1) hapart with ⟨m', hloop, hmemory', hremote', hissues'⟩
      exists m'
      constructor
      · rw [hamal_of_unfinished h hpiece]
        exact hloop
      constructor
      · exact hmemory'.trans hmemory
      constructor
      · -- what the staging buffer has been used for is not part of the range
        have hsame : copy m1.memory (l.task.bufferSend + l.next.totalSizeSend)
            (remoteStart s nodeID l.task + l.next.totalSizeSend) (left l.next)
            (m1.remote nodeID) =
            copy m.memory (l.task.bufferSend + l.next.totalSizeSend)
              (remoteStart s nodeID l.task + l.next.totalSizeSend) (left l.next)
              (m1.remote nodeID) := by
          apply copy_congr
          intro x hx
          exact hmemory x (hapart x (inRange_of_left (next_le h) hx))
        have hstep := hremote'.trans (congrArg (Function.update m1.remote nodeID) hsame)
        rw [hstep, hremote, Function.update_idem, Function.update_self, copy_next h]
      · exact hissues.trans hissues'

/-- The rest of a range that is read. -/
theorem inboundLoop_copies (hall : forall k, (device (nodeID, taskID + 1) k).Succeeds) :
    exists m', hamal (inboundPiece s device taskID nodeID) l m = some m' ∧
      AgreeOff (sendPoolAddr s.mm taskID) poolBytes m'.memory
        (copy (m.remote nodeID) (remoteStart s nodeID l.task + l.totalSizeSend)
          (l.task.bufferSend + l.totalSizeSend) (left l) m.memory) ∧
      m'.remote = m.remote ∧ Issues s taskID nodeID m m' := by
  induction l using loop_induction generalizing m with
  | finished l h =>
      exists m
      constructor
      · exact hamal_of_finished h
      constructor
      · rw [left_of_finished h, copy_zero]
        exact AgreeOff.refl
      constructor
      · rfl
      · exact Issues.refl
  | unfinished l h ih =>
      rcases inboundPiece_copies (m := m) h hall with ⟨m1, hpiece, hmemory, hremote, hissues⟩
      rcases ih (m := m1) with ⟨m', hloop, hmemory', hremote', hissues'⟩
      exists m'
      constructor
      · rw [hamal_of_unfinished h hpiece]
        exact hloop
      constructor
      · have htask : l.next.task = l.task := rfl
        rw [hremote, htask] at hmemory'
        have hnext := hmemory'.trans hmemory.copy
        rw [copy_next h] at hnext
        exact hnext
      constructor
      · exact hremote'.trans hremote
      · exact hissues.trans hissues'

end Loops

/-!
# Whole ranges
-/

section Ranges

variable {s : Socket} {device : Device} {taskID : Nat} {nodeID : UInt16}

/-- The local range and the staging buffer have no byte in common. -/
def Apart (s : Socket) (taskID : Nat) (start : UInt64) (size : UInt64) : Prop :=
  forall x, InRange start size.toNat x -> ¬ Staged s taskID x

theorem left_start (task : TransferTask) : left ⟨task, 0⟩ = task.size.toNat :=
  Nat.sub_zero _

theorem outboundHamal_sends (task : TransferTask) (m : Machine)
    (hall : forall k, (device (nodeID, taskID + 1) k).Succeeds)
    (hapart : Apart s taskID task.bufferSend task.size) :
    exists m', outboundHamal s device taskID nodeID task m = some (true, m') ∧
      Sent s taskID nodeID task m m' := by
  rcases outboundLoop_copies (l := ⟨task, 0⟩) (m := m) hall hapart with
    ⟨m', hloop, hmemory, hremote, hissues⟩
  have hnode : m'.remote nodeID =
      copy m.memory task.bufferSend (remoteStart s nodeID task) task.size.toNat
        (m.remote nodeID) := by
    rw [hremote, Function.update_self, left_start, UInt64.add_zero, UInt64.add_zero]
  exists m'
  constructor
  · unfold outboundHamal
    rw [hloop]
    rfl
  constructor
  · intro offset hoffset
    rw [hnode]
    exact copy_add (UInt64.lt_iff_toNat_lt.mp hoffset)
  · intro x hx
    rw [hnode]
    exact copy_of_not_inRange hx
  · intro node hne
    rw [hremote, Function.update_of_ne hne]
  · exact hmemory
  · exact hissues

theorem inboundHamal_receives (task : TransferTask) (m : Machine)
    (hall : forall k, (device (nodeID, taskID + 1) k).Succeeds)
    (hapart : Apart s taskID task.bufferSend task.size) :
    exists m', inboundHamal s device taskID nodeID task m = some (true, m') ∧
      Received s taskID nodeID task m m' := by
  rcases inboundLoop_copies (l := ⟨task, 0⟩) (m := m) hall with
    ⟨m', hloop, hmemory, hremote, hissues⟩
  rw [left_start, UInt64.add_zero, UInt64.add_zero] at hmemory
  exists m'
  constructor
  · unfold inboundHamal
    rw [hloop]
    rfl
  constructor
  · intro offset hoffset
    have hlt := UInt64.lt_iff_toNat_lt.mp hoffset
    rw [hmemory _ (hapart _ (inRange_add hlt))]
    exact copy_add hlt
  · exact hremote
  · intro x hx hstaged
    rw [hmemory x hstaged]
    exact copy_of_not_inRange hx
  · exact hissues

end Ranges

/--
For every task and all memories, if all operations on the queue pair of the task succeed,
a write copies the local range to the peer and a read copies it back, both without a
change elsewhere; and what has been written from one buffer is read back into another.
-/
theorem transfers_exact (s : Socket) (device : Device) (taskID : Nat) (nodeID : UInt16)
    (task : TransferTask) (buffer : UInt64) (m : Machine)
    (hall : forall k, (device (nodeID, taskID + 1) k).Succeeds)
    (hapart : Apart s taskID task.bufferSend task.size)
    (hbuffer : Apart s taskID buffer task.size) :
    (exists m', outboundHamal s device taskID nodeID task m = some (true, m') ∧
      Sent s taskID nodeID task m m') ∧
    (exists m', inboundHamal s device taskID nodeID task m = some (true, m') ∧
      Received s taskID nodeID task m m') ∧
    (exists m1 m2, outboundHamal s device taskID nodeID task m = some (true, m1) ∧
      inboundHamal s device taskID nodeID { task with bufferSend := buffer } m1 =
        some (true, m2) ∧
      forall offset : UInt64, offset < task.size ->
        m2.memory (buffer + offset) = m.memory (task.bufferSend + offset)) := by
  have hsend := outboundHamal_sends task m hall hapart
  constructor
  · exact hsend
  constructor
  · exact inboundHamal_receives task m hall hapart
  · rcases hsend with ⟨m1, hout, hsent⟩
    rcases inboundHamal_receives { task with bufferSend := buffer } m1 hall hbuffer with
      ⟨m2, hin, hreceived⟩
    exists m1, m2
    constructor
    · exact hout
    constructor
    · exact hin
    · intro offset hoffset
      exact (hreceived.copied offset hoffset).trans (hsent.copied offset hoffset)

/-- Every operation is accepted and completes at once. -/
def steady : Device := fun _ _ => ⟨true, true, [Poll.completion ⟨0, wcSuccess⟩]⟩

/-- A region that starts at the address 0. -/
def plainSocket : Socket := ⟨0, fun _ => 0⟩

/-- Every byte of the local memory is the low part of its address. -/
def numbered : Machine where
  memory := UInt64.toUInt8
  remote := fun _ _ => 0
  requests := fun _ => []

/-- Two buffers of a little more than one piece, behind the staging buffer. -/
theorem transfers_exact_twoPieces :
    exists m1 m2, outboundHamal plainSocket steady 0 1 ⟨true, 1048579, 4194304, 7⟩ numbered =
        some (true, m1) ∧
      inboundHamal plainSocket steady 0 1 ⟨true, 1048579, 8388608, 7⟩ m1 = some (true, m2) ∧
      forall offset : UInt64, offset < 1048579 ->
        m2.memory (8388608 + offset) = (4194304 + offset).toUInt8 := by
  apply (transfers_exact plainSocket steady 0 1 ⟨true, 1048579, 4194304, 7⟩ 8388608 numbered
    ?_ ?_ ?_).2.2
  · intro k
    exact ⟨rfl, rfl, 1, rfl, by decide⟩
  · intro x hx
    exact not_inRange_of_behind (by decide) (by decide) hx
  · intro x hx
    exact not_inRange_of_behind (by decide) (by decide) hx

end Transfer
end Net
end SpongeBob
