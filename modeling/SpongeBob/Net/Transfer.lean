import SpongeBob.Foundation.Bytes
import SpongeBob.Net.Polling
import SpongeBob.Net.Shares

/-!
# Transfers through the staging buffers

{lit}`InboundHamal` and {lit}`OutboundHamal` move a range of bytes in pieces between
local memory and the memory of a peer.  Every piece goes through the staging buffer of
its task with one operation of the network card.
-/

namespace SpongeBob
namespace Net
namespace Transfer

open Foundation
open Bytes
open Completion
open Polling
open Shares

/-!
# The network card
-/

/-- A queue pair, by its peer and its index. -/
abbrev QueuePair := UInt16 × Nat

/-- What becomes of an operation. -/
structure Outcome where
  /-- Whether {lit}`ibv_post_send` accepts it. -/
  posted : Bool
  /-- Whether its bytes have moved by the time the polling for it ends. -/
  moved : Bool
  /-- The answers of the completion queue when it is polled for it. -/
  polls : List Poll
deriving DecidableEq, Repr

/-- The outcome of each operation, by its queue pair and its number there. -/
abbrev Device := QueuePair -> Nat -> Outcome

/-- The part of the socket that the transfers read. -/
structure Socket where
  mm : UInt64
  registeredMemory : UInt16 -> UInt64

/-- The memories of the two sides, and the operations so far on each queue pair. -/
structure Machine where
  memory : Memory
  remote : UInt16 -> Memory
  requests : QueuePair -> List WorkRequest

namespace Machine

def memcpy (dst src n : UInt64) (m : Machine) : Machine :=
  { m with memory := copy m.memory src dst n.toNat m.memory }

/-- Move the bytes of an operation. -/
def carryOut (nodeID : UInt16) (r : WorkRequest) (m : Machine) : Machine :=
  match r.opcode with
  | Opcode.rdmaRead =>
      { m with
        memory := copy (m.remote nodeID) r.remoteAddr r.localAddr r.length.toNat m.memory }
  | Opcode.rdmaWrite =>
      { m with
        remote := Function.update m.remote nodeID
          (copy m.memory r.localAddr r.remoteAddr r.length.toNat (m.remote nodeID)) }

def record (q : QueuePair) (r : WorkRequest) (m : Machine) : Machine :=
  { m with requests := Function.update m.requests q (m.requests q ++ [r]) }

/-- The outcome of the operation that comes next on a queue pair. -/
def nextOutcome (device : Device) (q : QueuePair) (m : Machine) : Outcome :=
  device q (m.requests q).length

/-- Give an operation to the card; the result says whether it has been accepted. -/
def postSend (device : Device) (q : QueuePair) (r : WorkRequest) (m : Machine) :
    Bool × Machine :=
  let outcome := m.nextOutcome device q
  (outcome.posted,
    if outcome.posted && outcome.moved then (m.carryOut q.1 r).record q r else m.record q r)

end Machine

/-!
# Single operations
-/

def rdmaRead (s : Socket) (device : Device) (nodeID : UInt16)
    (sourceBuffer desBuffer bufferSize : UInt64) (taskID : Nat) (m : Machine) :
    Bool × Machine :=
  m.postSend device (nodeID, taskID)
    { wrID := 0
      opcode := Opcode.rdmaRead
      localAddr := sourceBuffer
      remoteAddr := desBuffer + s.registeredMemory nodeID
      length := bufferSize }

/-- A write without immediate data. -/
def rdmaWrite (s : Socket) (device : Device) (nodeID : UInt16)
    (sourceBuffer desBuffer bufferSize : UInt64) (taskID : Nat) (m : Machine) :
    Bool × Machine :=
  m.postSend device (nodeID, taskID)
    { wrID := 0
      opcode := Opcode.rdmaWrite
      localAddr := sourceBuffer
      remoteAddr := desBuffer + s.registeredMemory nodeID
      length := bufferSize }

/-- Poll for one entry; the work completion has no value before. -/
def Outcome.reported (outcome : Outcome) : Option Int :=
  (pollQueue outcome.polls 1 ⟨0, 0⟩).map Prod.fst

/-- Poll for the entry of the last operation on a queue pair. -/
def pollCompletion (device : Device) (q : QueuePair) (m : Machine) : Option Int :=
  (device q ((m.requests q).length - 1)).reported

/-!
# The loops

Neither looks at the result of an operation, nor at that of {lit}`PollCompletion`.
-/

/-- The constructor of a client clears the flag, and nothing sets it. -/
def writeTest : Bool := false

/-- The writes that test the connection, each of a whole staging buffer. -/
def testWrites (s : Socket) (device : Device) (taskID : Nat) (nodeID : UInt16)
    (bufferReceive : UInt64) : Nat -> Machine -> Option Machine
  | 0, m => some m
  | count + 1, m =>
      let (_, m) := rdmaWrite s device nodeID (sendPoolAddr s.mm taskID) bufferReceive
        (1024 * 1024) (taskID + 1) m
      (pollCompletion device (nodeID, taskID + 1) m).bind (fun _ =>
        testWrites s device taskID nodeID bufferReceive count m)

def inboundPiece (s : Socket) (device : Device) (taskID : Nat) (nodeID : UInt16) (l : Loop)
    (m : Machine) : Option Machine :=
  let (_, m) := rdmaRead s device nodeID (sendPoolAddr s.mm taskID)
    (l.task.bufferReceive + l.totalSizeSend) l.sendSize (taskID + 1) m
  (pollCompletion device (nodeID, taskID + 1) m).map (fun _ =>
    m.memcpy (l.task.bufferSend + l.totalSizeSend) (sendPoolAddr s.mm taskID) l.sendSize)

def outboundPiece (s : Socket) (device : Device) (taskID : Nat) (nodeID : UInt16) (l : Loop)
    (m : Machine) : Option Machine :=
  let m := m.memcpy (sendPoolAddr s.mm taskID) (l.task.bufferSend + l.totalSizeSend) l.sendSize
  let (_, m) := rdmaWrite s device nodeID (sendPoolAddr s.mm taskID)
    (l.task.bufferReceive + l.totalSizeSend) l.sendSize (taskID + 1) m
  (pollCompletion device (nodeID, taskID + 1) m).bind (fun _ =>
    if writeTest then testWrites s device taskID nodeID l.task.bufferReceive 10 m else some m)

/-- The bytes that a loop has yet to move. -/
def left (l : Loop) : Nat :=
  l.task.size.toNat - l.totalSizeSend.toNat

section Loops

variable {l : Loop}

theorem unfinished_iff : l.unfinished = true <-> l.totalSizeSend.toNat < l.task.size.toNat := by
  unfold Loop.unfinished
  rw [decide_eq_true_iff, UInt64.lt_iff_toNat_lt]

theorem toNat_sendSize (h : l.unfinished = true) :
    l.sendSize.toNat = min (left l) (1024 * 1024) := by
  have hlt := unfinished_iff.mp h
  have hle : l.totalSizeSend ≤ l.task.size := UInt64.le_iff_toNat_le.mpr (Nat.le_of_lt hlt)
  have hpool : sendPoolSize.toNat = 1024 * 1024 := by
    decide
  have hleft : (l.task.size - l.totalSizeSend).toNat = left l :=
    UInt64.toNat_sub_of_le _ _ hle
  unfold Loop.sendSize
  split
  · rename_i hge
    have hmin := UInt64.le_iff_toNat_le.mp hge
    rw [hleft] at hmin
    rw [Nat.min_eq_right (by omega)]
    exact hpool
  · rename_i hlt'
    have hmin := UInt64.lt_iff_toNat_lt.mp (UInt64.not_le.mp hlt')
    rw [hleft] at hmin
    rw [Nat.min_eq_left (by omega)]
    exact hleft

theorem toNat_totalSizeSend_next (h : l.unfinished = true) :
    l.next.totalSizeSend.toNat = l.totalSizeSend.toNat + l.sendSize.toNat := by
  have hlt := unfinished_iff.mp h
  have hsend := toNat_sendSize h
  have hsize := l.task.size.toNat_lt
  unfold left at hsend
  show (l.totalSizeSend + l.sendSize).toNat = _
  rw [UInt64.toNat_add, Nat.mod_eq_of_lt (by omega)]

theorem left_next (h : l.unfinished = true) : left l.next = left l - l.sendSize.toNat := by
  unfold left
  rw [toNat_totalSizeSend_next h]
  exact Nat.sub_add_eq _ _ _

theorem left_next_lt (h : l.unfinished = true) : left l.next < left l := by
  have hlt := unfinished_iff.mp h
  have hsend := toNat_sendSize h
  rw [left_next h]
  unfold left at hsend ⊢
  omega

end Loops

/-- Move piece after piece; without an entry to poll the loop waits. -/
def hamal (piece : Loop -> Machine -> Option Machine) (l : Loop) (m : Machine) :
    Option Machine :=
  if _h : l.unfinished = true then
    (piece l m).bind (fun m => hamal piece l.next m)
  else some m
termination_by left l
decreasing_by exact left_next_lt _h

section Rounds

variable {l : Loop} {piece : Loop -> Machine -> Option Machine} {m m' : Machine}

/-- A loop is finished, or it is left with its next round. -/
theorem loop_induction {motive : Loop -> Prop}
    (finished : forall l, ¬ l.unfinished = true -> motive l)
    (unfinished : forall l, l.unfinished = true -> motive l.next -> motive l) (l : Loop) :
    motive l := by
  by_cases h : l.unfinished = true
  · exact unfinished l h (loop_induction finished unfinished l.next)
  · exact finished l h
termination_by left l
decreasing_by exact left_next_lt h

theorem hamal_of_unfinished (h : l.unfinished = true) (hpiece : piece l m = some m') :
    hamal piece l m = hamal piece l.next m' := by
  rw [hamal, dif_pos h, hpiece]
  rfl

theorem hamal_of_finished (h : ¬ l.unfinished = true) : hamal piece l m = some m := by
  rw [hamal, dif_neg h]

theorem left_of_finished (h : ¬ l.unfinished = true) : left l = 0 := by
  have hle := Nat.le_of_not_lt (fun hlt => h (unfinished_iff.mpr hlt))
  exact Nat.sub_eq_zero_of_le hle

/-- The piece comes first, and then what is left after it. -/
theorem sendSize_add_left (h : l.unfinished = true) :
    l.sendSize.toNat + left l.next = left l := by
  have hsend := toNat_sendSize h
  rw [left_next h]
  omega

theorem left_lt (l : Loop) : left l < 2 ^ 64 :=
  Nat.lt_of_le_of_lt (Nat.sub_le _ _) l.task.size.toNat_lt

end Rounds

/-- The operation of a piece. -/
def pieceRequest (s : Socket) (taskID : Nat) (nodeID : UInt16) (l : Loop) (opcode : Opcode) :
    WorkRequest where
  wrID := 0
  opcode := opcode
  localAddr := sendPoolAddr s.mm taskID
  remoteAddr := l.task.bufferReceive + l.totalSizeSend + s.registeredMemory nodeID
  length := l.sendSize

def inboundHamal (s : Socket) (device : Device) (taskID : Nat) (nodeID : UInt16)
    (task : TransferTask) (m : Machine) : Option (Bool × Machine) :=
  (hamal (inboundPiece s device taskID nodeID) ⟨task, 0⟩ m).map (fun m => (true, m))

def outboundHamal (s : Socket) (device : Device) (taskID : Nat) (nodeID : UInt16)
    (task : TransferTask) (m : Machine) : Option (Bool × Machine) :=
  (hamal (outboundPiece s device taskID nodeID) ⟨task, 0⟩ m).map (fun m => (true, m))

/-!
# Whole transfers
-/

/-- What {lit}`DataTransferWorker` does with a task. -/
def dataTransferWorker (s : Socket) (device : Device) (nodeID : UInt16) (id : Nat)
    (task : TransferTask) (m : Machine) : Option (Bool × Machine) :=
  if task.opType then outboundHamal s device id nodeID task m
  else inboundHamal s device id nodeID task m

/--
Wait until all tasks are done.  Their queue pairs are different, so that the order in
which they are taken does not matter to whether they all end.
-/
def runTasks (s : Socket) (device : Device) (nodeID : UInt16) :
    List (Nat × TransferTask) -> Machine -> Option Machine
  | [], m => some m
  | (id, task) :: rest, m =>
      (dataTransferWorker s device nodeID id task m).bind (fun (_, m) =>
        runTasks s device nodeID rest m)

def remoteRead (s : Socket) (device : Device) (bufferSend : UInt64) (nodeID : UInt16)
    (bufferReceive size : UInt64) (m : Machine) : Option (Bool × Machine) :=
  (runTasks s device nodeID (remoteReadTasks bufferSend bufferReceive size) m).map
    (fun m => (true, m))

def remoteWrite (s : Socket) (device : Device) (bufferSend : UInt64) (nodeID : UInt16)
    (bufferReceive size : UInt64) (m : Machine) : Option (Bool × Machine) :=
  (runTasks s device nodeID (remoteWriteTasks bufferSend bufferReceive size) m).map
    (fun m => (true, m))

end Transfer
end Net
end SpongeBob
