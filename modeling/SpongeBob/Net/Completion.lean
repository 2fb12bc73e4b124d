import SpongeBob.Net.Handshake
import Mathlib.Logic.Function.Basic

/-!
# Data transfers and their completions

A client moves large data with several workers.  Each goes through its part in pieces
of the size of its staging buffer: it posts an operation on a queue pair of its own,
waits until there is an entry in the completion queue of the peer, and goes on.  The
entries do not say whose operation has completed.
-/

namespace SpongeBob
namespace Net
namespace Completion

open Foundation

/-!
# Completion queues
-/

/-- What {lit}`CreateQueuePair` reads and sets in the socket. -/
structure QueueChoice where
  isServer : Bool
  serverCount : Nat
  cqNum : Nat
  cqPtr : Nat
deriving DecidableEq, Repr

/-- The completion queue of each queue pair of a peer, and the one that is polled. -/
structure PeerQueues where
  nodeID : UInt16
  registeredMemory : UInt64
  sendCQ : Nat -> Nat
  recvCQ : Nat -> Nat
  cq : Nat

def PeerQueues.use (peer : PeerQueues) (offset cq : Nat) : PeerQueues :=
  { peer with
    sendCQ := Function.update peer.sendCQ offset cq
    recvCQ := Function.update peer.recvCQ offset cq
    cq := cq }

def createQueuePair (choice : QueueChoice) (peer : PeerQueues) (offset : Nat) :
    QueueChoice × PeerQueues :=
  if choice.isServer ∧ 0 < peer.nodeID.toNat ∧ peer.nodeID.toNat ≤ choice.serverCount then
    (choice, peer.use offset 0)
  else if choice.isServer then
    let cqPtr :=
      if offset = 0 then
        if choice.cqNum ≤ choice.cqPtr + 1 then 1 else choice.cqPtr + 1
      else choice.cqPtr
    ({ choice with cqPtr := cqPtr }, peer.use offset cqPtr)
  else
    ({ choice with
        cqPtr := if choice.cqNum ≤ choice.cqPtr + 1 then 0 else choice.cqPtr + 1 },
      peer.use offset choice.cqPtr)

/-- Create the queue pairs {lit}`0` to {lit}`count - 1` of a peer. -/
def createQueuePairs (choice : QueueChoice) (peer : PeerQueues) :
    Nat -> QueueChoice × PeerQueues
  | 0 => (choice, peer)
  | count + 1 =>
      let (choice, peer) := createQueuePairs choice peer count
      createQueuePair choice peer count

/-- The client creates one completion queue. -/
def clientChoice (serverCount : Nat) : QueueChoice where
  isServer := false
  serverCount := serverCount
  cqNum := 1
  cqPtr := 0

/-- A peer of the client whose queue pairs have been created. -/
def clientPeer (serverCount : Nat) (peer : PeerQueues) : PeerQueues :=
  (createQueuePairs (clientChoice serverCount) peer qpNumber).2

/-!
# Workers
-/

inductive Opcode where
  | rdmaRead
  | rdmaWrite
deriving DecidableEq, Repr

structure WorkRequest where
  wrID : Nat
  opcode : Opcode
  localAddr : UInt64
  remoteAddr : UInt64
  length : UInt64
deriving DecidableEq, Repr

/-- An entry of a completion queue. -/
structure Entry where
  wrID : Nat
  qp : Nat
deriving DecidableEq, Repr

/-- A part of a transfer on the one peer; {lit}`opType` holds for a write. -/
structure TransferTask where
  opType : Bool
  size : UInt64
  bufferSend : UInt64
  bufferReceive : UInt64
deriving DecidableEq, Repr

/-- The variables of the loop in {lit}`InboundHamal` and {lit}`OutboundHamal`. -/
structure Loop where
  task : TransferTask
  totalSizeSend : UInt64
deriving DecidableEq, Repr

def sendPoolSize : UInt64 := 1024 * 1024

def sendPoolAddr (mm : UInt64) (taskID : Nat) : UInt64 :=
  mm + 4 * 1024 + UInt64.ofNat taskID * 1024 * 1024

namespace Loop

def sendSize (l : Loop) : UInt64 :=
  if l.task.size - l.totalSizeSend ≥ sendPoolSize then sendPoolSize
  else l.task.size - l.totalSizeSend

def next (l : Loop) : Loop :=
  { l with totalSizeSend := l.totalSizeSend + l.sendSize }

def unfinished (l : Loop) : Bool :=
  decide (l.totalSizeSend < l.task.size)

/-- The operation that is posted for a piece. -/
def request (l : Loop) (opcode : Opcode) (mm : UInt64) (taskID : Nat)
    (registeredMemory : UInt64) : WorkRequest where
  wrID := 0
  opcode := opcode
  localAddr := sendPoolAddr mm taskID
  remoteAddr := l.task.bufferReceive + l.totalSizeSend + registeredMemory
  length := l.sendSize

end Loop

/-- Where a worker is. -/
inductive Phase where
  | idle
  | looping (l : Loop)
  | filled (l : Loop)
  | polling (l : Loop)
  | polled (l : Loop)
deriving DecidableEq, Repr

/-- Whether the worker is inside {lit}`PollCompletion`. -/
def Phase.inPoll : Phase -> Bool
  | polling _ => true
  | _ => false

/-- Whether the next step of the worker posts an operation. -/
def Phase.posts : Phase -> Bool
  | looping l => l.unfinished && !l.task.opType
  | filled _ => true
  | _ => false

abbrev WorkerID := Fin workerNumber

instance : NeZero workerNumber := ⟨by decide⟩

/-- The queue pair on which a worker posts. -/
def queuePair (w : WorkerID) : Nat := w.val + 1

structure State where
  peer : PeerQueues
  workers : WorkerID -> Phase
  /-- The operations of each queue pair that have not completed. -/
  pending : Nat -> List WorkRequest
  queues : Nat -> List Entry

namespace State

def setPhase (s : State) (w : WorkerID) (phase : Phase) : State :=
  { s with workers := Function.update s.workers w phase }

def postSend (s : State) (qp : Nat) (r : WorkRequest) : State :=
  { s with pending := Function.update s.pending qp (s.pending qp ++ [r]) }

/-- The operation {lit}`r` on a queue pair completes, and {lit}`rest` remain. -/
def complete (s : State) (qp : Nat) (r : WorkRequest) (rest : List WorkRequest) : State :=
  { s with
    pending := Function.update s.pending qp rest
    queues := Function.update s.queues (s.peer.sendCQ qp)
      (s.queues (s.peer.sendCQ qp) ++ [⟨r.wrID, qp⟩]) }

/-- Take the first entry of the queue of the peer, or keep polling. -/
def pollCompletion (s : State) : Option State :=
  match s.queues s.peer.cq with
  | [] => none
  | _ :: rest => some { s with queues := Function.update s.queues s.peer.cq rest }

end State

inductive Event where
  | take (w : WorkerID) (task : TransferTask)
  | advance (w : WorkerID)
  | complete (qp : Nat)
deriving DecidableEq, Repr

/--
One step of a worker or of the network card.  The output is the worker whose staging
buffer the step copies from or fills.  {lit}`WriteTest` is never set, so the writes that
it would add do not appear.
-/
def step (mm : UInt64) (s : State) : Event -> Except Unit (Option WorkerID × State)
  | Event.take w task =>
      match s.workers w with
      | Phase.idle => Except.ok (none, s.setPhase w (Phase.looping ⟨task, 0⟩))
      | _ => Except.error ()
  | Event.advance w =>
      match s.workers w with
      | Phase.idle => Except.error ()
      | Phase.looping l =>
          if l.unfinished then
            if l.task.opType then
              Except.ok (some w, s.setPhase w (Phase.filled l))
            else
              Except.ok (none,
                (s.postSend (queuePair w)
                  (l.request Opcode.rdmaRead mm w s.peer.registeredMemory)).setPhase w
                    (Phase.polling l))
          else
            Except.ok (none, s.setPhase w Phase.idle)
      | Phase.filled l =>
          Except.ok (none,
            (s.postSend (queuePair w)
              (l.request Opcode.rdmaWrite mm w s.peer.registeredMemory)).setPhase w
                (Phase.polling l))
      | Phase.polling l =>
          match s.pollCompletion with
          | none => Except.error ()
          | some s =>
              Except.ok (none,
                s.setPhase w (if l.task.opType then Phase.looping l.next else Phase.polled l))
      | Phase.polled l => Except.ok (some w, s.setPhase w (Phase.looping l.next))
  | Event.complete qp =>
      match s.pending qp with
      | [] => Except.error ()
      | r :: rest => Except.ok (none, s.complete qp r rest)

def init (serverCount : Nat) (peer : PeerQueues) : State where
  peer := clientPeer serverCount peer
  workers := fun _ => Phase.idle
  pending := fun _ => []
  queues := fun _ => []

/-- When the step uses a staging buffer, no operation of its worker is outstanding. -/
def UsesOwn (mm : UInt64) (s : State) (event : Event) : Prop :=
  forall w s', step mm s event = Except.ok (some w, s') -> s.pending (queuePair w) = []

/-- When the step posts an operation, no other worker waits for one. -/
def Alone (s : State) : Event -> Prop
  | Event.advance w =>
      (s.workers w).posts = true -> forall v, v ≠ w -> (s.workers v).inPoll = false
  | _ => True

/-!
# What each step does
-/

/-- The steps by what they do to the operations and the completion queue. -/
inductive Moves (s : State) : Event -> Option WorkerID -> State -> Prop where
  | stays {event : Event} {out : Option WorkerID} {w : WorkerID} {phase : Phase}
      (hphase : (s.workers w).inPoll = false) (hnext : phase.inPoll = false)
      (huse : forall v, out = some v -> v = w) :
      Moves s event out (s.setPhase w phase)
  | posts {w : WorkerID} {l : Loop} {r : WorkRequest}
      (hposts : (s.workers w).posts = true) :
      Moves s (Event.advance w) none ((s.postSend (queuePair w) r).setPhase w (Phase.polling l))
  | polls {w : WorkerID} {phase : Phase} {c : Entry} {rest : List Entry}
      (hphase : (s.workers w).inPoll = true) (hqueue : s.queues s.peer.cq = c :: rest)
      (hnext : phase.inPoll = false) :
      Moves s (Event.advance w) none
        ({ s with queues := Function.update s.queues s.peer.cq rest }.setPhase w phase)
  | completes {qp : Nat} {r : WorkRequest} {rest : List WorkRequest}
      (hpending : s.pending qp = r :: rest) :
      Moves s (Event.complete qp) none (s.complete qp r rest)

theorem Phase.inPoll_of_posts {phase : Phase} (hposts : phase.posts = true) :
    phase.inPoll = false := by
  cases phase with
  | polling l => cases hposts
  | idle => rfl
  | looping l => rfl
  | filled l => rfl
  | polled l => rfl

theorem pollCompletion_eq_some {s s' : State} (h : s.pollCompletion = some s') :
    exists c rest, s.queues s.peer.cq = c :: rest ∧
      s' = { s with queues := Function.update s.queues s.peer.cq rest } := by
  unfold State.pollCompletion at h
  cases hqueue : s.queues s.peer.cq with
  | nil =>
      rw [hqueue] at h
      cases h
  | cons c rest =>
      rw [hqueue] at h
      exact ⟨c, rest, rfl, (Option.some.inj h).symm⟩

theorem step_moves {mm : UInt64} {s s' : State} {event : Event} {out : Option WorkerID}
    (hstep : step mm s event = Except.ok (out, s')) : Moves s event out s' := by
  cases event with
  | take w task =>
      simp only [step] at hstep
      cases hphase : s.workers w with
      | idle =>
          rw [hphase] at hstep
          cases hstep
          exact Moves.stays (by rw [hphase]; rfl) rfl (fun _ h => nomatch h)
      | looping l | filled l | polling l | polled l =>
          rw [hphase] at hstep
          cases hstep
  | advance w =>
      simp only [step] at hstep
      cases hphase : s.workers w with
      | idle =>
          rw [hphase] at hstep
          cases hstep
      | looping l =>
          simp only [hphase] at hstep
          split at hstep
          · rename_i hunfinished
            split at hstep
            · cases hstep
              exact Moves.stays (by rw [hphase]; rfl) rfl (fun _ h => (Option.some.inj h).symm)
            · rename_i hread
              cases hstep
              apply Moves.posts
              rw [hphase]
              simp [Phase.posts, hunfinished, hread]
          · cases hstep
            exact Moves.stays (by rw [hphase]; rfl) rfl (fun _ h => nomatch h)
      | filled l =>
          rw [hphase] at hstep
          cases hstep
          exact Moves.posts (by rw [hphase]; rfl)
      | polling l =>
          simp only [hphase] at hstep
          split at hstep
          · cases hstep
          · rename_i s1 hpoll
            rcases pollCompletion_eq_some hpoll with ⟨c, rest, hqueue, rfl⟩
            cases hstep
            refine Moves.polls (by rw [hphase]; rfl) hqueue ?_
            split <;> rfl
      | polled l =>
          rw [hphase] at hstep
          cases hstep
          exact Moves.stays (by rw [hphase]; rfl) rfl (fun _ h => (Option.some.inj h).symm)
  | complete qp =>
      simp only [step] at hstep
      split at hstep
      · cases hstep
      · rename_i r rest hpending
        cases hstep
        exact Moves.completes hpending

end Completion
end Net
end SpongeBob
