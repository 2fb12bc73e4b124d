import SpongeBob.Foundation.Agents
import SpongeBob.Net.ChunkedCopy

/-!
# Workers at the same time

The statements of {lit}`InboundHamal` and {lit}`OutboundHamal` one by one, with the
network card moving the bytes of an operation some time after it has been posted.  Each
worker has a queue pair and a staging buffer of its own, so that the workers of one
transfer, in any interleaving, do what they do one after another.  Here a worker polls for
its own operations alone; whether it does is a matter of the completion queue.
-/

namespace SpongeBob
namespace Net
namespace Workers

open Foundation
open Foundation.Bytes
open Completion (WorkerID Loop Opcode WorkRequest TransferTask sendPoolAddr)
open Transfer

/-!
# Single statements
-/

/-- Where the work on a task has come. -/
inductive Phase where
  /-- Before the test of the loop. -/
  | looping (l : Loop)
  /-- The bytes of a write are in the staging buffer. -/
  | filled (l : Loop)
  /-- The operation has been posted. -/
  | posted (l : Loop)
  /-- The card has done with the operation. -/
  | moved (l : Loop)
  /-- The bytes of a read are in the staging buffer, and the polling has ended. -/
  | polled (l : Loop)
  /-- After the loop. -/
  | finished
deriving DecidableEq, Repr

/-- The operation that the pieces of a loop make. -/
def opcode (l : Loop) : Opcode :=
  if l.task.opType then Opcode.rdmaWrite else Opcode.rdmaRead

section Statements

variable (s : Socket) (device : Device) (nodeID : UInt16) (taskID : Nat)

def request (l : Loop) : WorkRequest :=
  pieceRequest s taskID nodeID l (opcode l)

/-- {lit}`ibv_post_send`: the operation is on the queue pair, and nothing has moved. -/
def post (l : Loop) (m : Machine) : Machine :=
  m.record (nodeID, taskID + 1) (request s nodeID taskID l)

/-- The outcome of the last operation on the queue pair. -/
def lastOutcome (m : Machine) : Transfer.Outcome :=
  device (nodeID, taskID + 1) ((m.requests (nodeID, taskID + 1)).length - 1)

/-- The card moves the bytes of the operation, unless it fails. -/
def card (l : Loop) (m : Machine) : Machine :=
  let outcome := lastOutcome device nodeID taskID m
  if outcome.posted && outcome.moved then m.carryOut nodeID (request s nodeID taskID l) else m

/-- The next statement of the work on a task, or the next work of the card for it. -/
def micro : Phase -> Machine -> Option (Phase × Machine)
  | Phase.looping l, m =>
      if l.unfinished then
        if l.task.opType then
          some (Phase.filled l, m.memcpy (sendPoolAddr s.mm taskID)
            (l.task.bufferSend + l.totalSizeSend) l.sendSize)
        else some (Phase.posted l, post s nodeID taskID l m)
      else some (Phase.finished, m)
  | Phase.filled l, m => some (Phase.posted l, post s nodeID taskID l m)
  | Phase.posted l, m => some (Phase.moved l, card s device nodeID taskID l m)
  | Phase.moved l, m =>
      (pollCompletion device (nodeID, taskID + 1) m).map (fun _ =>
        (if l.task.opType then Phase.looping l.next else Phase.polled l, m))
  | Phase.polled l, m =>
      some (Phase.looping l.next, m.memcpy (l.task.bufferSend + l.totalSizeSend)
        (sendPoolAddr s.mm taskID) l.sendSize)
  | Phase.finished, _ => none

/-!
# What is left to do
-/

def hamalOf (l : Loop) : Machine -> Option Machine :=
  hamal (if l.task.opType then outboundPiece s device taskID nodeID
    else inboundPiece s device taskID nodeID) l

/-- What remains of the call of {lit}`InboundHamal` or {lit}`OutboundHamal`. -/
def remaining : Phase -> Machine -> Option Machine
  | Phase.looping l, m => hamalOf s device nodeID taskID l m
  | Phase.filled l, m => afterPost l (post s nodeID taskID l m)
  | Phase.posted l, m => afterPost l m
  | Phase.moved l, m => afterCard l m
  | Phase.polled l, m => afterPoll l m
  | Phase.finished, m => some m
where
  afterPoll (l : Loop) (m : Machine) : Option Machine :=
    hamalOf s device nodeID taskID l.next (m.memcpy (l.task.bufferSend + l.totalSizeSend)
      (sendPoolAddr s.mm taskID) l.sendSize)
  afterCard (l : Loop) (m : Machine) : Option Machine :=
    (pollCompletion device (nodeID, taskID + 1) m).bind (fun _ =>
      if l.task.opType then hamalOf s device nodeID taskID l.next m else afterPoll l m)
  afterPost (l : Loop) (m : Machine) : Option Machine :=
    afterCard l (card s device nodeID taskID l m)

end Statements

section Remaining

variable {s : Socket} {device : Device} {nodeID : UInt16} {taskID : Nat} {l : Loop}
  {m m' : Machine} {p p' : Phase}

/-- The card's work does not depend on the list of operations. -/
theorem carryOut_record (q : QueuePair) (r : WorkRequest) :
    (m.record q r).carryOut nodeID r = (m.carryOut nodeID r).record q r := by
  unfold Machine.carryOut
  cases r.opcode with
  | rdmaRead => rfl
  | rdmaWrite => rfl

/-- Posting and the card's work are what {lit}`postSend` is. -/
theorem card_post : card s device nodeID taskID l (post s nodeID taskID l m) =
    (m.postSend device (nodeID, taskID + 1) (request s nodeID taskID l)).2 := by
  have hlast : lastOutcome device nodeID taskID (post s nodeID taskID l m) =
      m.nextOutcome device (nodeID, taskID + 1) := by
    unfold lastOutcome post Machine.record Machine.nextOutcome
    dsimp only
    rw [Function.update_self, List.length_append, List.length_singleton, Nat.add_sub_cancel]
  unfold card Machine.postSend
  dsimp only
  rw [hlast]
  unfold post
  rw [carryOut_record]

/-- A round of the loop of a write, statement by statement. -/
theorem hamalOf_write (h : l.unfinished = true) (hwrite : l.task.opType = true) :
    hamalOf s device nodeID taskID l m = remaining s device nodeID taskID (Phase.filled l)
      (m.memcpy (sendPoolAddr s.mm taskID) (l.task.bufferSend + l.totalSizeSend) l.sendSize) := by
  have hnext : forall m, hamalOf s device nodeID taskID l.next m =
      hamal (outboundPiece s device taskID nodeID) l.next m := by
    intro m
    exact congrArg (fun piece => hamal piece l.next m) (if_pos hwrite)
  rw [remaining, remaining.afterPost, remaining.afterCard, card_post, hamalOf, if_pos hwrite,
    hamal, dif_pos h]
  simp only [if_pos hwrite, hnext]
  unfold outboundPiece rdmaWrite request opcode pieceRequest
  rw [if_pos hwrite]
  dsimp only
  rw [Option.bind_assoc]
  rfl

/-- A round of the loop of a read, statement by statement. -/
theorem hamalOf_read (h : l.unfinished = true) (hread : ¬ l.task.opType = true) :
    hamalOf s device nodeID taskID l m = remaining s device nodeID taskID (Phase.posted l)
      (post s nodeID taskID l m) := by
  have hnext : forall m, hamalOf s device nodeID taskID l.next m =
      hamal (inboundPiece s device taskID nodeID) l.next m := by
    intro m
    exact congrArg (fun piece => hamal piece l.next m) (if_neg hread)
  rw [remaining, remaining.afterPost, remaining.afterCard, card_post, hamalOf, if_neg hread,
    hamal, dif_pos h]
  simp only [if_neg hread, remaining.afterPoll, hnext]
  unfold inboundPiece rdmaRead request opcode pieceRequest
  rw [if_neg hread]
  dsimp only
  rw [Option.map_eq_bind, Option.bind_assoc]
  rfl

/-- A statement does some of what is left to do. -/
theorem micro_remaining (h : micro s device nodeID taskID p m = some (p', m')) :
    remaining s device nodeID taskID p' m' = remaining s device nodeID taskID p m := by
  cases p with
  | looping l =>
      rw [micro] at h
      split at h
      · rename_i hunfinished
        split at h
        · rename_i hwrite
          cases h
          rw [← hamalOf_write hunfinished hwrite]
          rfl
        · rename_i hread
          cases h
          rw [← hamalOf_read hunfinished hread]
          rfl
      · rename_i hfinished
        cases h
        exact (hamal_of_finished hfinished).symm
  | filled l =>
      cases h
      rfl
  | posted l =>
      cases h
      rfl
  | moved l =>
      rcases Option.map_eq_some_iff.mp h with ⟨value, hpoll, heq⟩
      cases heq
      show _ = remaining.afterCard s device nodeID taskID l m
      unfold remaining.afterCard
      rw [hpoll, Option.bind_some]
      split
      · rfl
      · rfl
  | polled l =>
      cases h
      rfl
  | finished => cases h

end Remaining

/-!
# Footprints
-/

/-- Some local bytes, some bytes of the peer, and some queue pairs. -/
structure Footprint where
  localAt : UInt64 -> Prop
  remoteAt : UInt64 -> Prop
  queuePair : QueuePair -> Prop

/-- What the work on a task can change. -/
def footprint (s : Socket) (nodeID : UInt16) (taskID : Nat) (task : TransferTask) :
    Footprint where
  localAt := fun x =>
    Staged s taskID x ∨ (task.opType = false ∧ InRange task.bufferSend task.size.toNat x)
  remoteAt := fun x =>
    task.opType = true ∧ InRange (remoteStart s nodeID task) task.size.toNat x
  queuePair := fun q => q = (nodeID, taskID + 1)

/-- The machines are the same off a footprint. -/
structure SameOff (nodeID : UInt16) (f : Footprint) (m m' : Machine) : Prop where
  memory : forall x, ¬ f.localAt x -> m.memory x = m'.memory x
  remote : forall x, ¬ f.remoteAt x -> m.remote nodeID x = m'.remote nodeID x
  peers : forall node, node ≠ nodeID -> m.remote node = m'.remote node
  requests : forall q, ¬ f.queuePair q -> m.requests q = m'.requests q

/-- What the work on a task uses is not in the footprint. -/
structure Uses (s : Socket) (nodeID : UInt16) (taskID : Nat) (task : TransferTask)
    (f : Footprint) : Prop where
  staged : forall x, Staged s taskID x -> ¬ f.localAt x
  buffer : forall x, InRange task.bufferSend task.size.toNat x -> ¬ f.localAt x
  remote : forall x, InRange (remoteStart s nodeID task) task.size.toNat x -> ¬ f.remoteAt x
  queuePair : ¬ f.queuePair (nodeID, taskID + 1)

/-- The work is on the task, at a place where it can be in this phase. -/
def Phase.Within (task : TransferTask) : Phase -> Prop
  | looping l => l.task = task ∧ l.totalSizeSend.toNat ≤ l.task.size.toNat
  | filled l => l.task = task ∧ l.unfinished = true
  | posted l => l.task = task ∧ l.unfinished = true
  | moved l => l.task = task ∧ l.unfinished = true
  | polled l => l.task = task ∧ l.unfinished = true ∧ task.opType = false
  | finished => True

section Footprints

variable {s : Socket} {device : Device} {nodeID : UInt16} {taskID : Nat} {task : TransferTask}
  {l : Loop} {f : Footprint} {m m' m1 m2 : Machine} {p p' : Phase}

theorem SameOff.refl : SameOff nodeID f m m :=
  ⟨fun _ _ => rfl, fun _ _ => rfl, fun _ _ => rfl, fun _ _ => rfl⟩

theorem SameOff.symm (h : SameOff nodeID f m m') : SameOff nodeID f m' m where
  memory := fun x hx => (h.memory x hx).symm
  remote := fun x hx => (h.remote x hx).symm
  peers := fun node hnode => (h.peers node hnode).symm
  requests := fun q hq => (h.requests q hq).symm

theorem SameOff.trans (h : SameOff nodeID f m m1) (h' : SameOff nodeID f m1 m') :
    SameOff nodeID f m m' where
  memory := fun x hx => (h.memory x hx).trans (h'.memory x hx)
  remote := fun x hx => (h.remote x hx).trans (h'.remote x hx)
  peers := fun node hnode => (h.peers node hnode).trans (h'.peers node hnode)
  requests := fun q hq => (h.requests q hq).trans (h'.requests q hq)

/-- The bytes of a piece are bytes of the range. -/
theorem inRange_piece (h : l.unfinished = true) {start x : UInt64}
    (hx : InRange (start + l.totalSizeSend) l.sendSize.toNat x) :
    InRange start l.task.size.toNat x := by
  have hsum := sendSize_add_left h
  have hlt := unfinished_iff.mp h
  exact inRange_of_left (Nat.le_of_lt hlt) (hx.mono (by omega))

theorem staged_piece (h : l.unfinished = true) {x : UInt64}
    (hx : InRange (sendPoolAddr s.mm taskID) l.sendSize.toNat x) : Staged s taskID x :=
  hx.mono (toNat_sendSize_le h)

/-!
## Single operations
-/

theorem SameOff.memcpy (h : SameOff nodeID f m m') {dst src n : UInt64}
    (hsrc : forall x, InRange src n.toNat x -> ¬ f.localAt x) :
    SameOff nodeID f (m.memcpy dst src n) (m'.memcpy dst src n) where
  memory := by
    intro x hx
    show copy _ _ _ _ _ x = copy _ _ _ _ _ x
    by_cases hdst : InRange dst n.toNat x
    · rw [copy_of_inRange hdst, copy_of_inRange hdst]
      exact h.memory _ (hsrc _ (inRange_add hdst))
    · rw [copy_of_not_inRange hdst, copy_of_not_inRange hdst]
      exact h.memory x hx
  remote := h.remote
  peers := h.peers
  requests := h.requests

theorem sameOff_memcpy {dst src n : UInt64}
    (hdst : forall x, InRange dst n.toNat x -> f.localAt x) :
    SameOff nodeID f m (m.memcpy dst src n) where
  memory := by
    intro x hx
    exact (copy_of_not_inRange (fun hin => hx (hdst x hin))).symm
  remote := fun _ _ => rfl
  peers := fun _ _ => rfl
  requests := fun _ _ => rfl

theorem SameOff.post (h : SameOff nodeID f m m') (hq : ¬ f.queuePair (nodeID, taskID + 1)) :
    SameOff nodeID f (post s nodeID taskID l m) (post s nodeID taskID l m') where
  memory := h.memory
  remote := h.remote
  peers := h.peers
  requests := by
    intro q hne
    show Function.update _ _ _ q = Function.update _ _ _ q
    by_cases heq : q = (nodeID, taskID + 1)
    · subst heq
      rw [Function.update_self, Function.update_self, h.requests _ hq]
    · rw [Function.update_of_ne heq, Function.update_of_ne heq]
      exact h.requests q hne

theorem sameOff_post (hq : f.queuePair (nodeID, taskID + 1)) :
    SameOff nodeID f m (post s nodeID taskID l m) where
  memory := fun _ _ => rfl
  remote := fun _ _ => rfl
  peers := fun _ _ => rfl
  requests := by
    intro q hne
    refine (Function.update_of_ne ?_ _ _).symm
    rintro rfl
    exact hne hq

theorem SameOff.carryOut (h : SameOff nodeID f m m') {r : WorkRequest}
    (hread : r.opcode = Opcode.rdmaRead ->
      forall x, InRange r.remoteAddr r.length.toNat x -> ¬ f.remoteAt x)
    (hwrite : r.opcode = Opcode.rdmaWrite ->
      forall x, InRange r.localAddr r.length.toNat x -> ¬ f.localAt x) :
    SameOff nodeID f (m.carryOut nodeID r) (m'.carryOut nodeID r) := by
  unfold Machine.carryOut
  cases hopcode : r.opcode with
  | rdmaRead =>
      constructor
      · intro x hx
        show copy _ _ _ _ _ x = copy _ _ _ _ _ x
        by_cases hin : InRange r.localAddr r.length.toNat x
        · rw [copy_of_inRange hin, copy_of_inRange hin]
          exact h.remote _ (hread hopcode _ (inRange_add hin))
        · rw [copy_of_not_inRange hin, copy_of_not_inRange hin]
          exact h.memory x hx
      · exact h.remote
      · exact h.peers
      · exact h.requests
  | rdmaWrite =>
      constructor
      · exact h.memory
      · intro x hx
        show (Function.update m.remote nodeID _ : UInt16 -> Memory) nodeID x =
          (Function.update m'.remote nodeID _ : UInt16 -> Memory) nodeID x
        rw [Function.update_self, Function.update_self]
        by_cases hin : InRange r.remoteAddr r.length.toNat x
        · rw [copy_of_inRange hin, copy_of_inRange hin]
          exact h.memory _ (hwrite hopcode _ (inRange_add hin))
        · rw [copy_of_not_inRange hin, copy_of_not_inRange hin]
          exact h.remote x hx
      · intro node hnode
        show Function.update _ _ _ node = Function.update _ _ _ node
        rw [Function.update_of_ne hnode, Function.update_of_ne hnode]
        exact h.peers node hnode
      · exact h.requests

theorem sameOff_carryOut {r : WorkRequest}
    (hread : r.opcode = Opcode.rdmaRead ->
      forall x, InRange r.localAddr r.length.toNat x -> f.localAt x)
    (hwrite : r.opcode = Opcode.rdmaWrite ->
      forall x, InRange r.remoteAddr r.length.toNat x -> f.remoteAt x) :
    SameOff nodeID f m (m.carryOut nodeID r) := by
  unfold Machine.carryOut
  cases hopcode : r.opcode with
  | rdmaRead =>
      constructor
      · intro x hx
        exact (copy_of_not_inRange (fun hin => hx (hread hopcode x hin))).symm
      · exact fun _ _ => rfl
      · exact fun _ _ => rfl
      · exact fun _ _ => rfl
  | rdmaWrite =>
      constructor
      · exact fun _ _ => rfl
      · intro x hx
        show _ = (Function.update m.remote nodeID _ : UInt16 -> Memory) nodeID x
        rw [Function.update_self]
        exact (copy_of_not_inRange (fun hin => hx (hwrite hopcode x hin))).symm
      · intro node hnode
        exact (Function.update_of_ne hnode _ _).symm
      · exact fun _ _ => rfl

/-!
## Statements
-/

theorem remoteAddr_request :
    (request s nodeID taskID l).remoteAddr = remoteStart s nodeID l.task + l.totalSizeSend :=
  remoteAddr_eq (opcode l)

theorem opcode_eq_write (h : (request s nodeID taskID l).opcode = Opcode.rdmaWrite) :
    l.task.opType = true := by
  cases hop : l.task.opType with
  | true => rfl
  | false =>
      unfold request pieceRequest opcode at h
      rw [hop] at h
      cases h

/-- A statement changes nothing off the footprint of its task. -/
theorem micro_sameOff (hwithin : p.Within task)
    (h : micro s device nodeID taskID p m = some (p', m')) :
    SameOff nodeID (footprint s nodeID taskID task) m m' := by
  have hqueue : (footprint s nodeID taskID task).queuePair (nodeID, taskID + 1) := rfl
  cases p with
  | looping l =>
      rcases hwithin with ⟨rfl, _⟩
      rw [micro] at h
      split at h
      · rename_i hunfinished
        split at h
        · cases h
          apply sameOff_memcpy
          intro x hx
          exact Or.inl (staged_piece hunfinished hx)
        · cases h
          exact sameOff_post hqueue
      · cases h
        exact SameOff.refl
  | filled l =>
      cases h
      exact sameOff_post hqueue
  | posted l =>
      rcases hwithin with ⟨rfl, hunfinished⟩
      cases h
      unfold card
      dsimp only
      split
      · apply sameOff_carryOut
        · intro _ x hx
          exact Or.inl (staged_piece hunfinished hx)
        · intro hopcode x hx
          constructor
          · exact opcode_eq_write hopcode
          · rw [remoteAddr_request] at hx
            exact inRange_piece hunfinished hx
      · exact SameOff.refl
  | moved l =>
      rcases Option.map_eq_some_iff.mp h with ⟨value, _, heq⟩
      cases heq
      exact SameOff.refl
  | polled l =>
      rcases hwithin with ⟨rfl, hunfinished, hread⟩
      cases h
      apply sameOff_memcpy
      intro x hx
      exact Or.inr ⟨hread, inRange_piece hunfinished hx⟩
  | finished => cases h

/-- A statement depends on nothing but what its task uses. -/
theorem micro_of_sameOff (hwithin : p.Within task) (huses : Uses s nodeID taskID task f)
    (hsame : SameOff nodeID f m m1) (h : micro s device nodeID taskID p m = some (p', m')) :
    exists m1', micro s device nodeID taskID p m1 = some (p', m1') ∧
      SameOff nodeID f m' m1' := by
  have hrequests := hsame.requests _ huses.queuePair
  cases p with
  | looping l =>
      rcases hwithin with ⟨rfl, _⟩
      rw [micro] at h ⊢
      split at h
      · rename_i hunfinished
        rw [if_pos hunfinished]
        split at h
        · rename_i hwrite
          rw [if_pos hwrite]
          cases h
          refine ⟨_, rfl, hsame.memcpy ?_⟩
          intro x hx
          exact huses.buffer x (inRange_piece hunfinished hx)
        · rename_i hread
          rw [if_neg hread]
          cases h
          exact ⟨_, rfl, hsame.post huses.queuePair⟩
      · rename_i hfinished
        rw [if_neg hfinished]
        cases h
        exact ⟨_, rfl, hsame⟩
  | filled l =>
      cases h
      exact ⟨_, rfl, hsame.post huses.queuePair⟩
  | posted l =>
      rcases hwithin with ⟨rfl, hunfinished⟩
      cases h
      refine ⟨_, rfl, ?_⟩
      unfold card lastOutcome
      dsimp only
      rw [hrequests]
      split
      · apply hsame.carryOut
        · intro _ x hx
          rw [remoteAddr_request] at hx
          exact huses.remote x (inRange_piece hunfinished hx)
        · intro _ x hx
          exact huses.staged x (staged_piece hunfinished hx)
      · exact hsame
  | moved l =>
      rcases Option.map_eq_some_iff.mp h with ⟨value, hpoll, heq⟩
      cases heq
      refine ⟨m1, ?_, hsame⟩
      unfold pollCompletion at hpoll
      rw [micro]
      unfold pollCompletion
      rw [← hrequests, hpoll]
      rfl
  | polled l =>
      rcases hwithin with ⟨rfl, hunfinished, _⟩
      cases h
      refine ⟨_, rfl, hsame.memcpy ?_⟩
      intro x hx
      exact huses.staged x (staged_piece hunfinished hx)
  | finished => cases h

theorem micro_within (hwithin : p.Within task)
    (h : micro s device nodeID taskID p m = some (p', m')) : p'.Within task := by
  cases p with
  | looping l =>
      rcases hwithin with ⟨rfl, _⟩
      rw [micro] at h
      split at h
      · rename_i hunfinished
        split at h
        · cases h
          exact ⟨rfl, hunfinished⟩
        · cases h
          exact ⟨rfl, hunfinished⟩
      · cases h
        trivial
  | filled l =>
      cases h
      exact hwithin
  | posted l =>
      cases h
      exact hwithin
  | moved l =>
      rcases hwithin with ⟨rfl, hunfinished⟩
      rcases Option.map_eq_some_iff.mp h with ⟨value, _, heq⟩
      cases heq
      split
      · exact ⟨rfl, next_le hunfinished⟩
      · rename_i hread
        exact ⟨rfl, hunfinished, Bool.eq_false_iff.mpr hread⟩
  | polled l =>
      rcases hwithin with ⟨rfl, hunfinished, _⟩
      cases h
      exact ⟨rfl, next_le hunfinished⟩
  | finished => cases h

end Footprints

/-!
# Teams
-/

/-- The workers of a transfer, each in the work on its task. -/
structure Team where
  machine : Machine
  phase : WorkerID -> Phase

/-- A worker, or the card for it, goes on. -/
def advance (s : Socket) (device : Device) (nodeID : UInt16) (i : WorkerID) (t : Team) :
    Option Team :=
  (micro s device nodeID i (t.phase i) t.machine).map (fun (p, m) =>
    ⟨m, Function.update t.phase i p⟩)

/-- All workers before the first test of their loops. -/
def Team.start (task : WorkerID -> TransferTask) (m : Machine) : Team where
  machine := m
  phase := fun i => Phase.looping ⟨task i, 0⟩

/-- What the other workers can change. -/
def othersFootprint (s : Socket) (nodeID : UInt16) (task : WorkerID -> TransferTask)
    (i : WorkerID) : Footprint where
  localAt := fun x => exists j, j ≠ i ∧ (footprint s nodeID j (task j)).localAt x
  remoteAt := fun x => exists j, j ≠ i ∧ (footprint s nodeID j (task j)).remoteAt x
  queuePair := fun q => exists j, j ≠ i ∧ (footprint s nodeID j (task j)).queuePair q

/-- No worker uses what others change. -/
def TasksApart (s : Socket) (nodeID : UInt16) (task : WorkerID -> TransferTask) : Prop :=
  forall i : WorkerID, Uses s nodeID i (task i) (othersFootprint s nodeID task i)

/-- A worker cannot tell the teams apart. -/
structure Agree (s : Socket) (nodeID : UInt16) (task : WorkerID -> TransferTask) (i : WorkerID)
    (t t' : Team) : Prop where
  phase : t.phase i = t'.phase i
  machine : SameOff nodeID (othersFootprint s nodeID task i) t.machine t'.machine

def Team.Within (task : WorkerID -> TransferTask) (t : Team) : Prop :=
  forall i, (t.phase i).Within (task i)

section Teams

variable {s : Socket} {device : Device} {nodeID : UInt16} {task : WorkerID -> TransferTask}
  {t t' : Team} {i : WorkerID}

theorem advance_eq_some : advance s device nodeID i t = some t' <->
    exists p m, micro s device nodeID i (t.phase i) t.machine = some (p, m) ∧
      t' = ⟨m, Function.update t.phase i p⟩ := by
  unfold advance
  rw [Option.map_eq_some_iff]
  constructor
  · rintro ⟨⟨p, m⟩, hmicro, rfl⟩
    exact ⟨p, m, hmicro, rfl⟩
  · rintro ⟨p, m, hmicro, rfl⟩
    exact ⟨⟨p, m⟩, hmicro, rfl⟩

theorem sameOff_mono {f g : Footprint} {m m' : Machine}
    (hlocal : forall x, f.localAt x -> g.localAt x)
    (hremote : forall x, f.remoteAt x -> g.remoteAt x)
    (hqueue : forall q, f.queuePair q -> g.queuePair q) (h : SameOff nodeID f m m') :
    SameOff nodeID g m m' where
  memory := fun x hx => h.memory x (mt (hlocal x) hx)
  remote := fun x hx => h.remote x (mt (hremote x) hx)
  peers := h.peers
  requests := fun q hq => h.requests q (mt (hqueue q) hq)

theorem agree_equivalence (i : WorkerID) : Equivalence (Agree s nodeID task i) where
  refl := fun _ => ⟨rfl, SameOff.refl⟩
  symm := fun h => ⟨h.phase.symm, h.machine.symm⟩
  trans := fun h h' => ⟨h.phase.trans h'.phase, h.machine.trans h'.machine⟩

/-- The workers of a transfer keep apart. -/
theorem TasksApart.agents (h : TasksApart s nodeID task) :
    Agents.Apart (advance s device nodeID) (Team.Within task) (Agree s nodeID task) where
  equivalence := agree_equivalence
  keeps := by
    intro i t t' hwithin hstep
    rcases advance_eq_some.mp hstep with ⟨p, m, hmicro, rfl⟩
    intro j
    show (Function.update t.phase i p j).Within (task j)
    by_cases hj : j = i
    · subst hj
      rw [Function.update_self]
      exact micro_within (hwithin j) hmicro
    · rw [Function.update_of_ne hj]
      exact hwithin j
  own := by
    intro i t u t' hwithin _ hagree hstep
    rcases advance_eq_some.mp hstep with ⟨p, m, hmicro, rfl⟩
    rcases micro_of_sameOff (hwithin i) (h i) hagree.machine hmicro with ⟨m1, hmicro', hsame⟩
    rw [hagree.phase] at hmicro'
    refine ⟨_, advance_eq_some.mpr ⟨p, m1, hmicro', rfl⟩, ?_, hsame⟩
    show Function.update t.phase i p i = Function.update u.phase i p i
    rw [Function.update_self, Function.update_self]
  others := by
    intro i j t t' hne hwithin hstep
    rcases advance_eq_some.mp hstep with ⟨p, m, hmicro, rfl⟩
    constructor
    · exact (Function.update_of_ne hne _ _).symm
    · refine sameOff_mono ?_ ?_ ?_ (micro_sameOff (hwithin j) hmicro)
      · exact fun x hx => ⟨j, Ne.symm hne, hx⟩
      · exact fun x hx => ⟨j, Ne.symm hne, hx⟩
      · exact fun q hq => ⟨j, Ne.symm hne, hq⟩

/-- What no worker can tell apart is the same. -/
theorem TasksApart.eq_of_agree (h : TasksApart s nodeID task)
    (hagree : forall i, Agree s nodeID task i t t') : t = t' := by
  rcases t with ⟨m, phase⟩
  rcases t' with ⟨m', phase'⟩
  have hphase : phase = phase' := funext (fun i => (hagree i).phase)
  have hmemory : m.memory = m'.memory := by
    funext x
    by_cases hany : exists j : WorkerID, (footprint s nodeID j (task j)).localAt x
    · rcases hany with ⟨j, hj⟩
      apply (hagree j).machine.memory x
      rcases hj with hstaged | ⟨_, hbuffer⟩
      · exact (h j).staged x hstaged
      · exact (h j).buffer x hbuffer
    · exact (hagree 0).machine.memory x (fun ⟨j, _, hj⟩ => hany ⟨j, hj⟩)
  have hremote : m.remote = m'.remote := by
    funext node
    by_cases hnode : node = nodeID
    · subst hnode
      funext x
      by_cases hany : exists j : WorkerID, (footprint s node j (task j)).remoteAt x
      · rcases hany with ⟨j, _, hj⟩
        exact (hagree j).machine.remote x ((h j).remote x hj)
      · exact (hagree 0).machine.remote x (fun ⟨j, _, hj⟩ => hany ⟨j, hj⟩)
    · exact (hagree 0).machine.peers node hnode
  have hrequests : m.requests = m'.requests := by
    funext q
    by_cases hany : exists j : WorkerID, (footprint s nodeID j (task j)).queuePair q
    · rcases hany with ⟨j, rfl⟩
      exact (hagree j).machine.requests _ (h j).queuePair
    · exact (hagree 0).machine.requests q (fun ⟨j, _, hj⟩ => hany ⟨j, hj⟩)
  cases m
  cases m'
  cases hphase
  cases hmemory
  cases hremote
  cases hrequests
  rfl

/-!
## One after another
-/

/-- A worker that goes on alone does some of what is left to do. -/
theorem run_alone {schedule : List WorkerID} (hall : forall j, j ∈ schedule -> j = i)
    (hrun : Agents.run (advance s device nodeID) schedule t = some t') :
    remaining s device nodeID i (t'.phase i) t'.machine =
      remaining s device nodeID i (t.phase i) t.machine ∧
    forall j, j ≠ i -> t'.phase j = t.phase j := by
  induction schedule generalizing t with
  | nil =>
      cases hrun
      exact ⟨rfl, fun _ _ => rfl⟩
  | cons j rest ih =>
      cases hall j List.mem_cons_self
      rcases Agents.run_cons.mp hrun with ⟨t1, hstep, hrest⟩
      rcases advance_eq_some.mp hstep with ⟨p, m, hmicro, rfl⟩
      rcases ih (fun k hk => hall k (List.mem_cons_of_mem _ hk)) hrest with
        ⟨hremaining, hothers⟩
      constructor
      · rw [hremaining, ← micro_remaining hmicro]
        show remaining s device nodeID i (Function.update t.phase i p i) m = _
        rw [Function.update_self]
      · intro k hk
        rw [hothers k hk]
        exact Function.update_of_ne hk _ _

theorem dataTransferWorker_of_hamalOf {taskID : Nat} {job : TransferTask} {m m' : Machine}
    (h : hamalOf s device nodeID taskID ⟨job, 0⟩ m = some m') :
    dataTransferWorker s device nodeID taskID job m = some (true, m') := by
  unfold hamalOf at h
  dsimp only at h
  unfold dataTransferWorker outboundHamal inboundHamal
  split
  · rename_i hwrite
    rw [if_pos hwrite] at h
    rw [h]
    rfl
  · rename_i hread
    rw [if_neg hread] at h
    rw [h]
    rfl

/-- There are two workers. -/
theorem eq_one_of_ne_zero {j : WorkerID} (h : j ≠ 0) : j = 1 := by
  revert j
  decide

/--
In whatever order the workers and the card take their steps, once all workers are
finished they have done what they do one after another.
-/
theorem TasksApart.runTasks_of_run (h : TasksApart s nodeID task) {schedule : List WorkerID}
    {m : Machine} (hrun : Agents.run (advance s device nodeID) schedule (Team.start task m) =
      some t) (hfinished : forall i, t.phase i = Phase.finished) :
    runTasks s device nodeID [(0, task 0), (1, task 1)] m = some t.machine := by
  have hwithin : (Team.start task m).Within task := fun _ => ⟨rfl, Nat.zero_le _⟩
  have hperm := (List.filter_append_perm (fun i => decide (i = (0 : WorkerID))) schedule).symm
  rcases h.agents.run_perm hperm hwithin hrun with ⟨t2, hrun', hagree⟩
  cases h.eq_of_agree hagree
  rcases Agents.run_append.mp hrun' with ⟨t1, hfirst, hsecond⟩
  have hzero : forall j, j ∈ schedule.filter (fun i => decide (i = (0 : WorkerID))) -> j = 0 := by
    intro j hj
    simpa using (List.mem_filter.mp hj).right
  have hone : forall j, j ∈ schedule.filter (fun i => !decide (i = (0 : WorkerID))) -> j = 1 := by
    intro j hj
    have hne : j ≠ 0 := by
      simpa using (List.mem_filter.mp hj).right
    exact eq_one_of_ne_zero hne
  rcases run_alone hzero hfirst with ⟨hdone, hwaiting⟩
  rcases run_alone hone hsecond with ⟨hdone', hkept⟩
  have hfinished0 : t1.phase 0 = Phase.finished :=
    (hkept 0 (by decide)).symm.trans (hfinished 0)
  have hstart1 : t1.phase 1 = Phase.looping ⟨task 1, 0⟩ := hwaiting 1 (by decide)
  rw [hfinished0] at hdone
  rw [hfinished 1, hstart1] at hdone'
  have hfirst' : dataTransferWorker s device nodeID 0 (task 0) m = some (true, t1.machine) :=
    dataTransferWorker_of_hamalOf hdone.symm
  have hsecond' : dataTransferWorker s device nodeID 1 (task 1) t1.machine =
      some (true, t.machine) := dataTransferWorker_of_hamalOf hdone'.symm
  unfold runTasks
  rw [hfirst', Option.bind_some]
  show runTasks s device nodeID [(1, task 1)] t1.machine = some t.machine
  unfold runTasks
  rw [hsecond', Option.bind_some]
  rfl

end Teams

/-!
# The shares of a large transfer
-/

section SharesApart

open Shares

variable {s : Socket} {nodeID : UInt16} {opType : Bool}
  {bufferSend bufferReceive size : UInt64}

/-- How far the share of a worker is from the start of the transfer. -/
def shareOffset (size : UInt64) (i : WorkerID) : UInt64 :=
  UInt64.ofInt ((i.val : Nat) * shipSize size)

theorem shareOffset_zero : shareOffset size 0 = 0 := by
  show UInt64.ofInt ((0 : Nat) * shipSize size) = 0
  rw [Int.natCast_zero, Int.zero_mul]
  rfl

theorem toNat_shareOffset_one : (shareOffset size 1).toNat = shareBytes size := by
  show (UInt64.ofInt ((1 : Nat) * shipSize size)).toNat = _
  rw [Int.natCast_one, Int.one_mul]
  rfl

theorem worker_cases (i : WorkerID) : i = 0 ∨ i = 1 := by
  revert i
  decide

/-- The share lies in the whole range. -/
theorem inRange_of_share (hfits : 2 * shareBytes size ≤ size.toNat) {i : WorkerID}
    {start x : UInt64} (hx : InRange (start + shareOffset size i) (shareBytes size) x) :
    InRange start size.toNat x := by
  have hsize := size.toNat_lt
  rcases worker_cases i with rfl | rfl
  · rw [shareOffset_zero, UInt64.add_zero] at hx
    exact hx.mono (by omega)
  · have hsplit : InRange start ((shareOffset size 1).toNat + shareBytes size) x :=
      (inRange_split (by rw [toNat_shareOffset_one]; omega)).mpr (Or.inr hx)
    rw [toNat_shareOffset_one] at hsplit
    exact hsplit.mono (by omega)

/-- Two shares have no byte in common. -/
theorem shares_disjoint (hfits : 2 * shareBytes size ≤ size.toNat) {i j : WorkerID}
    (hne : i ≠ j) {start x : UInt64}
    (hx : InRange (start + shareOffset size i) (shareBytes size) x) :
    ¬ InRange (start + shareOffset size j) (shareBytes size) x := by
  have hsize := size.toNat_lt
  have hnext : InRange start (shareOffset size 1).toNat x ->
      ¬ InRange (start + shareOffset size 1) (shareBytes size) x :=
    not_inRange_next (by rw [toNat_shareOffset_one]; omega)
  rw [toNat_shareOffset_one] at hnext
  rcases worker_cases i with rfl | rfl
  · rcases worker_cases j with rfl | rfl
    · exact absurd rfl hne
    · rw [shareOffset_zero, UInt64.add_zero] at hx
      exact hnext hx
  · rcases worker_cases j with rfl | rfl
    · rw [shareOffset_zero, UInt64.add_zero]
      intro hfirst
      exact hnext hfirst hx
    · exact absurd rfl hne

/-- Neither have two staging buffers. -/
theorem staged_disjoint {i j : WorkerID} (hne : i ≠ j) {x : UInt64} (hx : Staged s i x) :
    ¬ Staged s j x := by
  have hnext : Staged s (0 : WorkerID) x -> ¬ Staged s (1 : WorkerID) x := by
    intro hfirst
    have haddr : sendPoolAddr s.mm (1 : WorkerID).val =
        sendPoolAddr s.mm (0 : WorkerID).val + UInt64.ofNat poolBytes := by
      unfold sendPoolAddr
      show s.mm + 4 * 1024 + 1 * 1024 * 1024 = s.mm + 4 * 1024 + 0 * 1024 * 1024 + 1048576
      grind
    unfold Staged
    rw [haddr]
    exact not_inRange_next (by decide) hfirst
  rcases worker_cases i with rfl | rfl
  · rcases worker_cases j with rfl | rfl
    · exact absurd rfl hne
    · exact hnext hx
  · rcases worker_cases j with rfl | rfl
    · exact fun hfirst => hnext hfirst hx
    · exact absurd rfl hne

/-- The task of a worker in a large transfer. -/
def shareOf (opType : Bool) (bufferSend bufferReceive size : UInt64) (i : WorkerID) :
    TransferTask :=
  share opType bufferSend bufferReceive size i

theorem size_shareOf (i : WorkerID) :
    (shareOf opType bufferSend bufferReceive size i).size.toNat = shareBytes size := by
  rcases worker_cases i with rfl | rfl
  · rfl
  · rfl

theorem remoteStart_shareOf (i : WorkerID) :
    remoteStart s nodeID (shareOf opType bufferSend bufferReceive size i) =
      bufferReceive + s.registeredMemory nodeID + shareOffset size i := by
  show bufferReceive + shareOffset size i + s.registeredMemory nodeID = _
  grind

/-- The workers of a large transfer use nothing that others change. -/
theorem tasksApart_shares (hfits : 2 * shareBytes size ≤ size.toNat)
    (hapart : forall i : WorkerID, Apart s i bufferSend size) :
    TasksApart s nodeID (shareOf opType bufferSend bufferReceive size) := by
  intro i
  constructor
  · rintro x hx ⟨j, hne, hstaged | ⟨_, hbuffer⟩⟩
    · exact staged_disjoint hne hstaged hx
    · rw [size_shareOf] at hbuffer
      exact hapart i x (inRange_of_share hfits hbuffer) hx
  · rintro x hx ⟨j, hne, hstaged | ⟨_, hbuffer⟩⟩
    · rw [size_shareOf] at hx
      exact hapart j x (inRange_of_share hfits hx) hstaged
    · rw [size_shareOf] at hx hbuffer
      exact shares_disjoint hfits hne hbuffer hx
  · rintro x hx ⟨j, hne, _, hremote⟩
    rw [size_shareOf, remoteStart_shareOf] at hx hremote
    exact shares_disjoint hfits hne hremote hx
  · rintro ⟨j, hne, hqueue⟩
    have heq : i.val + 1 = j.val + 1 := (Prod.mk.inj hqueue).right
    exact hne (Fin.ext (Nat.add_right_cancel heq)).symm

end SharesApart

end Workers
end Net
end SpongeBob
