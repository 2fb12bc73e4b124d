import SpongeBob.Net.Workers

/-!
# One completion queue for all

The statements of {lit}`InboundHamal` and {lit}`OutboundHamal` when several threads use
the card of a client at once.  The card completes the operations of a queue pair in the
order in which they have been posted, and those of different queue pairs in any order.
A client has one completion queue, and {lit}`PollCompletion` takes whatever entry is
there, also that of another thread's operation.
-/

namespace SpongeBob
namespace Net
namespace SharedCard

open Foundation
open Completion (WorkerID Loop WorkRequest Phase sendPoolAddr)
open Transfer
open Workers (request worker_cases)

/-!
# The card
-/

/-- An operation that the card has accepted, and whether its bytes are going to move. -/
structure Operation where
  request : WorkRequest
  moved : Bool

/-- What the threads of a client and the card share. -/
structure Card where
  machine : Machine
  /-- The operations of each queue pair that have not completed. -/
  pending : QueuePair -> List Operation
  /-- The completion queue, with the queue pair of each entry. -/
  entries : List QueuePair

namespace Card

/-- A card that has nothing to do. -/
def start (m : Machine) : Card where
  machine := m
  pending := fun _ => []
  entries := []

/-- {lit}`ibv_post_send`; nobody looks at its result. -/
def post (device : Device) (q : QueuePair) (r : WorkRequest) (x : Card) : Card :=
  let outcome := x.machine.nextOutcome device q
  { x with
    machine := x.machine.record q r
    pending :=
      if outcome.posted then
        Function.update x.pending q (x.pending q ++ [⟨r, outcome.moved⟩])
      else x.pending }

/-- The oldest operation of a queue pair completes, with or without its bytes. -/
def complete (q : QueuePair) (x : Card) : Option Card :=
  match x.pending q with
  | [] => none
  | operation :: rest =>
      some
        { machine :=
            if operation.moved then x.machine.carryOut q.1 operation.request else x.machine
          pending := Function.update x.pending q rest
          entries := x.entries ++ [q] }

def memcpy (dst src n : UInt64) (x : Card) : Card :=
  { x with machine := x.machine.memcpy dst src n }

end Card

/-!
# The threads
-/

section Statements

variable (s : Socket) (device : Device) (nodeID : UInt16) (taskID : Nat)

/-- The next statement of a thread in the loop of a task, which ends in {lit}`idle`. -/
def work : Phase -> Card -> Option (Phase × Card)
  | Phase.looping l, x =>
      if l.unfinished then
        if l.task.opType then
          some (Phase.filled l, x.memcpy (sendPoolAddr s.mm taskID)
            (l.task.bufferSend + l.totalSizeSend) l.sendSize)
        else
          some (Phase.polling l,
            x.post device (nodeID, taskID + 1) (request s nodeID taskID l))
      else some (Phase.idle, x)
  | Phase.filled l, x =>
      some (Phase.polling l, x.post device (nodeID, taskID + 1) (request s nodeID taskID l))
  | Phase.polling l, x =>
      match x.entries with
      | [] => none
      | _ :: rest =>
          some (if l.task.opType then Phase.looping l.next else Phase.polled l,
            { x with entries := rest })
  | Phase.polled l, x =>
      some (Phase.looping l.next, x.memcpy (l.task.bufferSend + l.totalSizeSend)
        (sendPoolAddr s.mm taskID) l.sendSize)
  | Phase.idle, _ => none

/-- The operations of the pieces of a loop. -/
def pieces (l : Loop) : List WorkRequest :=
  if _h : l.unfinished = true then request s nodeID taskID l :: pieces l.next else []
termination_by left l
decreasing_by exact left_next_lt _h

/-- The operations that a thread has yet to post. -/
def toPost : Phase -> List WorkRequest
  | Phase.looping l => pieces s nodeID taskID l
  | Phase.filled l => request s nodeID taskID l :: pieces s nodeID taskID l.next
  | Phase.polling l => pieces s nodeID taskID l.next
  | Phase.polled l => pieces s nodeID taskID l.next
  | Phase.idle => []

end Statements

/-- A bound on what a thread, and the card for it, have yet to do. -/
def ticks (s : Socket) (nodeID : UInt16) (taskID : Nat) (phase : Phase) : Nat :=
  5 * (toPost s nodeID taskID phase).length +
    match phase with
    | Phase.looping _ => 2
    | Phase.filled _ => 1
    | Phase.polling _ => 4
    | Phase.polled _ => 3
    | Phase.idle => 1

/-!
# Counting
-/

/-- The operations on a queue pair that the card has refused. -/
def refused (device : Device) (m : Machine) (q : QueuePair) : Nat :=
  (List.range (m.requests q).length).countP (fun k => !(device q k).posted)

/-- The operations on a queue pair that have no entry yet, or never get one. -/
def Card.unanswered (device : Device) (x : Card) (q : QueuePair) : Nat :=
  (x.pending q).length + refused device x.machine q

/-- Whether a thread polls, as a number. -/
def polls (phase : Phase) : Nat :=
  if phase.inPoll then 1 else 0

section Counting

variable {s : Socket} {device : Device} {nodeID : UInt16} {taskID : Nat} {l : Loop}
  {x x' : Card} {q q' : QueuePair} {phase phase' : Phase} {m : Machine}

theorem pieces_of_unfinished (h : l.unfinished = true) : pieces s nodeID taskID l =
    request s nodeID taskID l :: pieces s nodeID taskID l.next := by
  rw [pieces, dif_pos h]

theorem pieces_of_finished (h : ¬ l.unfinished = true) : pieces s nodeID taskID l = [] := by
  rw [pieces, dif_neg h]

theorem refused_of_requests {m m' : Machine} (h : m'.requests q = m.requests q) :
    refused device m' q = refused device m q := by
  unfold refused
  rw [h]

theorem refused_record {r : WorkRequest} : refused device (m.record q r) q =
    refused device m q + if (m.nextOutcome device q).posted then 0 else 1 := by
  unfold refused Machine.record Machine.nextOutcome
  dsimp only
  rw [Function.update_self, List.length_append, List.length_singleton, List.range_succ,
    List.countP_append, List.countP_singleton]
  congr 1
  cases (device q (m.requests q).length).posted
  · rfl
  · rfl

theorem requests_record_of_ne {r : WorkRequest} (h : q' ≠ q) :
    (m.record q r).requests q' = m.requests q' :=
  Function.update_of_ne h _ _

theorem requests_carryOut {r : WorkRequest} : (m.carryOut nodeID r).requests = m.requests := by
  unfold Machine.carryOut
  cases r.opcode with
  | rdmaRead => rfl
  | rdmaWrite => rfl

/-- Posting leaves one more operation to wait for, whether the card accepts it or not. -/
theorem unanswered_post {r : WorkRequest} :
    (x.post device q r).unanswered device q = x.unanswered device q + 1 := by
  unfold Card.unanswered Card.post
  dsimp only
  rw [refused_record]
  split
  · rw [Function.update_self, List.length_append, List.length_singleton]
    omega
  · omega

theorem pending_post_of_ne {r : WorkRequest} (h : q' ≠ q) :
    (x.post device q r).pending q' = x.pending q' := by
  unfold Card.post
  dsimp only
  split
  · exact Function.update_of_ne h _ _
  · rfl

theorem unanswered_of_eq (hpending : x'.pending q = x.pending q)
    (hrequests : x'.machine.requests q = x.machine.requests q) :
    x'.unanswered device q = x.unanswered device q := by
  unfold Card.unanswered
  rw [hpending, refused_of_requests hrequests]

/-- What a completion does: an operation less to wait for, and an entry more. -/
theorem complete_eq_some (h : x.complete q = some x') :
    (x'.pending q).length + 1 = (x.pending q).length ∧
    (forall q', q' ≠ q -> x'.pending q' = x.pending q') ∧
    x'.entries = x.entries ++ [q] ∧ x'.machine.requests = x.machine.requests := by
  unfold Card.complete at h
  split at h
  · cases h
  · rename_i operation rest hpending
    cases h
    refine ⟨?_, fun q' hq' => Function.update_of_ne hq' _ _, rfl, ?_⟩
    · dsimp only
      rw [Function.update_self, hpending, List.length_cons]
    · dsimp only
      split
      · exact requests_carryOut
      · rfl

theorem unanswered_complete (h : x.complete q = some x') :
    x'.unanswered device q + 1 = x.unanswered device q := by
  rcases complete_eq_some h with ⟨hless, _, _, hrequests⟩
  unfold Card.unanswered
  rw [refused_of_requests (congrFun hrequests q)]
  omega

theorem unanswered_complete_of_ne (h : x.complete q = some x') (hne : q' ≠ q) :
    x'.unanswered device q' = x.unanswered device q' := by
  rcases complete_eq_some h with ⟨_, hothers, _, hrequests⟩
  exact unanswered_of_eq (hothers q' hne) (congrFun hrequests q')

/-- A thread changes nothing of the other queue pairs. -/
theorem work_of_ne (h : work s device nodeID taskID phase x = some (phase', x'))
    (hne : q ≠ (nodeID, taskID + 1)) : x'.pending q = x.pending q ∧
    x'.machine.requests q = x.machine.requests q := by
  cases phase with
  | looping l =>
      rw [work] at h
      split at h
      · split at h
        · cases h
          exact ⟨rfl, rfl⟩
        · cases h
          exact ⟨pending_post_of_ne hne, requests_record_of_ne hne⟩
      · cases h
        exact ⟨rfl, rfl⟩
  | filled l =>
      cases h
      exact ⟨pending_post_of_ne hne, requests_record_of_ne hne⟩
  | polling l =>
      rw [work] at h
      split at h
      · cases h
      · cases h
        exact ⟨rfl, rfl⟩
  | polled l =>
      cases h
      exact ⟨rfl, rfl⟩
  | idle => cases h

theorem work_unanswered_of_ne
    (h : work s device nodeID taskID phase x = some (phase', x'))
    (hne : q ≠ (nodeID, taskID + 1)) : x'.unanswered device q = x.unanswered device q := by
  rcases work_of_ne h hne with ⟨hpending, hrequests⟩
  exact unanswered_of_eq hpending hrequests

/-- The threads that poll are as many as the operations and the entries they wait for. -/
theorem work_polls (h : work s device nodeID taskID phase x = some (phase', x')) :
    x'.unanswered device (nodeID, taskID + 1) + x'.entries.length + polls phase =
      x.unanswered device (nodeID, taskID + 1) + x.entries.length + polls phase' := by
  cases phase with
  | looping l =>
      rw [work] at h
      split at h
      · split at h
        · cases h
          rfl
        · cases h
          rw [unanswered_post]
          show _ + x.entries.length + 0 = _ + 1
          omega
      · cases h
        rfl
  | filled l =>
      cases h
      rw [unanswered_post]
      show _ + x.entries.length + 0 = _ + 1
      omega
  | polling l =>
      rw [work] at h
      split at h
      · cases h
      · rename_i head rest hentries
        cases h
        have hnext :
            polls (if l.task.opType then Phase.looping l.next else Phase.polled l) = 0 := by
          split
          · rfl
          · rfl
        rw [hnext, hentries, List.length_cons]
        show x.unanswered device _ + rest.length + 1 = _
        omega
  | polled l =>
      cases h
      rfl
  | idle => cases h

theorem requests_post (x : Card) (r : WorkRequest) :
    (x.post device q r).machine.requests q = x.machine.requests q ++ [r] :=
  Function.update_self _ _ _

/-- What a thread has posted and what it has yet to post stay together the same. -/
theorem work_toPost (h : work s device nodeID taskID phase x = some (phase', x')) :
    x'.machine.requests (nodeID, taskID + 1) ++ toPost s nodeID taskID phase' =
      x.machine.requests (nodeID, taskID + 1) ++ toPost s nodeID taskID phase := by
  cases phase with
  | looping l =>
      rw [work] at h
      split at h
      · rename_i hunfinished
        have hpieces : pieces s nodeID taskID l =
            request s nodeID taskID l :: pieces s nodeID taskID l.next :=
          pieces_of_unfinished hunfinished
        split at h
        · cases h
          show _ ++ (_ :: _) = _ ++ pieces s nodeID taskID l
          rw [hpieces]
          rfl
        · cases h
          show _ ++ pieces s nodeID taskID l.next = _ ++ pieces s nodeID taskID l
          rw [requests_post, hpieces, List.append_assoc]
          rfl
      · rename_i hfinished
        cases h
        show _ ++ [] = _ ++ pieces s nodeID taskID l
        rw [pieces_of_finished hfinished]
  | filled l =>
      cases h
      show _ ++ pieces s nodeID taskID l.next = _ ++ (_ :: _)
      rw [requests_post, List.append_assoc]
      rfl
  | polling l =>
      rw [work] at h
      split at h
      · cases h
      · cases h
        split
        · rfl
        · rfl
  | polled l =>
      cases h
      rfl
  | idle => cases h

theorem length_pending_post (x : Card) (r : WorkRequest) :
    ((x.post device q r).pending q).length ≤ (x.pending q).length + 1 := by
  unfold Card.post
  dsimp only
  split
  · rw [Function.update_self, List.length_append, List.length_singleton]
  · exact Nat.le_succ _

/-- With every statement of a thread there is less to do. -/
theorem work_ticks (h : work s device nodeID taskID phase x = some (phase', x')) :
    ticks s nodeID taskID phase' + (x'.pending (nodeID, taskID + 1)).length <
      ticks s nodeID taskID phase + (x.pending (nodeID, taskID + 1)).length := by
  unfold ticks
  cases phase with
  | looping l =>
      rw [work] at h
      split at h
      · rename_i hunfinished
        have hpieces : pieces s nodeID taskID l =
            request s nodeID taskID l :: pieces s nodeID taskID l.next :=
          pieces_of_unfinished hunfinished
        dsimp only [toPost]
        rw [hpieces, List.length_cons]
        split at h
        · cases h
          dsimp only [toPost]
          rw [List.length_cons]
          show _ + (x.pending (nodeID, taskID + 1)).length < _
          omega
        · cases h
          have hpost : ((x.post device (nodeID, taskID + 1)
              (request s nodeID taskID l)).pending (nodeID, taskID + 1)).length ≤
                (x.pending (nodeID, taskID + 1)).length + 1 :=
            length_pending_post x _
          dsimp only [toPost]
          omega
      · cases h
        dsimp only [toPost]
        rw [List.length_nil]
        omega
  | filled l =>
      cases h
      have hpost : ((x.post device (nodeID, taskID + 1)
          (request s nodeID taskID l)).pending (nodeID, taskID + 1)).length ≤
            (x.pending (nodeID, taskID + 1)).length + 1 :=
        length_pending_post x _
      dsimp only [toPost]
      rw [List.length_cons]
      omega
  | polling l =>
      rw [work] at h
      split at h
      · cases h
      · cases h
        split
        · dsimp only [toPost]
          omega
        · dsimp only [toPost]
          omega
  | polled l =>
      cases h
      dsimp only [toPost]
      show _ + (x.pending (nodeID, taskID + 1)).length < _
      omega
  | idle => cases h

/-- A thread that is not at its end goes on, unless it polls an empty queue. -/
theorem exists_work (hphase : phase ≠ Phase.idle) :
    (exists phase' x', work s device nodeID taskID phase x = some (phase', x')) ∨
    phase.inPoll = true ∧ x.entries = [] := by
  cases phase with
  | idle => exact absurd rfl hphase
  | looping l =>
      left
      unfold work
      dsimp only
      split
      · split
        · exact ⟨_, _, rfl⟩
        · exact ⟨_, _, rfl⟩
      · exact ⟨_, _, rfl⟩
  | filled l => exact Or.inl ⟨_, _, rfl⟩
  | polling l =>
      cases hentries : x.entries with
      | nil => exact Or.inr ⟨rfl, rfl⟩
      | cons q rest =>
          left
          unfold work
          dsimp only
          rw [hentries]
          exact ⟨_, _, rfl⟩
  | polled l => exact Or.inl ⟨_, _, rfl⟩

end Counting

/-!
# The threads of a call
-/

/-- All operations have been accepted and have completed, and all entries are taken. -/
structure Answered (device : Device) (x : Card) : Prop where
  pending : x.pending = fun _ => []
  entries : x.entries = []
  refused : forall q, refused device x.machine q = 0

/--
The threads of a call are in these phases, with a queue pair of the peer each, and at the
end of the call the operations will be those of {lit}`target`.
-/
structure Balanced (s : Socket) (device : Device) (nodeID : UInt16)
    (target : QueuePair -> List WorkRequest) (phase : WorkerID -> Phase) (x : Card) : Prop where
  polling : x.unanswered device (nodeID, 1) + x.unanswered device (nodeID, 2) +
    x.entries.length = polls (phase 0) + polls (phase 1)
  requests : forall i : WorkerID,
    x.machine.requests (nodeID, i.val + 1) ++ toPost s nodeID i (phase i) =
      target (nodeID, i.val + 1)
  others : forall q, (forall i : WorkerID, q ≠ (nodeID, i.val + 1)) ->
    x.unanswered device q = 0 ∧ x.machine.requests q = target q

section Threads

variable {s : Socket} {device : Device} {nodeID : UInt16}
  {target : QueuePair -> List WorkRequest} {phase : WorkerID -> Phase} {p p' : Phase}
  {x x' : Card} {q : QueuePair} {i j : WorkerID}

theorem queuePair_ne (h : j ≠ i) : ((nodeID, j.val + 1) : QueuePair) ≠ (nodeID, i.val + 1) := by
  intro heq
  have hval : j.val + 1 = i.val + 1 := (Prod.mk.inj heq).right
  exact h (Fin.ext (Nat.add_right_cancel hval))

theorem Answered.unanswered (h : Answered device x) (q : QueuePair) :
    x.unanswered device q = 0 := by
  unfold Card.unanswered
  rw [h.pending, h.refused q]
  rfl

/-- Before the first statement of a call. -/
theorem Answered.balanced (h : Answered device x) (hpolls : forall i, (phase i).inPoll = false)
    (htarget : forall i : WorkerID,
      x.machine.requests (nodeID, i.val + 1) ++ toPost s nodeID i (phase i) =
        target (nodeID, i.val + 1))
    (hothers : forall q, (forall i : WorkerID, q ≠ (nodeID, i.val + 1)) ->
      x.machine.requests q = target q) :
    Balanced s device nodeID target phase x where
  polling := by
    have hzero : forall i, polls (phase i) = 0 := by
      intro i
      unfold polls
      rw [hpolls i]
      rfl
    rw [h.unanswered, h.unanswered, h.entries, hzero, hzero]
    rfl
  requests := htarget
  others := fun q hq => ⟨h.unanswered q, hothers q hq⟩

/-- After the last statement of a call. -/
theorem Balanced.answered (h : Balanced s device nodeID target phase x)
    (hidle : forall i, phase i = Phase.idle) :
    Answered device x ∧ x.machine.requests = target := by
  have hpolling := h.polling
  rw [hidle 0, hidle 1] at hpolling
  have hzero : polls Phase.idle = 0 := rfl
  rw [hzero] at hpolling
  have hall : forall q, x.unanswered device q = 0 ∧ x.machine.requests q = target q := by
    intro q
    by_cases hq : forall i : WorkerID, q ≠ (nodeID, i.val + 1)
    · exact h.others q hq
    · rcases not_forall_not.mp hq with ⟨i, rfl⟩
      have hrequests := h.requests i
      rw [hidle i, toPost, List.append_nil] at hrequests
      constructor
      · rcases worker_cases i with rfl | rfl
        · show x.unanswered device (nodeID, 1) = 0
          omega
        · show x.unanswered device (nodeID, 2) = 0
          omega
      · exact hrequests
  constructor
  · constructor
    · funext q
      have hq := (hall q).left
      unfold Card.unanswered at hq
      exact List.length_eq_zero_iff.mp (by omega)
    · exact List.length_eq_zero_iff.mp (by omega)
    · intro q
      have hq := (hall q).left
      unfold Card.unanswered at hq
      omega
  · funext q
    exact (hall q).right

/-- A statement of one of the threads. -/
theorem Balanced.work (h : Balanced s device nodeID target phase x)
    (hwork : SharedCard.work s device nodeID i (phase i) x = some (p, x')) :
    Balanced s device nodeID target (Function.update phase i p) x' where
  polling := by
    have hbefore := h.polling
    have hown := work_polls hwork
    rcases worker_cases i with rfl | rfl
    · have hother : x'.unanswered device (nodeID, 2) = x.unanswered device (nodeID, 2) :=
        work_unanswered_of_ne hwork (queuePair_ne (j := 1) (by decide))
      rw [Function.update_self, Function.update_of_ne (by decide), hother]
      have hown' : x'.unanswered device (nodeID, 1) + x'.entries.length + polls (phase 0) =
          x.unanswered device (nodeID, 1) + x.entries.length + polls p := hown
      omega
    · have hother : x'.unanswered device (nodeID, 1) = x.unanswered device (nodeID, 1) :=
        work_unanswered_of_ne hwork (queuePair_ne (j := 0) (by decide))
      rw [Function.update_self, Function.update_of_ne (by decide), hother]
      have hown' : x'.unanswered device (nodeID, 2) + x'.entries.length + polls (phase 1) =
          x.unanswered device (nodeID, 2) + x.entries.length + polls p := hown
      omega
  requests := by
    intro j
    by_cases hj : j = i
    · subst hj
      rw [Function.update_self, work_toPost hwork]
      exact h.requests j
    · rw [Function.update_of_ne hj, (work_of_ne hwork (queuePair_ne hj)).right]
      exact h.requests j
  others := by
    intro q hq
    rw [work_unanswered_of_ne hwork (hq i), (work_of_ne hwork (hq i)).right]
    exact h.others q hq

/-- The operations that the card has yet to complete for the threads. -/
def Card.load (x : Card) (nodeID : UInt16) : Nat :=
  (x.pending (nodeID, 1)).length + (x.pending (nodeID, 2)).length

theorem work_load (h : SharedCard.work s device nodeID i p x = some (p', x')) :
    ticks s nodeID i p' + x'.load nodeID < ticks s nodeID i p + x.load nodeID := by
  have hown := work_ticks h
  unfold Card.load
  rcases worker_cases i with rfl | rfl
  · have hother : x'.pending (nodeID, 2) = x.pending (nodeID, 2) :=
      (work_of_ne h (queuePair_ne (j := 1) (by decide))).left
    have hown' : _ + (x'.pending (nodeID, 1)).length < _ + (x.pending (nodeID, 1)).length :=
      hown
    rw [hother]
    omega
  · have hother : x'.pending (nodeID, 1) = x.pending (nodeID, 1) :=
      (work_of_ne h (queuePair_ne (j := 0) (by decide))).left
    have hown' : _ + (x'.pending (nodeID, 2)).length < _ + (x.pending (nodeID, 2)).length :=
      hown
    rw [hother]
    omega

theorem complete_load (h : x.complete (nodeID, i.val + 1) = some x') :
    x'.load nodeID < x.load nodeID := by
  rcases complete_eq_some h with ⟨hless, hothers, _, _⟩
  unfold Card.load
  rcases worker_cases i with rfl | rfl
  · have hless' : (x'.pending (nodeID, 1)).length + 1 = (x.pending (nodeID, 1)).length := hless
    have hother : x'.pending (nodeID, 2) = x.pending (nodeID, 2) :=
      hothers _ (queuePair_ne (j := 1) (by decide))
    rw [hother]
    omega
  · have hless' : (x'.pending (nodeID, 2)).length + 1 = (x.pending (nodeID, 2)).length := hless
    have hother : x'.pending (nodeID, 1) = x.pending (nodeID, 1) :=
      hothers _ (queuePair_ne (j := 0) (by decide))
    rw [hother]
    omega

/-- There is nothing to complete on other queue pairs. -/
theorem Balanced.queuePair_of_complete (h : Balanced s device nodeID target phase x)
    (hcomplete : x.complete q = some x') : exists i : WorkerID, q = (nodeID, i.val + 1) := by
  by_contra hnone
  have hzero := (h.others q (fun i hi => hnone ⟨i, hi⟩)).left
  have hless : x'.unanswered device q + 1 = x.unanswered device q :=
    unanswered_complete hcomplete
  omega

/-- The card completes an operation of one of the threads. -/
theorem Balanced.complete (h : Balanced s device nodeID target phase x)
    (hcomplete : x.complete q = some x') : Balanced s device nodeID target phase x' := by
  rcases h.queuePair_of_complete hcomplete with ⟨i, rfl⟩
  rcases complete_eq_some hcomplete with ⟨_, _, hentries, hrequests⟩
  constructor
  · have hbefore := h.polling
    rw [hentries, List.length_append, List.length_singleton]
    rcases worker_cases i with rfl | rfl
    · have hless' : x'.unanswered device (nodeID, 1) + 1 = x.unanswered device (nodeID, 1) :=
        unanswered_complete hcomplete
      have hother : x'.unanswered device (nodeID, 2) = x.unanswered device (nodeID, 2) :=
        unanswered_complete_of_ne hcomplete (queuePair_ne (j := 1) (by decide))
      omega
    · have hless' : x'.unanswered device (nodeID, 2) + 1 = x.unanswered device (nodeID, 2) :=
        unanswered_complete hcomplete
      have hother : x'.unanswered device (nodeID, 1) = x.unanswered device (nodeID, 1) :=
        unanswered_complete_of_ne hcomplete (queuePair_ne (j := 0) (by decide))
      omega
  · intro j
    rw [hrequests]
    exact h.requests j
  · intro q' hq'
    rw [unanswered_complete_of_ne hcomplete (hq' i), hrequests]
    exact h.others q' hq'

end Threads

end SharedCard
end Net
end SpongeBob
