import SpongeBob.Net.PollingQueue
import SpongeBob.Net.SharedCard
import Mathlib.Order.Fin.Basic

/-!
# Calls and workers

{lit}`RemoteRead` and {lit}`RemoteWrite` hand the shares of a large transfer to the
workers as pointers to a local array, one on each worker's queue, and spin until the
workers have counted to {lit}`WORKER_NUMBER`.  The statements of the caller and of the
workers interleave in any way, and the card completes the operations whenever it wants.
-/

namespace SpongeBob
namespace Net
namespace Dispatch

open Foundation
open Completion (WorkerID Loop TransferTask WorkRequest Phase)
open Transfer
open Shares
open SharedCard
open Workers (worker_cases)
open PollingQueue (Queue)

/-- A call of {lit}`RemoteRead` or {lit}`RemoteWrite`; {lit}`opType` holds for a write. -/
structure Call where
  opType : Bool
  bufferSend : UInt64
  nodeID : UInt16
  bufferReceive : UInt64
  size : UInt64
deriving DecidableEq, Repr

/-- The arguments with which a small call does the work itself, as a task. -/
def Call.whole (c : Call) : TransferTask where
  opType := c.opType
  size := c.size
  bufferSend := c.bufferSend
  bufferReceive := c.bufferReceive

/-- The task of a worker in a large call. -/
def Call.task (c : Call) (i : WorkerID) : TransferTask :=
  share c.opType c.bufferSend c.bufferReceive c.size i

/-- Where a worker is in the loop of {lit}`DataTransferWorker`. -/
inductive Worker where
  /-- In the loop of {lit}`PopPolling`. -/
  | polling
  /-- The counter was not zero. -/
  | taking
  /-- The pointer to a task is out of the vector, and the counter still counts it. -/
  | discounting (slot : WorkerID)
  /-- {lit}`PopPolling` has returned a pointer. -/
  | taken (slot : WorkerID)
  /-- In {lit}`InboundHamal` or {lit}`OutboundHamal`. -/
  | working (nodeID : UInt16) (phase : Phase)
deriving DecidableEq, Repr

/-- Where the thread that calls is. -/
inductive Caller where
  | idle
  /-- In a small call's {lit}`InboundHamal` or {lit}`OutboundHamal`. -/
  | small (c : Call) (phase : Phase)
  | resetting (c : Call)
  /-- Before the test of the loop over the tasks. -/
  | filling (c : Call) (i : Nat)
  /-- Before {lit}`push_back` of {lit}`PushPolling`. -/
  | appending (c : Call) (i : WorkerID)
  /-- Before the counter of the queue is raised. -/
  | counting (c : Call) (i : WorkerID)
  | waiting (c : Call)
deriving DecidableEq, Repr

structure State where
  card : Card
  transferSignal : UInt16
  queue : WorkerID -> Queue WorkerID
  /-- The array {lit}`tasks` of the running call, as far as it is filled. -/
  tasks : WorkerID -> Option (UInt16 × TransferTask)
  worker : WorkerID -> Worker
  caller : Caller

def State.start (m : Machine) : State where
  card := Card.start m
  transferSignal := 0
  queue := fun _ => Queue.empty
  tasks := fun _ => none
  worker := fun _ => Worker.polling
  caller := Caller.idle

/-!
# Steps
-/

inductive Event where
  | call (c : Call)
  | caller
  | worker (i : WorkerID)
  /-- The card completes an operation of a queue pair. -/
  | card (q : QueuePair)
deriving DecidableEq, Repr

/-- The thread cannot go on, or its next statement is undefined. -/
inductive Stop where
  | notReady
  | emptyVector
  | deadTask
deriving DecidableEq, Repr

section Steps

variable (s : Socket) (device : Device)

/-- The next statement of the calling thread, and the call if it returns. -/
def stepCaller (d : State) : Except Stop (Option Call × State) :=
  match d.caller with
  | Caller.idle => Except.error Stop.notReady
  | Caller.small c phase =>
      if phase = Phase.idle then
        Except.ok (some c,
          { d with transferSignal := d.transferSignal + 1, caller := Caller.idle })
      else
        match work s device c.nodeID 0 phase d.card with
        | some (phase, card) =>
            Except.ok (none, { d with card := card, caller := Caller.small c phase })
        | none => Except.error Stop.notReady
  | Caller.resetting c =>
      Except.ok (none, { d with transferSignal := 0, caller := Caller.filling c 0 })
  | Caller.filling c i =>
      if h : i < workerNumber then
        Except.ok (none,
          { d with
            tasks := Function.update d.tasks ⟨i, h⟩ (some (c.nodeID, c.task ⟨i, h⟩))
            caller := Caller.appending c ⟨i, h⟩ })
      else Except.ok (none, { d with caller := Caller.waiting c })
  | Caller.appending c i =>
      Except.ok (none,
        { d with
          queue := Function.update d.queue i
            { queue := (d.queue i).queue ++ [i], offset := (d.queue i).offset }
          caller := Caller.counting c i })
  | Caller.counting c i =>
      Except.ok (none,
        { d with
          queue := Function.update d.queue i
            { queue := (d.queue i).queue, offset := (d.queue i).offset + 1 }
          caller := Caller.filling c (i + 1) })
  | Caller.waiting c =>
      if d.transferSignal.toNat = workerNumber then
        Except.ok (some c, { d with tasks := fun _ => none, caller := Caller.idle })
      else Except.error Stop.notReady

def State.setWorker (d : State) (i : WorkerID) (w : Worker) : State :=
  { d with worker := Function.update d.worker i w }

/-- The next statement of a worker. -/
def stepWorker (d : State) (i : WorkerID) : Except Stop State :=
  match d.worker i with
  | Worker.polling =>
      if (d.queue i).offset ≠ 0 then Except.ok (d.setWorker i Worker.taking)
      else Except.error Stop.notReady
  | Worker.taking =>
      match (d.queue i).queue with
      | [] => Except.error Stop.emptyVector
      | slot :: rest =>
          Except.ok
            { d.setWorker i (Worker.discounting slot) with
              queue := Function.update d.queue i
                { queue := rest, offset := (d.queue i).offset } }
  | Worker.discounting slot =>
      Except.ok
        { d.setWorker i (Worker.taken slot) with
          queue := Function.update d.queue i
            { queue := (d.queue i).queue, offset := (d.queue i).offset - 1 } }
  | Worker.taken slot =>
      match d.tasks slot with
      | none => Except.error Stop.deadTask
      | some (nodeID, task) =>
          Except.ok (d.setWorker i (Worker.working nodeID (Phase.looping ⟨task, 0⟩)))
  | Worker.working nodeID phase =>
      if phase = Phase.idle then
        Except.ok
          { d.setWorker i Worker.polling with transferSignal := d.transferSignal + 1 }
      else
        match work s device nodeID i phase d.card with
        | some (phase, card) =>
            Except.ok { d.setWorker i (Worker.working nodeID phase) with card := card }
        | none => Except.error Stop.notReady

/-- One step, with the call that it ends, if it does. -/
def step (d : State) : Event -> Except Stop (Option Call × State)
  | Event.call c =>
      match d.caller with
      | Caller.idle =>
          Except.ok (none,
            { d with
              caller :=
                if c.size < smallSize then Caller.small c (Phase.looping ⟨c.whole, 0⟩)
                else Caller.resetting c })
      | _ => Except.error Stop.notReady
  | Event.caller => stepCaller s device d
  | Event.worker i => do
      let d ← stepWorker s device d i
      pure (none, d)
  | Event.card q =>
      match d.card.complete q with
      | some card => Except.ok (none, { d with card := card })
      | none => Except.error Stop.notReady

end Steps

/-!
# What is expected
-/

/-- The calls that have returned. -/
def returned (outs : List (Option Call)) : List Call :=
  outs.filterMap id

/-- The operations of a call on a queue pair. -/
def Call.issues (s : Socket) (c : Call) (q : QueuePair) : List WorkRequest :=
  (tasks c.opType c.bufferSend c.bufferReceive c.size).flatMap (fun (id, task) =>
    if q = (c.nodeID, id + 1) then pieces s c.nodeID id ⟨task, 0⟩ else [])

/-- The operations of some calls on a queue pair. -/
def issued (s : Socket) (calls : List Call) (q : QueuePair) : List WorkRequest :=
  calls.flatMap (fun c => c.issues s q)

/-- The workers wait for tasks, and there are none. -/
structure Resting (d : State) : Prop where
  queue : d.queue = fun _ => Queue.empty
  worker : d.worker = fun _ => Worker.polling
  tasks : d.tasks = fun _ => none

/-- A step that cannot be made is only not ready. -/
def Defined (s : Socket) (device : Device) (d : State) : Prop :=
  forall event e, step s device d event = Except.error e -> e = Stop.notReady

/-- The event is not the begin of a call. -/
def Internal (event : Event) : Prop :=
  forall c, event ≠ Event.call c

/-- A thread or the card can go on. -/
def Live (s : Socket) (device : Device) (d : State) : Prop :=
  exists event out d', Internal event ∧ step s device d event = Except.ok (out, d')

/-!
# The stages of a task
-/

/-- How far the task of a worker has come in a large call. -/
inductive Stage where
  | unborn
  | appended
  | queued
  | seen
  | erased
  | taken
  | working (phase : Phase)
  | signalled

namespace Stage

/-- The worker's queue, at a stage of its task. -/
def queue (i : WorkerID) : Stage -> Queue WorkerID
  | appended => { queue := [i], offset := 0 }
  | queued => { queue := [i], offset := 1 }
  | seen => { queue := [i], offset := 1 }
  | erased => { queue := [], offset := 1 }
  | _ => Queue.empty

def worker (nodeID : UInt16) (i : WorkerID) : Stage -> Worker
  | seen => Worker.taking
  | erased => Worker.discounting i
  | taken => Worker.taken i
  | working phase => Worker.working nodeID phase
  | _ => Worker.polling

def phase (task : TransferTask) : Stage -> Phase
  | working phase => phase
  | signalled => Phase.idle
  | _ => Phase.looping ⟨task, 0⟩

def signals : Stage -> Nat
  | signalled => 1
  | _ => 0

theorem signals_le (g : Stage) : g.signals ≤ 1 := by
  cases g with
  | signalled => exact Nat.le_refl 1
  | _ => exact Nat.zero_le 1

theorem eq_signalled {g : Stage} (h : g.signals = 1) : g = signalled := by
  cases g with
  | signalled => rfl
  | _ => cases h

/-- The statements before and after the work on the task. -/
def around : Stage -> Nat
  | seen => 4
  | erased => 3
  | taken => 2
  | working _ => 1
  | signalled => 0
  | _ => 5

/-- A bound on what the worker, and the card for it, have yet to do. -/
def ticks (s : Socket) (c : Call) (i : WorkerID) (g : Stage) : Nat :=
  g.around + SharedCard.ticks s c.nodeID i (g.phase (c.task i))

/-- The push of the task is over. -/
def Pushed : Stage -> Prop
  | unborn => False
  | appended => False
  | _ => True

end Stage

/-- Where the caller is, with the number of tasks that it has filled in. -/
inductive Position (c : Call) (stage : WorkerID -> Stage) : Caller -> Nat -> Prop where
  | filling {i : Nat} (hpushed : forall j, j.val < i -> (stage j).Pushed)
      (hunborn : forall j, i ≤ j.val -> stage j = Stage.unborn) :
      Position c stage (Caller.filling c i) i
  | appending {i : WorkerID} (hpushed : forall j, j < i -> (stage j).Pushed)
      (hunborn : forall j, i ≤ j -> stage j = Stage.unborn) :
      Position c stage (Caller.appending c i) (i + 1)
  | counting {i : WorkerID} (hpushed : forall j, j < i -> (stage j).Pushed)
      (happended : stage i = Stage.appended)
      (hunborn : forall j, i < j -> stage j = Stage.unborn) :
      Position c stage (Caller.counting c i) (i + 1)
  | waiting (hpushed : forall j, (stage j).Pushed) :
      Position c stage (Caller.waiting c) workerNumber

/--
A large call with its tasks at these stages; {lit}`P` relates the phases of its threads
to the card.
-/
structure Running (P : (WorkerID -> Phase) -> Card -> Prop) (c : Call)
    (stage : WorkerID -> Stage) (d : State) : Prop where
  large : ¬ c.size < smallSize
  position : exists filled, Position c stage d.caller filled ∧
    forall i, d.tasks i = if i.val < filled then some (c.nodeID, c.task i) else none
  queue : d.queue = fun i => (stage i).queue i
  worker : d.worker = fun i => (stage i).worker c.nodeID i
  signal : d.transferSignal.toNat = (stage 0).signals + (stage 1).signals
  card : P (fun i => (stage i).phase (c.task i)) d.card

/-- A bound on the statements of the caller in a large call. -/
def Caller.ticks : Caller -> Nat
  | idle => 0
  | small _ _ => 0
  | resetting _ => 9
  | filling _ i => 3 * (workerNumber - i) + 2
  | appending _ i => 3 * (workerNumber - i) + 1
  | counting _ i => 3 * (workerNumber - i)
  | waiting _ => 1

/-- A bound on the steps until a large call returns. -/
def potential (s : Socket) (c : Call) (stage : WorkerID -> Stage) (d : State) : Nat :=
  d.caller.ticks + ((stage 0).ticks s c 0 + (stage 1).ticks s c 1) + d.card.load c.nodeID

section Stages

variable {s : Socket} {device : Device} {P : (WorkerID -> Phase) -> Card -> Prop}
  {c : Call} {d d' : State} {stage : WorkerID -> Stage} {g : Stage} {i : WorkerID}

/-- A function of the stages, when one of them changes. -/
theorem update_stage {beta : Type} (f : WorkerID -> Stage -> beta) :
    (fun j => f j (Function.update stage i g j)) =
      Function.update (fun j => f j (stage j)) i (f i g) :=
  funext (Function.apply_update f stage i g)

/-- The caller or the worker has brought the task of a worker to another stage. -/
theorem Running.update (h : Running P c stage d)
    (hposition : exists filled, Position c (Function.update stage i g) d'.caller filled ∧
      forall j, d'.tasks j = if j.val < filled then some (c.nodeID, c.task j) else none)
    (hqueue : d'.queue = Function.update d.queue i (g.queue i))
    (hworker : d'.worker = Function.update d.worker i (g.worker c.nodeID i))
    (hsignal : d'.transferSignal.toNat + (stage i).signals =
      d.transferSignal.toNat + g.signals)
    (hcard : P (Function.update (fun j => (stage j).phase (c.task j)) i (g.phase (c.task i)))
      d'.card) :
    Running P c (Function.update stage i g) d' where
  large := h.large
  position := hposition
  queue := by
    rw [hqueue, h.queue]
    exact (update_stage (fun j g => g.queue j)).symm
  worker := by
    rw [hworker, h.worker]
    exact (update_stage (fun j g => g.worker c.nodeID j)).symm
  signal := by
    have hbefore := h.signal
    rcases worker_cases i with rfl | rfl
    · rw [Function.update_self, Function.update_of_ne (by decide)]
      omega
    · rw [Function.update_self, Function.update_of_ne (by decide)]
      omega
  card := by
    rw [update_stage (fun j g => g.phase (c.task j))]
    exact hcard

theorem Position.update {caller : Caller} {filled : Nat} (h : Position c stage caller filled)
    (hpushed : (stage i).Pushed) (hg : g.Pushed) :
    Position c (Function.update stage i g) caller filled := by
  have hkeeps : forall j, (stage j).Pushed -> (Function.update stage i g j).Pushed := by
    intro j hj
    by_cases heq : j = i
    · subst heq
      rw [Function.update_self]
      exact hg
    · rw [Function.update_of_ne heq]
      exact hj
  have hother : forall j, ¬ (stage j).Pushed -> Function.update stage i g j = stage j := by
    intro j hj
    apply Function.update_of_ne
    rintro rfl
    exact hj hpushed
  have hunborn : forall j, stage j = Stage.unborn ->
      Function.update stage i g j = Stage.unborn := by
    intro j hj
    rw [hother j (by rw [hj]; exact id), hj]
  cases h with
  | filling hbefore hafter =>
      exact Position.filling (fun j hj => hkeeps j (hbefore j hj))
        (fun j hj => hunborn j (hafter j hj))
  | appending hbefore hafter =>
      exact Position.appending (fun j hj => hkeeps j (hbefore j hj))
        (fun j hj => hunborn j (hafter j hj))
  | @counting k hbefore happended hafter =>
      refine Position.counting (fun j hj => hkeeps j (hbefore j hj)) ?_
        (fun j hj => hunborn j (hafter j hj))
      rw [hother k (by rw [happended]; exact id), happended]
  | waiting hall => exact Position.waiting (fun j => hkeeps j (hall j))

/-- A worker has gone on with its task. -/
theorem Running.work (h : Running P c stage d)
    (hpushed : (stage i).Pushed) (hg : g.Pushed) (hcaller : d'.caller = d.caller)
    (htasks : d'.tasks = d.tasks) (hqueue : d'.queue = Function.update d.queue i (g.queue i))
    (hworker : d'.worker = Function.update d.worker i (g.worker c.nodeID i))
    (hsignal : d'.transferSignal.toNat + (stage i).signals =
      d.transferSignal.toNat + g.signals)
    (hcard : P (Function.update (fun j => (stage j).phase (c.task j)) i (g.phase (c.task i)))
      d'.card) :
    Running P c (Function.update stage i g) d' := by
  rcases h.position with ⟨filled, hposition, hfilled⟩
  refine h.update ⟨filled, ?_, ?_⟩ hqueue hworker hsignal hcard
  · rw [hcaller]
    exact hposition.update hpushed hg
  · rw [htasks]
    exact hfilled

/-- The same, when the work has not begun, or has not moved. -/
theorem Running.same_card (h : Running P c stage d)
    (hphase : g.phase (c.task i) = (stage i).phase (c.task i)) :
    P (Function.update (fun j => (stage j).phase (c.task j)) i (g.phase (c.task i))) d.card := by
  rw [hphase, Function.update_eq_self i (fun j => (stage j).phase (c.task j))]
  exact h.card

/-- A worker comes nearer to the end of its task. -/
theorem potential_worker (hcaller : d'.caller = d.caller)
    (hticks : g.ticks s c i + d'.card.load c.nodeID <
      (stage i).ticks s c i + d.card.load c.nodeID) :
    potential s c (Function.update stage i g) d' < potential s c stage d := by
  unfold potential
  rw [hcaller]
  rcases worker_cases i with rfl | rfl
  · rw [Function.update_self, Function.update_of_ne (by decide)]
    omega
  · rw [Function.update_self, Function.update_of_ne (by decide)]
    omega

/-- The caller comes nearer to the end of the call. -/
theorem potential_caller {stage' : WorkerID -> Stage} (hcard : d'.card = d.card)
    (hcaller : d'.caller.ticks < d.caller.ticks)
    (hstage : forall j, (stage' j).ticks s c j = (stage j).ticks s c j) :
    potential s c stage' d' < potential s c stage d := by
  unfold potential
  rw [hcard, hstage, hstage]
  omega

theorem ticks_update (hg : g.ticks s c i = (stage i).ticks s c i) (j : WorkerID) :
    (Function.update stage i g j).ticks s c j = (stage j).ticks s c j := by
  by_cases hj : j = i
  · subst hj
    rw [Function.update_self]
    exact hg
  · rw [Function.update_of_ne hj]

/-- The task of a pushed pointer is in the array of the running call. -/
theorem Running.task_eq (h : Running P c stage d) (hpushed : (stage i).Pushed) :
    d.tasks i = some (c.nodeID, c.task i) := by
  rcases h.position with ⟨filled, hposition, hfilled⟩
  rw [hfilled i, if_pos]
  generalize d.caller = caller at hposition
  cases hposition with
  | @filling k hbefore hafter =>
      by_contra hge
      rw [hafter i (Nat.le_of_not_lt hge)] at hpushed
      exact hpushed
  | @appending k hbefore hafter =>
      by_contra hge
      rw [hafter i (Fin.le_def.mpr (by omega))] at hpushed
      exact hpushed
  | @counting k hbefore happended hafter =>
      by_contra hge
      rw [hafter i (Fin.lt_def.mpr (by omega))] at hpushed
      exact hpushed
  | waiting hall => exact i.isLt

theorem Running.worker_at (h : Running P c stage d) (i : WorkerID) :
    d.worker i = (stage i).worker c.nodeID i :=
  congrFun h.worker i

theorem Running.queue_at (h : Running P c stage d) (i : WorkerID) :
    d.queue i = (stage i).queue i :=
  congrFun h.queue i

theorem Running.same_queue (h : Running P c stage d) (hqueue : g.queue i = (stage i).queue i) :
    d.queue = Function.update d.queue i (g.queue i) := by
  rw [hqueue, ← h.queue_at, Function.update_eq_self]

/-!
## The workers
-/

/-- A statement in the midst of a task. -/
theorem Running.stepWorking (h : Running P c stage d) {phase : Phase}
    (hstage : stage i = Stage.working phase) (hphase : phase ≠ Phase.idle)
    (hworks : forall p x, SharedCard.work s device c.nodeID i phase d.card = some (p, x) ->
      P (Function.update (fun j => (stage j).phase (c.task j)) i p) x)
    (hstep : Dispatch.stepWorker s device d i = Except.ok d') :
    exists stage', Running P c stage' d' ∧ potential s c stage' d' < potential s c stage d := by
  have hworker : d.worker i = Worker.working c.nodeID phase := by
    rw [h.worker_at, hstage]
    rfl
  have hpushed : (stage i).Pushed := by
    rw [hstage]
    trivial
  unfold Dispatch.stepWorker at hstep
  rw [hworker] at hstep
  dsimp only at hstep
  rw [if_neg hphase] at hstep
  cases hwork : SharedCard.work s device c.nodeID i phase d.card with
  | none =>
      rw [hwork] at hstep
      cases hstep
  | some result =>
      rcases result with ⟨p, x⟩
      rw [hwork] at hstep
      cases hstep
      refine ⟨_, h.work (g := Stage.working p) hpushed trivial rfl rfl ?_ rfl ?_ ?_,
        potential_worker rfl ?_⟩
      · exact h.same_queue (by rw [hstage]; rfl)
      · rw [hstage]
        rfl
      · exact hworks p x hwork
      · rw [hstage]
        have hload := work_load hwork
        show 1 + SharedCard.ticks s c.nodeID i p + x.load c.nodeID <
          1 + SharedCard.ticks s c.nodeID i phase + d.card.load c.nodeID
        omega

/-- The worker counts its task as done. -/
theorem Running.stepSignal (h : Running P c stage d)
    (hstage : stage i = Stage.working Phase.idle)
    (hstep : Dispatch.stepWorker s device d i = Except.ok d') :
    exists stage', Running P c stage' d' ∧ potential s c stage' d' < potential s c stage d := by
  have hworker : d.worker i = Worker.working c.nodeID Phase.idle := by
    rw [h.worker_at, hstage]
    rfl
  have hpushed : (stage i).Pushed := by
    rw [hstage]
    trivial
  unfold Dispatch.stepWorker at hstep
  rw [hworker] at hstep
  dsimp only at hstep
  rw [if_pos rfl] at hstep
  cases hstep
  refine ⟨_, h.work (g := Stage.signalled) hpushed trivial rfl rfl ?_ rfl ?_ ?_,
    potential_worker rfl ?_⟩
  · exact h.same_queue (by rw [hstage]; rfl)
  · -- there are fewer tasks than the counter can count
    have hsignal := h.signal
    have hzero : (stage 0).signals ≤ 1 := Stage.signals_le _
    have hone : (stage 1).signals ≤ 1 := Stage.signals_le _
    have hnext : (d.transferSignal + 1).toNat = d.transferSignal.toNat + 1 := by
      rw [UInt16.toNat_add]
      exact Nat.mod_eq_of_lt (show d.transferSignal.toNat + 1 < 2 ^ 16 by omega)
    show (d.transferSignal + 1).toNat + (stage i).signals = _
    rw [hnext, hstage]
    rfl
  · exact h.same_card (by rw [hstage]; rfl)
  · rw [hstage]
    exact Nat.add_lt_add_right (Nat.lt_succ_self _) _

/-- A statement of a worker during a large call. -/
theorem Running.stepWorker (h : Running P c stage d)
    (hworks : forall phase p x, stage i = Stage.working phase ->
      SharedCard.work s device c.nodeID i phase d.card = some (p, x) ->
      P (Function.update (fun j => (stage j).phase (c.task j)) i p) x)
    (hstep : Dispatch.stepWorker s device d i = Except.ok d') :
    exists stage', Running P c stage' d' ∧ potential s c stage' d' < potential s c stage d := by
  have hunfold := hstep
  unfold Dispatch.stepWorker at hunfold
  rw [h.worker_at, h.queue_at] at hunfold
  cases hstage : stage i with
  | unborn =>
      rw [hstage] at hunfold
      cases hunfold
  | appended =>
      rw [hstage] at hunfold
      cases hunfold
  | queued =>
      have hpushed : (stage i).Pushed := by
        rw [hstage]
        trivial
      rw [hstage] at hunfold
      cases hunfold
      refine ⟨_, h.work (g := Stage.seen) hpushed trivial rfl rfl ?_ rfl ?_ ?_,
        potential_worker rfl ?_⟩
      · exact h.same_queue (by rw [hstage]; rfl)
      · rw [hstage]
        rfl
      · exact h.same_card (by rw [hstage]; rfl)
      · rw [hstage]
        exact Nat.add_lt_add_right (Nat.add_lt_add_right (Nat.lt_succ_self _) _) _
  | seen =>
      have hpushed : (stage i).Pushed := by
        rw [hstage]
        trivial
      rw [hstage] at hunfold
      cases hunfold
      refine ⟨_, h.work (g := Stage.erased) hpushed trivial rfl rfl rfl rfl ?_ ?_,
        potential_worker rfl ?_⟩
      · rw [hstage]
        rfl
      · exact h.same_card (by rw [hstage]; rfl)
      · rw [hstage]
        exact Nat.add_lt_add_right (Nat.add_lt_add_right (Nat.lt_succ_self _) _) _
  | erased =>
      have hpushed : (stage i).Pushed := by
        rw [hstage]
        trivial
      rw [hstage] at hunfold
      cases hunfold
      refine ⟨_, h.work (g := Stage.taken) hpushed trivial rfl rfl ?_ rfl ?_ ?_,
        potential_worker rfl ?_⟩
      · have hzero : (1 : UInt8) - 1 = 0 := by
          decide
        show Function.update d.queue i { queue := [], offset := 1 - 1 } = _
        rw [hzero]
        rfl
      · rw [hstage]
        rfl
      · exact h.same_card (by rw [hstage]; rfl)
      · rw [hstage]
        exact Nat.add_lt_add_right (Nat.add_lt_add_right (Nat.lt_succ_self _) _) _
  | taken =>
      have hpushed : (stage i).Pushed := by
        rw [hstage]
        trivial
      rw [hstage] at hunfold
      dsimp only [Stage.worker] at hunfold
      rw [h.task_eq hpushed] at hunfold
      cases hunfold
      refine ⟨_, h.work (g := Stage.working (Phase.looping ⟨c.task i, 0⟩)) hpushed trivial rfl
        rfl ?_ rfl ?_ ?_, potential_worker rfl ?_⟩
      · exact h.same_queue (by rw [hstage]; rfl)
      · rw [hstage]
        rfl
      · exact h.same_card (by rw [hstage]; rfl)
      · rw [hstage]
        exact Nat.add_lt_add_right (Nat.add_lt_add_right (Nat.lt_succ_self _) _) _
  | working phase =>
      by_cases hphase : phase = Phase.idle
      · subst hphase
        exact h.stepSignal hstage hstep
      · exact h.stepWorking hstage hphase (fun p x hwork => hworks phase p x hstage hwork) hstep
  | signalled =>
      rw [hstage] at hunfold
      cases hunfold

/-!
## The caller
-/

/-- The caller fills in a task, or finds that there are no more. -/
theorem Running.stepFilling (h : Running P c stage d) {k : Nat}
    (hcaller : d.caller = Caller.filling c k) {out : Option Call}
    (hstep : stepCaller s device d = Except.ok (out, d')) :
    out = none ∧ Running P c stage d' ∧ potential s c stage d' < potential s c stage d := by
  rcases h.position with ⟨filled, hposition, hfilled⟩
  rw [hcaller] at hposition
  unfold stepCaller at hstep
  rw [hcaller] at hstep
  dsimp only at hstep
  cases hposition with
  | filling hpushed hunborn =>
      split at hstep
      · rename_i hk
        cases hstep
        refine ⟨rfl, ⟨h.large, ⟨_, Position.appending (i := ⟨k, hk⟩) hpushed hunborn, ?_⟩,
          h.queue, h.worker, h.signal, h.card⟩, potential_caller rfl ?_ (fun _ => rfl)⟩
        · intro j
          by_cases hj : j = ⟨k, hk⟩
          · subst hj
            show Function.update d.tasks _ _ _ = _
            rw [Function.update_self, if_pos (Nat.lt_succ_self k)]
          · have hne : j.val ≠ k := fun heq => hj (Fin.ext heq)
            show Function.update d.tasks _ _ _ = _
            rw [Function.update_of_ne hj, hfilled j]
            by_cases hlt : j.val < k
            · rw [if_pos hlt, if_pos (Nat.lt_succ_of_lt hlt)]
            · rw [if_neg hlt, if_neg (show ¬ j.val < k + 1 by omega)]
        · rw [hcaller]
          exact Nat.lt_succ_self _
      · rename_i hk
        cases hstep
        have hall : forall j : WorkerID, j.val < k :=
          fun j => Nat.lt_of_lt_of_le j.isLt (Nat.le_of_not_lt hk)
        refine ⟨rfl, ⟨h.large, ⟨_, Position.waiting (fun j => hpushed j (hall j)), ?_⟩,
          h.queue, h.worker, h.signal, h.card⟩, potential_caller rfl ?_ (fun _ => rfl)⟩
        · intro j
          rw [if_pos j.isLt]
          exact (hfilled j).trans (if_pos (hall j))
        · rw [hcaller]
          exact Nat.lt_of_lt_of_le (Nat.lt_succ_self 1) (Nat.le_add_left 2 _)

/-- The caller puts the pointer to a task on the queue of its worker. -/
theorem Running.stepAppending (h : Running P c stage d) {k : WorkerID}
    (hcaller : d.caller = Caller.appending c k) {out : Option Call}
    (hstep : stepCaller s device d = Except.ok (out, d')) :
    out = none ∧ exists stage', Running P c stage' d' ∧
      potential s c stage' d' < potential s c stage d := by
  rcases h.position with ⟨filled, hposition, hfilled⟩
  rw [hcaller] at hposition
  unfold stepCaller at hstep
  rw [hcaller] at hstep
  cases hstep
  cases hposition with
  | appending hpushed hunborn =>
      have hstage : stage k = Stage.unborn := hunborn k (le_refl k)
      have hother : forall j, j ≠ k -> Function.update stage k Stage.appended j = stage j :=
        fun j hj => Function.update_of_ne hj _ _
      refine ⟨rfl, _, h.update (i := k) (g := Stage.appended) ⟨_, Position.counting ?_ ?_ ?_,
        hfilled⟩ ?_ ?_ ?_ ?_, potential_caller rfl ?_ (ticks_update ?_)⟩
      · intro j hj
        rw [hother j (ne_of_lt hj)]
        exact hpushed j hj
      · exact Function.update_self _ _ _
      · intro j hj
        rw [hother j (ne_of_gt hj)]
        exact hunborn j (le_of_lt hj)
      · rw [h.queue_at, hstage]
        rfl
      · have hsame : Stage.appended.worker c.nodeID k = d.worker k := by
          rw [h.worker_at, hstage]
          rfl
        rw [hsame, Function.update_eq_self]
      · rw [hstage]
        rfl
      · exact h.same_card (by rw [hstage]; rfl)
      · rw [hcaller]
        exact Nat.lt_succ_self _
      · rw [hstage]
        rfl

/-- The caller raises the counter of the queue. -/
theorem Running.stepCounting (h : Running P c stage d) {k : WorkerID}
    (hcaller : d.caller = Caller.counting c k) {out : Option Call}
    (hstep : stepCaller s device d = Except.ok (out, d')) :
    out = none ∧ exists stage', Running P c stage' d' ∧
      potential s c stage' d' < potential s c stage d := by
  rcases h.position with ⟨filled, hposition, hfilled⟩
  rw [hcaller] at hposition
  unfold stepCaller at hstep
  rw [hcaller] at hstep
  cases hstep
  cases hposition with
  | counting hpushed happended hunborn =>
      have hother : forall j, j ≠ k -> Function.update stage k Stage.queued j = stage j :=
        fun j hj => Function.update_of_ne hj _ _
      refine ⟨rfl, _, h.update (i := k) (g := Stage.queued) ⟨_, Position.filling ?_ ?_,
        hfilled⟩ ?_ ?_ ?_ ?_, potential_caller rfl ?_ (ticks_update ?_)⟩
      · intro j hj
        by_cases heq : j = k
        · subst heq
          rw [Function.update_self]
          trivial
        · rw [hother j heq]
          exact hpushed j (lt_of_le_of_ne (Fin.le_def.mpr (Nat.le_of_lt_succ hj)) heq)
      · intro j hj
        have hlt : k < j := Fin.lt_def.mpr hj
        rw [hother j (ne_of_gt hlt)]
        exact hunborn j hlt
      · have hone : (0 : UInt8) + 1 = 1 := by
          decide
        rw [h.queue_at, happended]
        show Function.update d.queue k { queue := [k], offset := 0 + 1 } = _
        rw [hone]
        rfl
      · have hsame : Stage.queued.worker c.nodeID k = d.worker k := by
          rw [h.worker_at, happended]
          rfl
        rw [hsame, Function.update_eq_self]
      · rw [happended]
        rfl
      · exact h.same_card (by rw [happended]; rfl)
      · rw [hcaller]
        have hk : k.val < workerNumber := k.isLt
        show 3 * (workerNumber - (k.val + 1)) + 2 < 3 * (workerNumber - k.val)
        omega
      · rw [happended]
        rfl

/-- A large call returns when both tasks are done, and leaves nothing behind. -/
theorem Running.stepWaiting (h : Running P c stage d)
    (hcaller : d.caller = Caller.waiting c) {out : Option Call}
    (hstep : stepCaller s device d = Except.ok (out, d')) :
    out = some c ∧ d'.caller = Caller.idle ∧ Resting d' ∧ P (fun _ => Phase.idle) d'.card ∧
      0 < potential s c stage d := by
  unfold stepCaller at hstep
  rw [hcaller] at hstep
  dsimp only at hstep
  split at hstep
  · rename_i hcount
    cases hstep
    have hsignal := h.signal
    have htwo : d.transferSignal.toNat = 2 := hcount
    have hzero := Stage.signals_le (stage 0)
    have hone := Stage.signals_le (stage 1)
    have hall : forall i, stage i = Stage.signalled := by
      intro i
      apply Stage.eq_signalled
      rcases worker_cases i with rfl | rfl
      · omega
      · omega
    refine ⟨rfl, rfl, ⟨?_, ?_, rfl⟩, ?_, ?_⟩
    · funext i
      show d.queue i = _
      rw [h.queue_at, hall i]
      rfl
    · funext i
      show d.worker i = _
      rw [h.worker_at, hall i]
      rfl
    · have hphases : (fun i => (stage i).phase (c.task i)) = fun _ => Phase.idle := by
        funext i
        rw [hall i]
        rfl
      rw [← hphases]
      exact h.card
    · unfold potential
      rw [hcaller]
      exact Nat.lt_of_lt_of_le (Nat.lt_succ_self 0)
        (Nat.le_trans (Nat.le_add_right 1 _) (Nat.le_add_right _ _))
  · cases hstep

/-- The first statement of a large call. -/
theorem running_of_resetting (hcaller : d.caller = Caller.resetting c)
    (hlarge : ¬ c.size < smallSize) (hrest : Resting d)
    (hcard : P (fun i => Phase.looping ⟨c.task i, 0⟩) d.card) {out : Option Call}
    (hstep : stepCaller s device d = Except.ok (out, d')) :
    out = none ∧ Running P c (fun _ => Stage.unborn) d' ∧
      potential s c (fun _ => Stage.unborn) d' < potential s c (fun _ => Stage.unborn) d := by
  unfold stepCaller at hstep
  rw [hcaller] at hstep
  cases hstep
  have hfirst : Position c (fun _ => Stage.unborn) (Caller.filling c 0) 0 :=
    Position.filling (fun j hj => absurd hj (Nat.not_lt_zero _)) (fun _ _ => rfl)
  refine ⟨rfl, ⟨hlarge, ⟨0, hfirst, fun i => congrFun hrest.tasks i⟩, hrest.queue,
    hrest.worker, rfl, hcard⟩, potential_caller rfl ?_ (fun _ => rfl)⟩
  rw [hcaller]
  exact Nat.lt_succ_self 8

/-- A statement of the caller during a large call. -/
theorem Running.stepCaller (h : Running P c stage d) {out : Option Call}
    (hstep : Dispatch.stepCaller s device d = Except.ok (out, d')) :
    (out = none ∧ exists stage', Running P c stage' d' ∧
      potential s c stage' d' < potential s c stage d) ∨
    (out = some c ∧ d'.caller = Caller.idle ∧ Resting d' ∧
      P (fun _ => Phase.idle) d'.card ∧ 0 < potential s c stage d) := by
  rcases h.position with ⟨filled, hposition, _⟩
  generalize hcaller : d.caller = caller at hposition
  cases hposition with
  | filling _ _ =>
      rcases h.stepFilling hcaller hstep with ⟨hout, hnext⟩
      exact Or.inl ⟨hout, stage, hnext⟩
  | appending _ _ => exact Or.inl (h.stepAppending hcaller hstep)
  | counting _ _ _ => exact Or.inl (h.stepCounting hcaller hstep)
  | waiting _ => exact Or.inr (h.stepWaiting hcaller hstep)

end Stages

end Dispatch
end Net
end SpongeBob
