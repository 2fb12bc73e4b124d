import SpongeBob.Net.Calls

/-!
# Every call returns

Whatever the order of the statements and of the completions, and whoever takes whose
entry from the completion queue: a call that returns has posted each piece of its tasks
once, and all of them have completed.  As long as the card refuses nothing, every call
returns.
-/

namespace SpongeBob
namespace Net
namespace Dispatch

open Foundation
open Completion (WorkerID Loop WorkRequest Phase)
open Transfer
open Shares
open SharedCard
open Workers (worker_cases)

/-- Between the calls: everything is done, and the pieces of the calls have been posted. -/
structure AtRest (s : Socket) (device : Device) (calls : List Call) (d : State) : Prop where
  resting : Resting d
  answered : Answered device d.card
  requests : d.card.machine.requests = issued s calls

/-!
# The contract
-/

def Quiet (s : Socket) (device : Device) (calls : List Call) (x : Card) : Prop :=
  Answered device x ∧ x.machine.requests = issued s calls

def Underway (s : Socket) (device : Device) (calls : List Call) (c : Call)
    (phase : WorkerID -> Phase) (x : Card) : Prop :=
  Balanced s device c.nodeID (fun q => issued s calls q ++ c.issues s q) phase x

section Contract

variable {s : Socket} {device : Device} {c : Call} {calls : List Call} {q : QueuePair}
  {x : Card}

theorem inPoll_phases (i : WorkerID) : (c.phases i).inPoll = false := by
  unfold Call.phases
  split
  · rcases worker_cases i with rfl | rfl
    · rfl
    · rfl
  · rfl

theorem issues_of_small (hsmall : c.size < smallSize) : c.issues s q =
    if q = (c.nodeID, 1) then pieces s c.nodeID 0 ⟨c.whole, 0⟩ else [] := by
  unfold Call.issues tasks
  rw [if_pos hsmall]
  exact List.append_nil _

theorem issues_of_large (hlarge : ¬ c.size < smallSize) : c.issues s q =
    (if q = (c.nodeID, 1) then pieces s c.nodeID 0 ⟨c.task 0, 0⟩ else []) ++
      if q = (c.nodeID, 2) then pieces s c.nodeID 1 ⟨c.task 1, 0⟩ else [] := by
  unfold Call.issues tasks
  rw [if_neg hlarge]
  exact congrArg (List.append _) (List.append_nil _)

/-- The operations of a call are those that its threads have yet to post at its start. -/
theorem issues_queuePair (i : WorkerID) :
    c.issues s (c.nodeID, i.val + 1) = toPost s c.nodeID i (c.phases i) := by
  have hone : ((c.nodeID, 1) : QueuePair) ≠ (c.nodeID, 2) := queuePair_ne (i := 1) (j := 0)
    (by decide)
  unfold Call.phases
  by_cases hsize : c.size < smallSize
  · rw [issues_of_small hsize, if_pos hsize]
    rcases worker_cases i with rfl | rfl
    · exact if_pos rfl
    · exact if_neg hone.symm
  · rw [issues_of_large hsize, if_neg hsize]
    rcases worker_cases i with rfl | rfl
    · show (if ((c.nodeID, 1) : QueuePair) = (c.nodeID, 1) then _ else []) ++
        (if ((c.nodeID, 1) : QueuePair) = (c.nodeID, 2) then _ else []) = _
      rw [if_pos rfl, if_neg hone, List.append_nil]
      rfl
    · show (if ((c.nodeID, 2) : QueuePair) = (c.nodeID, 1) then _ else []) ++
        (if ((c.nodeID, 2) : QueuePair) = (c.nodeID, 2) then _ else []) = _
      rw [if_neg hone.symm, if_pos rfl, List.nil_append]
      rfl

theorem issues_others (hq : forall i : WorkerID, q ≠ (c.nodeID, i.val + 1)) :
    c.issues s q = [] := by
  have hfirst : q ≠ (c.nodeID, 1) := hq 0
  have hsecond : q ≠ (c.nodeID, 2) := hq 1
  by_cases hsize : c.size < smallSize
  · rw [issues_of_small hsize, if_neg hfirst]
  · rw [issues_of_large hsize, if_neg hfirst, if_neg hsecond]
    rfl

theorem issued_concat : issued s (calls ++ [c]) q = issued s calls q ++ c.issues s q := by
  unfold issued
  rw [List.flatMap_append, List.flatMap_singleton]

/-- Every call leaves the card with nothing to do. -/
theorem contract_underway : Contract s device (fun _ => True) (fun _ _ _ => True)
    (Quiet s device) (Underway s device) where
  quiet := by
    rintro calls x q ⟨hanswered, _⟩
    unfold Card.complete
    rw [hanswered.pending]
  begins := by
    rintro calls c x _ ⟨hanswered, hrequests⟩
    apply hanswered.balanced inPoll_phases
    · intro i
      rw [hrequests, issues_queuePair]
    · intro q hq
      rw [hrequests, issues_others hq, List.append_nil]
  works := fun _ _ _ _ _ _ _ h _ hwork => h.work hwork
  completes := fun _ _ _ _ _ _ h hcomplete => h.complete hcomplete
  owns := fun _ _ _ _ _ _ h hcomplete => h.queuePair_of_complete hcomplete
  ends := by
    intro calls c x h
    rcases h.answered (fun _ => rfl) with ⟨hanswered, hrequests⟩
    refine ⟨hanswered, ?_⟩
    rw [hrequests]
    funext q
    exact issued_concat.symm

end Contract

/-!
# Undefined behaviour
-/

section Defined

variable {s : Socket} {device : Device} {P : (WorkerID -> Phase) -> Card -> Prop}
  {rest : List Call -> Card -> Prop}
  {busy : List Call -> Call -> (WorkerID -> Phase) -> Card -> Prop} {calls : List Call}
  {n : Nat} {c : Call} {d : State} {stage : WorkerID -> Stage} {i : WorkerID} {e : Stop}

/-- A worker finds its pointer in the vector, and its task in the array. -/
theorem Running.defined (h : Running P c stage d)
    (hstep : Dispatch.stepWorker s device d i = Except.error e) : e = Stop.notReady := by
  unfold Dispatch.stepWorker at hstep
  rw [h.worker_at, h.queue_at] at hstep
  cases hstage : stage i with
  | unborn =>
      rw [hstage] at hstep
      cases hstep
      rfl
  | appended =>
      rw [hstage] at hstep
      cases hstep
      rfl
  | queued =>
      rw [hstage] at hstep
      cases hstep
  | seen =>
      rw [hstage] at hstep
      cases hstep
  | erased =>
      rw [hstage] at hstep
      cases hstep
  | taken =>
      have hpushed : (stage i).Pushed := by
        rw [hstage]
        trivial
      rw [hstage] at hstep
      dsimp only [Stage.worker] at hstep
      rw [h.task_eq hpushed] at hstep
      cases hstep
  | working phase =>
      rw [hstage] at hstep
      dsimp only [Stage.worker] at hstep
      split at hstep
      · cases hstep
      · split at hstep
        · cases hstep
        · cases hstep
          rfl
  | signalled =>
      rw [hstage] at hstep
      cases hstep
      rfl

theorem stepCaller_defined (hstep : stepCaller s device d = Except.error e) :
    e = Stop.notReady := by
  unfold stepCaller at hstep
  split at hstep
  · cases hstep
    rfl
  · split at hstep
    · cases hstep
    · split at hstep
      · cases hstep
      · cases hstep
        rfl
  · cases hstep
  · split at hstep
    · cases hstep
    · cases hstep
  · cases hstep
  · cases hstep
  · split at hstep
    · cases hstep
    · cases hstep
      rfl

theorem Inv.defined (h : Inv s rest busy calls n d) : Defined s device d := by
  intro event e hstep
  cases event with
  | call c =>
      unfold Dispatch.step at hstep
      dsimp only at hstep
      split at hstep
      · cases hstep
      · cases hstep
        rfl
  | caller => exact stepCaller_defined hstep
  | worker i =>
      have hworker : Dispatch.stepWorker s device d i = Except.error e := by
        unfold Dispatch.step at hstep
        cases hresult : Dispatch.stepWorker s device d i with
        | error e' =>
            dsimp only at hstep
            rw [hresult] at hstep
            cases hstep
            rfl
        | ok d' =>
            dsimp only at hstep
            rw [hresult] at hstep
            cases hstep
      have hresting : Resting d -> e = Stop.notReady := by
        intro hrest
        rw [hrest.not_stepWorker i] at hworker
        cases hworker
        rfl
      cases h with
      | idle _ hrest _ => exact hresting hrest
      | small _ _ hrest _ _ => exact hresting hrest
      | resetting _ _ hrest _ _ => exact hresting hrest
      | running h _ => exact h.defined hworker
  | card q =>
      unfold Dispatch.step at hstep
      dsimp only at hstep
      split at hstep
      · cases hstep
      · cases hstep
        rfl

/-!
# Progress
-/

theorem live_of_caller {out : Option Call} {d' : State}
    (hstep : stepCaller s device d = Except.ok (out, d')) : Live s device d :=
  ⟨Event.caller, out, d', (fun _ h => by cases h), hstep⟩

theorem live_of_worker {d' : State} (hstep : stepWorker s device d i = Except.ok d') :
    Live s device d := by
  refine ⟨Event.worker i, none, d', (fun _ h => by cases h), ?_⟩
  unfold Dispatch.step
  dsimp only
  rw [hstep]
  rfl

theorem live_of_complete (h : exists q x, d.card.complete q = some x) : Live s device d := by
  rcases h with ⟨q, x, hcomplete⟩
  refine ⟨Event.card q, none, { d with card := x }, (fun _ h => by cases h), ?_⟩
  unfold Dispatch.step
  dsimp only
  rw [hcomplete]

/-- A thread in the midst of a task goes on, or the card does. -/
theorem Running.live_of_working (h : Running P c stage d) {phase : Phase}
    (hserves : forall i, ((stage i).phase (c.task i)).inPoll = true -> d.card.entries = [] ->
      exists q x, d.card.complete q = some x)
    (hstage : stage i = Stage.working phase) : Live s device d := by
  have hworker : d.worker i = Worker.working c.nodeID phase := by
    rw [h.worker_at, hstage]
    rfl
  by_cases hphase : phase = Phase.idle
  · apply live_of_worker (i := i)
    unfold Dispatch.stepWorker
    rw [hworker]
    exact if_pos hphase
  · have hwork : (exists p x,
          SharedCard.work s device c.nodeID i phase d.card = some (p, x)) ∨
        phase.inPoll = true ∧ d.card.entries = [] :=
      exists_work hphase
    rcases hwork with ⟨p, x, hwork⟩ | ⟨hpoll, hentries⟩
    · apply live_of_worker (i := i)
      unfold Dispatch.stepWorker
      rw [hworker]
      dsimp only
      rw [if_neg hphase, hwork]
    · apply live_of_complete
      apply hserves i _ hentries
      rw [hstage]
      exact hpoll

/-- A worker whose task has been pushed and is not done goes on, or the card does. -/
theorem Running.live_of_pushed (h : Running P c stage d)
    (hserves : forall i, ((stage i).phase (c.task i)).inPoll = true -> d.card.entries = [] ->
      exists q x, d.card.complete q = some x)
    (hpushed : (stage i).Pushed) (hundone : stage i ≠ Stage.signalled) : Live s device d := by
  have hunfold : forall result, Dispatch.stepWorker s device d i = result ->
      (forall e, result ≠ Except.error e) -> Live s device d := by
    intro result hresult hok
    cases result with
    | error e => exact absurd rfl (hok e)
    | ok d' => exact live_of_worker hresult
  cases hstage : stage i with
  | unborn =>
      rw [hstage] at hpushed
      exact absurd hpushed id
  | appended =>
      rw [hstage] at hpushed
      exact absurd hpushed id
  | working phase => exact h.live_of_working hserves hstage
  | signalled => exact absurd hstage hundone
  | taken =>
      refine hunfold _ rfl (fun e he => ?_)
      unfold Dispatch.stepWorker at he
      rw [h.worker_at, hstage] at he
      dsimp only [Stage.worker] at he
      rw [h.task_eq hpushed] at he
      cases he
  | _ =>
      refine hunfold _ rfl (fun e he => ?_)
      unfold Dispatch.stepWorker at he
      rw [h.worker_at, h.queue_at, hstage] at he
      cases he

/-- A large call goes on. -/
theorem Running.live (h : Running P c stage d)
    (hserves : forall i, ((stage i).phase (c.task i)).inPoll = true -> d.card.entries = [] ->
      exists q x, d.card.complete q = some x) : Live s device d := by
  have hunfold : forall result, Dispatch.stepCaller s device d = result ->
      (forall e, result ≠ Except.error e) -> Live s device d := by
    intro result hresult hok
    cases result with
    | error e => exact absurd rfl (hok e)
    | ok next => exact live_of_caller hresult
  rcases h.position with ⟨filled, hposition, _⟩
  generalize hcaller : d.caller = caller at hposition
  cases hposition with
  | filling _ _ =>
      refine hunfold _ rfl (fun e he => ?_)
      unfold Dispatch.stepCaller at he
      rw [hcaller] at he
      dsimp only at he
      split at he
      · cases he
      · cases he
  | appending _ _ =>
      refine hunfold _ rfl (fun e he => ?_)
      unfold Dispatch.stepCaller at he
      rw [hcaller] at he
      cases he
  | counting _ _ _ =>
      refine hunfold _ rfl (fun e he => ?_)
      unfold Dispatch.stepCaller at he
      rw [hcaller] at he
      cases he
  | waiting hpushed =>
      by_cases hall : forall i, stage i = Stage.signalled
      · refine hunfold _ rfl (fun e he => ?_)
        have hsignal : d.transferSignal.toNat = workerNumber := by
          rw [h.signal, hall 0, hall 1]
          rfl
        unfold Dispatch.stepCaller at he
        rw [hcaller] at he
        dsimp only at he
        rw [if_pos hsignal] at he
        cases he
      · rcases not_forall.mp hall with ⟨i, hundone⟩
        exact h.live_of_pushed hserves (hpushed i) hundone

/-- While a call is running, a thread or the card goes on. -/
theorem Inv.live (h : Inv s rest busy calls n d) (hbusy : d.caller ≠ Caller.idle)
    (hserves : forall c phase (i : WorkerID), busy calls c phase d.card ->
      (phase i).inPoll = true -> d.card.entries = [] ->
      exists q x, d.card.complete q = some x) : Live s device d := by
  cases h with
  | idle hcaller _ _ => exact absurd hcaller hbusy
  | @small c p hcaller _ hrest hcard _ =>
      by_cases hphase : p = Phase.idle
      · have hstep : Dispatch.stepCaller s device d = Except.ok (some c,
            { d with transferSignal := d.transferSignal + 1, caller := Caller.idle }) := by
          unfold Dispatch.stepCaller
          rw [hcaller]
          exact if_pos hphase
        exact live_of_caller hstep
      · have hwork : (exists p' x, work s device c.nodeID 0 p d.card = some (p', x)) ∨
            p.inPoll = true ∧ d.card.entries = [] :=
          exists_work hphase
        rcases hwork with ⟨p', x, hwork⟩ | ⟨hpoll, hentries⟩
        · have hstep : Dispatch.stepCaller s device d = Except.ok (none,
              { d with card := x, caller := Caller.small c p' }) := by
            unfold Dispatch.stepCaller
            rw [hcaller]
            dsimp only
            rw [if_neg hphase, hwork]
          exact live_of_caller hstep
        · apply live_of_complete
          apply hserves c (alone p) 0 hcard _ hentries
          exact hpoll
  | @resetting c hcaller _ _ _ _ =>
      have hstep : Dispatch.stepCaller s device d = Except.ok (none,
          { d with transferSignal := 0, caller := Caller.filling c 0 }) := by
        unfold Dispatch.stepCaller
        rw [hcaller]
      exact live_of_caller hstep
  | running h _ => exact h.live (fun i hpoll hentries => hserves _ _ i h.card hpoll hentries)

end Defined

/-!
# The results
-/

section Results

variable {s : Socket} {device : Device} {m : Machine} {events : List Event}
  {outs : List (Option Call)} {d : State}

theorem permits_true (event : Event) :
    Permits (fun _ => True) (fun _ _ _ => True) d event := by
  cases event with
  | call c => trivial
  | caller => trivial
  | worker i => exact fun _ _ _ => trivial
  | card q => trivial

theorem inv_of_run (hfresh : m.requests = fun _ => [])
    (hrun : runFrom (step s device) (State.start m) events = Except.ok (outs, d)) :
    exists n, Inv s (Quiet s device) (Underway s device) (returned outs) n d := by
  have hstart : Quiet s device [] (Card.start m) := by
    refine ⟨⟨rfl, rfl, ?_⟩, hfresh⟩
    intro q
    show refused device m q = 0
    unfold refused
    rw [hfresh]
    rfl
  exact contract_underway.run hstart (fun _ event _ _ _ _ _ => permits_true event) hrun

end Results

/--
In every run of a client that has posted nothing yet, no worker takes a pointer from an
empty vector or follows one to a task that is gone.  When no call is running, the workers
are back at their queues, every operation has been accepted and has completed, every entry
has been taken, and the operations that have been posted are the pieces of the calls that
have returned, in their order on each queue pair.
-/
theorem calls_answered (s : Socket) (device : Device) (m : Machine)
    (hfresh : m.requests = fun _ => []) {events : List Event} {outs : List (Option Call)}
    {d : State} (hrun : runFrom (step s device) (State.start m) events = Except.ok (outs, d)) :
    Defined s device d ∧ (d.caller = Caller.idle -> AtRest s device (returned outs) d) := by
  rcases inv_of_run hfresh hrun with ⟨n, hinv⟩
  constructor
  · exact hinv.defined
  · intro hidle
    rcases hinv.of_idle hidle with ⟨hrest, hanswered, hrequests⟩
    exact ⟨hrest, hanswered, hrequests⟩

/-- The smallest call that is divided between the workers. -/
def halves : Call where
  opType := false
  bufferSend := 4 * 1024 * 1024
  nodeID := 1
  bufferReceive := 0
  size := 4 * 1024 * 1024

/-- Both workers have posted, and the second operation completes before the first one. -/
def bothPosted : List Event :=
  [Event.call halves] ++ List.replicate 8 Event.caller ++
    List.replicate 5 (Event.worker 0) ++ List.replicate 5 (Event.worker 1) ++
    [Event.card (1, 2)]

/-- The first worker takes that entry and goes on, and in the end both are done. -/
def entryTaken : List Event :=
  bothPosted ++ List.replicate 3 (Event.worker 0) ++
    [Event.card (1, 1), Event.card (1, 1)] ++ List.replicate 3 (Event.worker 1) ++
    [Event.card (1, 2)] ++ List.replicate 4 (Event.worker 0) ++
    List.replicate 4 (Event.worker 1) ++ [Event.caller]

theorem calls_answered_entryTaken : exists outs d,
    runFrom (step plainSocket steady) (State.start numbered) entryTaken = Except.ok (outs, d) ∧
    returned outs = [halves] ∧ AtRest plainSocket steady (returned outs) d := by
  have hpass : passes (runFrom (step plainSocket steady) (State.start numbered) entryTaken)
      (fun (outs, d) => decide (returned outs = [halves]) && decide (d.caller = Caller.idle)) =
        true := by
    decide +kernel
  rcases exists_of_passes hpass with ⟨⟨outs, d⟩, hrun, htest⟩
  rw [Bool.and_eq_true, decide_eq_true_iff, decide_eq_true_iff] at htest
  exact ⟨outs, d, hrun, htest.left,
    (calls_answered plainSocket steady numbered rfl hrun).right htest.right⟩

end Dispatch
end Net
end SpongeBob
