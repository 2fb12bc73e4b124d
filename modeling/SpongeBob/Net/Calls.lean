import SpongeBob.Net.Dispatch

/-!
# Calls one after another

In every run the calls return one after another, and each one leaves the workers and
the card as it has found them.  What a call does with the card is a contract: what holds
at rest, what holds while the threads are in their phases, and that the statements of the
threads and the completions lead from the one to the other.
-/

namespace SpongeBob
namespace Net
namespace Dispatch

open Foundation
open Completion (WorkerID WorkRequest Phase)
open Transfer
open Shares
open SharedCard
open Workers (request worker_cases)

/-- The phases when only the caller works. -/
def alone (p : Phase) : WorkerID -> Phase :=
  Function.update (fun _ => Phase.idle) 0 p

/-- The phases at the start of a call. -/
def Call.phases (c : Call) : WorkerID -> Phase :=
  if c.size < smallSize then alone (Phase.looping ⟨c.whole, 0⟩)
  else fun i => Phase.looping ⟨c.task i, 0⟩

/--
{lit}`rest` holds of the calls that have returned and the card; {lit}`busy` takes also the
call that is running and the phases of its threads.  It is about calls with {lit}`fits`,
and statements of workers with {lit}`allowed`.
-/
structure Contract (s : Socket) (device : Device) (fits : Call -> Prop)
    (allowed : QueuePair -> Phase -> Card -> Prop) (rest : List Call -> Card -> Prop)
    (busy : List Call -> Call -> (WorkerID -> Phase) -> Card -> Prop) : Prop where
  quiet : forall calls x q, rest calls x -> x.complete q = none
  begins : forall calls c x, fits c -> rest calls x -> busy calls c c.phases x
  works : forall calls c phase x (i : WorkerID) p x', busy calls c phase x ->
    (¬ c.size < smallSize -> allowed (c.nodeID, i.val + 1) (phase i) x) ->
    work s device c.nodeID i (phase i) x = some (p, x') ->
    busy calls c (Function.update phase i p) x'
  completes : forall calls c phase x q x', busy calls c phase x -> x.complete q = some x' ->
    busy calls c phase x'
  owns : forall calls c phase x q x', busy calls c phase x -> x.complete q = some x' ->
    exists i : WorkerID, q = (c.nodeID, i.val + 1)
  ends : forall calls c x, busy calls c (fun _ => Phase.idle) x -> rest (calls ++ [c]) x

/-- The event is no call that does not fit, and no statement that is not allowed. -/
def Permits (fits : Call -> Prop) (allowed : QueuePair -> Phase -> Card -> Prop) (d : State) :
    Event -> Prop
  | Event.call c => fits c
  | Event.caller => True
  | Event.worker i => forall nodeID p, d.worker i = Worker.working nodeID p ->
      allowed (nodeID, i.val + 1) p d.card
  | Event.card _ => True

/--
What holds between the steps, with the calls that have returned and a bound on the number
of steps until the next one returns.
-/
inductive Inv (s : Socket) (rest : List Call -> Card -> Prop)
    (busy : List Call -> Call -> (WorkerID -> Phase) -> Card -> Prop) (calls : List Call)
    (n : Nat) (d : State) : Prop where
  | idle (hcaller : d.caller = Caller.idle) (hrest : Resting d) (hcard : rest calls d.card)
  | small {c : Call} {p : Phase} (hcaller : d.caller = Caller.small c p)
      (hsmall : c.size < smallSize) (hrest : Resting d)
      (hcard : busy calls c (alone p) d.card)
      (hbound : ticks s c.nodeID 0 p + d.card.load c.nodeID ≤ n)
  | resetting {c : Call} (hcaller : d.caller = Caller.resetting c)
      (hlarge : ¬ c.size < smallSize) (hrest : Resting d)
      (hcard : busy calls c (fun i => Phase.looping ⟨c.task i, 0⟩) d.card)
      (hbound : potential s c (fun _ => Stage.unborn) d ≤ n)
  | running {c : Call} {stage : WorkerID -> Stage} (h : Running (busy calls c) c stage d)
      (hbound : potential s c stage d ≤ n)

section Steps

variable {s : Socket} {device : Device} {fits : Call -> Prop}
  {allowed : QueuePair -> Phase -> Card -> Prop} {rest : List Call -> Card -> Prop}
  {busy : List Call -> Call -> (WorkerID -> Phase) -> Card -> Prop} {calls : List Call}
  {n : Nat} {d d' : State} {out : Option Call}

theorem Resting.not_stepWorker (h : Resting d) (i : WorkerID) :
    stepWorker s device d i = Except.error Stop.notReady := by
  unfold stepWorker
  rw [h.worker, h.queue]
  rfl

theorem Resting.of_eq (h : Resting d) (hqueue : d'.queue = d.queue)
    (hworker : d'.worker = d.worker) (htasks : d'.tasks = d.tasks) : Resting d' where
  queue := hqueue.trans h.queue
  worker := hworker.trans h.worker
  tasks := htasks.trans h.tasks

theorem alone_update (p p' : Phase) : Function.update (alone p) 0 p' = alone p' :=
  Function.update_idem _ _ _

/-- A call begins. -/
theorem Inv.call (hcontract : Contract s device fits allowed rest busy)
    (h : Inv s rest busy calls n d) {c : Call} (hfits : fits c)
    (hstep : step s device d (Event.call c) = Except.ok (out, d')) :
    out = none ∧ exists n', Inv s rest busy calls n' d' := by
  unfold step at hstep
  dsimp only at hstep
  cases h with
  | idle hcaller hrest hcard =>
      rw [hcaller] at hstep
      cases hstep
      have hbegins := hcontract.begins calls c d.card hfits hcard
      unfold Call.phases at hbegins
      refine ⟨rfl, ?_⟩
      by_cases hsize : c.size < smallSize
      · rw [if_pos hsize] at hbegins
        exact ⟨_, Inv.small (if_pos hsize) hsize (hrest.of_eq rfl rfl rfl) hbegins (Nat.le_refl _)⟩
      · rw [if_neg hsize] at hbegins
        exact ⟨_, Inv.resetting (if_neg hsize) hsize (hrest.of_eq rfl rfl rfl) hbegins
          (Nat.le_refl _)⟩
  | small hcaller _ _ _ _ =>
      rw [hcaller] at hstep
      cases hstep
  | resetting hcaller _ _ _ _ =>
      rw [hcaller] at hstep
      cases hstep
  | running h _ =>
      rcases h.position with ⟨filled, hposition, _⟩
      generalize d.caller = caller at hposition hstep
      cases hposition with
      | filling _ _ => cases hstep
      | appending _ _ => cases hstep
      | counting _ _ _ => cases hstep
      | waiting _ => cases hstep

/-- A statement of the caller in a small call. -/
theorem Inv.stepSmall (hcontract : Contract s device fits allowed rest busy) {c : Call}
    {p : Phase} (hcaller : d.caller = Caller.small c p) (hsmall : c.size < smallSize)
    (hrest : Resting d) (hcard : busy calls c (alone p) d.card)
    (hbound : ticks s c.nodeID 0 p + d.card.load c.nodeID ≤ n)
    (hstep : stepCaller s device d = Except.ok (out, d')) :
    exists n', n' < n ∧ Inv s rest busy (calls ++ out.toList) n' d' := by
  unfold stepCaller at hstep
  rw [hcaller] at hstep
  dsimp only at hstep
  split at hstep
  · rename_i hidle
    cases hstep
    subst hidle
    have hphases : alone Phase.idle = fun _ => Phase.idle :=
      Function.update_eq_self (0 : WorkerID) (fun _ => Phase.idle)
    rw [hphases] at hcard
    have hone : ticks s c.nodeID 0 Phase.idle = 1 := rfl
    exact ⟨0, by omega,
      Inv.idle rfl (hrest.of_eq rfl rfl rfl) (hcontract.ends calls c d.card hcard)⟩
  · cases hwork : work s device c.nodeID 0 p d.card with
    | none =>
        rw [hwork] at hstep
        cases hstep
    | some result =>
        rcases result with ⟨p', x⟩
        rw [hwork] at hstep
        cases hstep
        rw [Option.toList_none, List.append_nil]
        have hself : alone p 0 = p := Function.update_self _ _ _
        have hworks := hcontract.works calls c (alone p) d.card 0 p' x hcard
          (fun hlarge => absurd hsmall hlarge) (by rw [hself]; exact hwork)
        rw [alone_update] at hworks
        have hless : ticks s c.nodeID 0 p' + x.load c.nodeID <
            ticks s c.nodeID 0 p + d.card.load c.nodeID := work_load (i := 0) hwork
        exact ⟨_, Nat.lt_of_lt_of_le hless hbound,
          Inv.small rfl hsmall (hrest.of_eq rfl rfl rfl) hworks (Nat.le_refl _)⟩

/-- A statement of the caller. -/
theorem Inv.stepCaller (hcontract : Contract s device fits allowed rest busy)
    (h : Inv s rest busy calls n d)
    (hstep : Dispatch.stepCaller s device d = Except.ok (out, d')) :
    exists n', n' < n ∧ Inv s rest busy (calls ++ out.toList) n' d' := by
  cases h with
  | idle hcaller _ _ =>
      unfold Dispatch.stepCaller at hstep
      rw [hcaller] at hstep
      cases hstep
  | small hcaller hsmall hrest hcard hbound =>
      exact Inv.stepSmall hcontract hcaller hsmall hrest hcard hbound hstep
  | resetting hcaller hlarge hrest hcard hbound =>
      rcases running_of_resetting hcaller hlarge hrest hcard hstep with ⟨rfl, hnext, hless⟩
      rw [Option.toList_none, List.append_nil]
      exact ⟨_, Nat.lt_of_lt_of_le hless hbound, Inv.running hnext (Nat.le_refl _)⟩
  | running h hbound =>
      rcases h.stepCaller hstep with
        ⟨rfl, stage', hnext, hless⟩ | ⟨rfl, hcaller, hrest, hcard, hpositive⟩
      · rw [Option.toList_none, List.append_nil]
        exact ⟨_, Nat.lt_of_lt_of_le hless hbound, Inv.running hnext (Nat.le_refl _)⟩
      · exact ⟨0, Nat.lt_of_lt_of_le hpositive hbound,
          Inv.idle hcaller hrest (hcontract.ends _ _ _ hcard)⟩

/-- A statement of a worker. -/
theorem Inv.stepWorker (hcontract : Contract s device fits allowed rest busy)
    (h : Inv s rest busy calls n d) {i : WorkerID}
    (hpermits : Permits fits allowed d (Event.worker i))
    (hstep : Dispatch.stepWorker s device d i = Except.ok d') :
    exists n', n' < n ∧ Inv s rest busy calls n' d' := by
  have hresting : ¬ Resting d := by
    intro hrest
    rw [hrest.not_stepWorker i] at hstep
    cases hstep
  cases h with
  | idle _ hrest _ => exact absurd hrest hresting
  | small _ _ hrest _ _ => exact absurd hrest hresting
  | resetting _ _ hrest _ _ => exact absurd hrest hresting
  | @running c stage h hbound =>
      have hworks : forall phase p x, stage i = Stage.working phase ->
          work s device c.nodeID i phase d.card = some (p, x) ->
          busy calls c (Function.update (fun j => (stage j).phase (c.task j)) i p) x := by
        intro phase p x hstage hwork
        have hworker : d.worker i = Worker.working c.nodeID phase := by
          rw [h.worker_at, hstage]
          rfl
        have hphase : (stage i).phase (c.task i) = phase := by
          rw [hstage]
          rfl
        apply hcontract.works calls c _ d.card i p x h.card
        · intro _
          rw [hphase]
          exact hpermits _ _ hworker
        · rw [hphase]
          exact hwork
      rcases h.stepWorker hworks hstep with ⟨stage', hnext, hless⟩
      exact ⟨_, Nat.lt_of_lt_of_le hless hbound, Inv.running hnext (Nat.le_refl _)⟩

/-- The card completes an operation. -/
theorem Inv.complete (hcontract : Contract s device fits allowed rest busy)
    (h : Inv s rest busy calls n d) {q : QueuePair} {x : Card}
    (hcomplete : d.card.complete q = some x) :
    exists n', n' < n ∧ Inv s rest busy calls n' { d with card := x } := by
  have hload : forall c phase, busy calls c phase d.card ->
      x.load c.nodeID < d.card.load c.nodeID := by
    intro c phase hcard
    rcases hcontract.owns calls c phase d.card q x hcard hcomplete with ⟨i, rfl⟩
    exact complete_load hcomplete
  cases h with
  | idle _ _ hcard =>
      rw [hcontract.quiet calls d.card q hcard] at hcomplete
      cases hcomplete
  | small hcaller hsmall hrest hcard hbound =>
      exact ⟨_, Nat.lt_of_lt_of_le (Nat.add_lt_add_left (hload _ _ hcard) _) hbound,
        Inv.small hcaller hsmall (hrest.of_eq rfl rfl rfl)
          (hcontract.completes _ _ _ _ _ _ hcard hcomplete) (Nat.le_refl _)⟩
  | resetting hcaller hlarge hrest hcard hbound =>
      exact ⟨_, Nat.lt_of_lt_of_le (Nat.add_lt_add_left (hload _ _ hcard) _) hbound,
        Inv.resetting hcaller hlarge (hrest.of_eq rfl rfl rfl)
          (hcontract.completes _ _ _ _ _ _ hcard hcomplete) (Nat.le_refl _)⟩
  | running h hbound =>
      exact ⟨_, Nat.lt_of_lt_of_le (Nat.add_lt_add_left (hload _ _ h.card) _) hbound,
        Inv.running ⟨h.large, h.position, h.queue, h.worker, h.signal,
          hcontract.completes _ _ _ _ _ _ h.card hcomplete⟩ (Nat.le_refl _)⟩

/-- Every step but the begin of a call brings the end of a call nearer. -/
theorem Inv.step (hcontract : Contract s device fits allowed rest busy)
    (h : Inv s rest busy calls n d) {event : Event} (hpermits : Permits fits allowed d event)
    (hstep : Dispatch.step s device d event = Except.ok (out, d')) :
    exists n', Inv s rest busy (calls ++ out.toList) n' d' ∧
      (Internal event -> n' < n) := by
  cases event with
  | call c =>
      rcases h.call hcontract hpermits hstep with ⟨rfl, n', hnext⟩
      rw [Option.toList_none, List.append_nil]
      exact ⟨n', hnext, fun hne => absurd rfl (hne c)⟩
  | caller =>
      rcases h.stepCaller hcontract hstep with ⟨n', hless, hnext⟩
      exact ⟨n', hnext, fun _ => hless⟩
  | worker i =>
      rcases bind_eq_ok.mp hstep with ⟨d1, hworker, hpure⟩
      cases hpure
      rcases h.stepWorker hcontract hpermits hworker with ⟨n', hless, hnext⟩
      rw [Option.toList_none, List.append_nil]
      exact ⟨n', hnext, fun _ => hless⟩
  | card q =>
      unfold Dispatch.step at hstep
      dsimp only at hstep
      cases hcomplete : d.card.complete q with
      | none =>
          rw [hcomplete] at hstep
          cases hstep
      | some x =>
          rw [hcomplete] at hstep
          cases hstep
          rcases h.complete hcontract hcomplete with ⟨n', hless, hnext⟩
          rw [Option.toList_none, List.append_nil]
          exact ⟨n', hnext, fun _ => hless⟩

/-- A contract holds along a whole run. -/
theorem Contract.run (hcontract : Contract s device fits allowed rest busy) {m : Machine}
    (hstart : rest [] (Card.start m)) {events : List Event} {outs : List (Option Call)}
    (hsteps : EveryStep (Dispatch.step s device) (State.start m) events (Permits fits allowed))
    (hrun : runFrom (Dispatch.step s device) (State.start m) events = Except.ok (outs, d)) :
    exists n, Inv s rest busy (returned outs) n d := by
  have hinit : Inv s rest busy (returned []) 0 (State.start m) :=
    Inv.idle rfl ⟨rfl, rfl, rfl⟩ hstart
  refine EveryStep.run_induction
    (motive := fun _ outs d => exists n, Inv s rest busy (returned outs) n d)
    ⟨0, hinit⟩ ?_ hsteps hrun
  rintro before outs d event out d' _ ⟨n, hinv⟩ hpermits hstep
  have hreturned : returned (outs ++ [out]) = returned outs ++ out.toList := by
    unfold returned
    rw [List.filterMap_append]
    cases out with
    | none => rfl
    | some c => rfl
  rw [hreturned]
  rcases hinv.step hcontract hpermits hstep with ⟨n', hnext, _⟩
  exact ⟨n', hnext⟩

/-- At rest between calls. -/
theorem Inv.of_idle (h : Inv s rest busy calls n d) (hidle : d.caller = Caller.idle) :
    Resting d ∧ rest calls d.card := by
  cases h with
  | idle _ hrest hcard => exact ⟨hrest, hcard⟩
  | small hcaller _ _ _ _ =>
      rw [hidle] at hcaller
      cases hcaller
  | resetting hcaller _ _ _ _ =>
      rw [hidle] at hcaller
      cases hcaller
  | running h _ =>
      rcases h.position with ⟨filled, hposition, _⟩
      rw [hidle] at hposition
      cases hposition

end Steps

end Dispatch
end Net
end SpongeBob
