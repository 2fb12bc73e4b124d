import SpongeBob.Net.Returns

/-!
# When every worker takes its own entries

As long as no worker takes the entry of another one's operation, the threads and the card
do, in any interleaving, what the tasks of the calls do one after another.  The calls
then change the memories of both sides as if there were no threads at all.
-/

namespace SpongeBob
namespace Net
namespace Dispatch

open Foundation
open Completion (WorkerID Loop WorkRequest Phase)
open Transfer
open Shares
open SharedCard
open Workers (request lastOutcome micro remaining hamalOf advance Team TasksApart worker_cases)

/-!
# What is expected
-/

/-- What a call does when its tasks are done one after another. -/
def Call.perform (s : Socket) (device : Device) (c : Call) (m : Machine) : Option Machine :=
  (if c.opType then
    Transfer.remoteWrite s device c.bufferSend c.nodeID c.bufferReceive c.size m
  else Transfer.remoteRead s device c.bufferSend c.nodeID c.bufferReceive c.size m).map Prod.snd

/-- What some calls do, one after another. -/
def performAll (s : Socket) (device : Device) : List Call -> Machine -> Option Machine
  | [], m => some m
  | c :: rest, m => (c.perform s device m).bind (performAll s device rest)

/--
The shares of a large call do not reach beyond its range, and its buffer is apart from
the staging buffers.
-/
def Call.Fits (s : Socket) (c : Call) : Prop :=
  ¬ c.size < smallSize ->
    2 * shareBytes c.size ≤ c.size.toNat ∧
    forall i : WorkerID, Apart s i c.bufferSend c.size

/-- The entry that a thread would take belongs to its own queue pair. -/
def TakesOwn (q : QueuePair) (phase : Phase) (x : Card) : Prop :=
  phase.inPoll = true -> forall head rest, x.entries = head :: rest -> head = q

/-- An operation that the card accepts gets an entry. -/
def Reports (device : Device) : Prop :=
  forall q k, (device q k).posted = true -> exists value, (device q k).reported = some value

section Sequential

variable {s : Socket} {device : Device} {c : Call} {m m' : Machine}

theorem perform_eq_runTasks : c.perform s device m =
    runTasks s device c.nodeID (tasks c.opType c.bufferSend c.bufferReceive c.size) m := by
  unfold Call.perform remoteWrite remoteRead remoteWriteTasks remoteReadTasks
  cases c.opType with
  | true =>
      rw [if_pos rfl, Option.map_map]
      exact congrFun Option.map_id_fun' _
  | false =>
      rw [if_neg Bool.false_ne_true, Option.map_map]
      exact congrFun Option.map_id_fun' _

theorem perform_of_small (hsmall : c.size < smallSize)
    (h : hamalOf s device c.nodeID 0 ⟨c.whole, 0⟩ m = some m') :
    c.perform s device m = some m' := by
  have hworker := Workers.dataTransferWorker_of_hamalOf h
  rw [perform_eq_runTasks]
  unfold tasks
  rw [if_pos hsmall]
  unfold runTasks
  rw [show (⟨c.opType, c.size, c.bufferSend, c.bufferReceive⟩ : Completion.TransferTask) = c.whole
    from rfl, hworker]
  rfl

theorem perform_of_team (hlarge : ¬ c.size < smallSize) (hapart : TasksApart s c.nodeID c.task)
    {schedule : List WorkerID} {t : Team}
    (hrun : Agents.run (advance s device c.nodeID) schedule (Team.start c.task m) = some t)
    (hfinished : forall i, t.phase i = Workers.Phase.finished) :
    c.perform s device m = some t.machine := by
  rw [perform_eq_runTasks]
  unfold tasks
  rw [if_neg hlarge]
  exact hapart.runTasks_of_run hrun hfinished

theorem performAll_concat {calls : List Call} (hcalls : performAll s device calls m = some m') :
    performAll s device (calls ++ [c]) m = c.perform s device m' := by
  induction calls generalizing m with
  | nil =>
      cases hcalls
      show (c.perform s device m').bind some = _
      exact Option.bind_fun_some _
  | cons head rest ih =>
      rcases Option.bind_eq_some_iff.mp hcalls with ⟨m1, hhead, hrest⟩
      show (head.perform s device m).bind (performAll s device (rest ++ [c])) = _
      rw [hhead]
      exact ih hrest

end Sequential

/-!
# Threads with entries of their own
-/

/-- The card has nothing to do for a queue pair, and there is no entry of it. -/
structure Unused (x : Card) (q : QueuePair) : Prop where
  pending : x.pending q = []
  entries : q ∉ x.entries

/--
The phase of a thread that shares the completion queue, and its phase when it polls for
its own operations alone.
-/
inductive Follows (s : Socket) (device : Device) (nodeID : UInt16) (taskID : Nat) (x : Card) :
    Phase -> Workers.Phase -> Prop where
  | looping {l : Loop} (hunused : Unused x (nodeID, taskID + 1)) :
      Follows s device nodeID taskID x (Phase.looping l) (Workers.Phase.looping l)
  | filled {l : Loop} (hunused : Unused x (nodeID, taskID + 1)) :
      Follows s device nodeID taskID x (Phase.filled l) (Workers.Phase.filled l)
  | refused {l : Loop} (hunused : Unused x (nodeID, taskID + 1)) :
      Follows s device nodeID taskID x (Phase.polling l) (Workers.Phase.posted l)
  | waiting {l : Loop}
      (hposted : (lastOutcome device nodeID taskID x.machine).posted = true)
      (hpending : x.pending (nodeID, taskID + 1) =
        [⟨request s nodeID taskID l, (lastOutcome device nodeID taskID x.machine).moved⟩])
      (hentries : (nodeID, taskID + 1) ∉ x.entries) :
      Follows s device nodeID taskID x (Phase.polling l) (Workers.Phase.posted l)
  | completed {l : Loop}
      (hposted : (lastOutcome device nodeID taskID x.machine).posted = true)
      (hpending : x.pending (nodeID, taskID + 1) = [])
      (hentries : x.entries.count (nodeID, taskID + 1) = 1) :
      Follows s device nodeID taskID x (Phase.polling l) (Workers.Phase.moved l)
  | polled {l : Loop} (hunused : Unused x (nodeID, taskID + 1)) :
      Follows s device nodeID taskID x (Phase.polled l) (Workers.Phase.polled l)
  | idle (hunused : Unused x (nodeID, taskID + 1)) :
      Follows s device nodeID taskID x Phase.idle Workers.Phase.finished

section Following

variable {s : Socket} {device : Device} {nodeID : UInt16} {taskID : Nat} {x x' : Card}
  {q : QueuePair} {phase phase' : Phase} {p : Workers.Phase}

theorem Unused.of_eq (h : Unused x q) (hpending : x'.pending q = x.pending q)
    (hcount : x'.entries.count q = x.entries.count q) : Unused x' q where
  pending := hpending.trans h.pending
  entries := by
    rw [← List.count_eq_zero, hcount]
    exact List.count_eq_zero.mpr h.entries

/-- Nothing has happened on the queue pair. -/
theorem Follows.of_eq (h : Follows s device nodeID taskID x phase p)
    (hpending : x'.pending (nodeID, taskID + 1) = x.pending (nodeID, taskID + 1))
    (hcount : x'.entries.count (nodeID, taskID + 1) = x.entries.count (nodeID, taskID + 1))
    (hrequests : x'.machine.requests (nodeID, taskID + 1) =
      x.machine.requests (nodeID, taskID + 1)) :
    Follows s device nodeID taskID x' phase p := by
  have hlast : lastOutcome device nodeID taskID x'.machine =
      lastOutcome device nodeID taskID x.machine := by
    unfold lastOutcome
    rw [hrequests]
  cases h with
  | looping hunused => exact Follows.looping (hunused.of_eq hpending hcount)
  | filled hunused => exact Follows.filled (hunused.of_eq hpending hcount)
  | refused hunused => exact Follows.refused (hunused.of_eq hpending hcount)
  | waiting hposted hp hentries =>
      refine Follows.waiting ?_ ?_ ?_
      · rw [hlast]
        exact hposted
      · rw [hlast, hpending]
        exact hp
      · rw [← List.count_eq_zero, hcount]
        exact List.count_eq_zero.mpr hentries
  | completed hposted hp hentries =>
      refine Follows.completed ?_ (hpending.trans hp) (hcount.trans hentries)
      rw [hlast]
      exact hposted
  | polled hunused => exact Follows.polled (hunused.of_eq hpending hcount)
  | idle hunused => exact Follows.idle (hunused.of_eq hpending hcount)

/-- A thread that posts waits for its operation, or for nothing. -/
theorem follows_post {l : Loop} (hunused : Unused x (nodeID, taskID + 1)) :
    Follows s device nodeID taskID
      (x.post device (nodeID, taskID + 1) (request s nodeID taskID l)) (Phase.polling l)
      (Workers.Phase.posted l) := by
  have hlast : lastOutcome device nodeID taskID
      (x.post device (nodeID, taskID + 1) (request s nodeID taskID l)).machine =
        x.machine.nextOutcome device (nodeID, taskID + 1) := by
    unfold lastOutcome Machine.nextOutcome
    rw [requests_post, List.length_append, List.length_singleton, Nat.add_sub_cancel]
  by_cases hposted : (x.machine.nextOutcome device (nodeID, taskID + 1)).posted = true
  · apply Follows.waiting
    · rw [hlast]
      exact hposted
    · rw [hlast]
      unfold Card.post
      dsimp only
      rw [if_pos hposted, Function.update_self, hunused.pending]
      rfl
    · exact hunused.entries
  · apply Follows.refused
    constructor
    · unfold Card.post
      dsimp only
      rw [if_neg hposted]
      exact hunused.pending
    · exact hunused.entries

/-- With entries of its own a thread does what it does alone. -/
theorem Follows.work (h : Follows s device nodeID taskID x phase p) (hreports : Reports device)
    (hown : TakesOwn (nodeID, taskID + 1) phase x)
    (hwork : SharedCard.work s device nodeID taskID phase x = some (phase', x')) :
    exists p', micro s device nodeID taskID p x.machine = some (p', x'.machine) ∧
      Follows s device nodeID taskID x' phase' p' := by
  cases h with
  | @looping l hunused =>
      rw [SharedCard.work] at hwork
      rw [micro]
      split at hwork
      · rename_i hunfinished
        rw [if_pos hunfinished]
        split at hwork
        · rename_i hwrite
          cases hwork
          rw [if_pos hwrite]
          exact ⟨_, rfl, Follows.filled ⟨hunused.pending, hunused.entries⟩⟩
        · rename_i hread
          cases hwork
          rw [if_neg hread]
          exact ⟨_, rfl, follows_post hunused⟩
      · rename_i hfinished
        cases hwork
        rw [if_neg hfinished]
        exact ⟨_, rfl, Follows.idle hunused⟩
  | @filled l hunused =>
      cases hwork
      exact ⟨_, rfl, follows_post hunused⟩
  | @refused l hunused =>
      rw [SharedCard.work] at hwork
      split at hwork
      · cases hwork
      · rename_i head rest hentries
        have hhead : head = (nodeID, taskID + 1) := hown rfl head rest hentries
        apply absurd _ hunused.entries
        rw [hentries, hhead]
        exact List.mem_cons_self
  | @waiting l hposted hpending hnone =>
      rw [SharedCard.work] at hwork
      split at hwork
      · cases hwork
      · rename_i head rest hentries
        have hhead : head = (nodeID, taskID + 1) := hown rfl head rest hentries
        apply absurd _ hnone
        rw [hentries, hhead]
        exact List.mem_cons_self
  | @completed l hposted hpending hcount =>
      rw [SharedCard.work] at hwork
      split at hwork
      · cases hwork
      · rename_i head rest hentries
        have hhead : head = (nodeID, taskID + 1) := hown rfl head rest hentries
        cases hwork
        rcases hreports _ _ hposted with ⟨value, hvalue⟩
        have hpoll : pollCompletion device (nodeID, taskID + 1) x.machine = some value := hvalue
        have hunused : Unused { x with entries := rest } (nodeID, taskID + 1) := by
          refine ⟨hpending, ?_⟩
          rw [hentries, hhead, List.count_cons_self] at hcount
          exact List.count_eq_zero.mp (Nat.succ.inj hcount)
        rw [micro, hpoll]
        split
        · exact ⟨_, rfl, Follows.looping hunused⟩
        · exact ⟨_, rfl, Follows.polled hunused⟩
  | @polled l hunused =>
      cases hwork
      exact ⟨_, rfl, Follows.looping ⟨hunused.pending, hunused.entries⟩⟩
  | idle hunused => cases hwork

/-- The thread is the one whose operation completes. -/
theorem Follows.complete (h : Follows s device nodeID taskID x phase p)
    (hcomplete : x.complete (nodeID, taskID + 1) = some x') :
    exists p', micro s device nodeID taskID p x.machine = some (p', x'.machine) ∧
      Follows s device nodeID taskID x' phase p' := by
  have hbusy : ¬ x.pending (nodeID, taskID + 1) = [] := by
    intro hpending
    unfold Card.complete at hcomplete
    rw [hpending] at hcomplete
    cases hcomplete
  cases h with
  | looping hunused => exact absurd hunused.pending hbusy
  | filled hunused => exact absurd hunused.pending hbusy
  | refused hunused => exact absurd hunused.pending hbusy
  | @waiting l hposted hpending hnone =>
      have hrequests := (complete_eq_some hcomplete).right.right.right
      have hlast : lastOutcome device nodeID taskID x'.machine =
          lastOutcome device nodeID taskID x.machine := by
        unfold lastOutcome
        rw [hrequests]
      unfold Card.complete at hcomplete
      rw [hpending] at hcomplete
      cases hcomplete
      refine ⟨Workers.Phase.moved l, ?_, Follows.completed ?_ ?_ ?_⟩
      · rw [micro, Workers.card, hposted, Bool.true_and]
      · rw [hlast]
        exact hposted
      · exact Function.update_self _ _ _
      · dsimp only
        rw [List.count_append, List.count_eq_zero.mpr hnone, List.count_singleton_self]
  | completed _ hpending _ => exact absurd hpending hbusy
  | polled hunused => exact absurd hunused.pending hbusy
  | idle hunused => exact absurd hunused.pending hbusy

end Following

/-!
# The contract
-/

/-- The threads of a call, on their own, have come from the machine {lit}`m` to this one. -/
inductive Serial (s : Socket) (device : Device) (m : Machine) (c : Call)
    (p : WorkerID -> Workers.Phase) (m1 : Machine) : Prop where
  | small (hsmall : c.size < smallSize) (hidle : p 1 = Workers.Phase.finished)
      (hleft : remaining s device c.nodeID 0 (p 0) m1 =
        hamalOf s device c.nodeID 0 ⟨c.whole, 0⟩ m)
  | large (hlarge : ¬ c.size < smallSize) (hapart : TasksApart s c.nodeID c.task)
      (schedule : List WorkerID)
      (hrun : Agents.run (advance s device c.nodeID) schedule (Team.start c.task m) =
        some ⟨m1, p⟩)

/-- After some calls one after another, the threads of the next call are on their own. -/
structure Ordered (s : Socket) (device : Device) (m1 : Machine) (c : Call)
    (phase : WorkerID -> Phase) (p : WorkerID -> Workers.Phase) (x : Card) : Prop where
  serial : Serial s device m1 c p x.machine
  follows : forall i : WorkerID, Follows s device c.nodeID i x (phase i) (p i)
  others : forall q, (forall i : WorkerID, q ≠ (c.nodeID, i.val + 1)) -> Unused x q

def Settled (s : Socket) (device : Device) (m : Machine) (calls : List Call) (x : Card) : Prop :=
  (forall q, Unused x q) ∧ performAll s device calls m = some x.machine

def InOrder (s : Socket) (device : Device) (m : Machine) (calls : List Call) (c : Call)
    (phase : WorkerID -> Phase) (x : Card) : Prop :=
  exists m1 p, performAll s device calls m = some m1 ∧ Ordered s device m1 c phase p x

section Contract

variable {s : Socket} {device : Device} {m m1 m2 : Machine} {c : Call} {calls : List Call}
  {phase : WorkerID -> Phase} {p : WorkerID -> Workers.Phase} {p' : Workers.Phase}
  {phase' : Phase} {x x' : Card} {q : QueuePair} {i j : WorkerID}

theorem Serial.micro (h : Serial s device m c p m1)
    (hmicro : Workers.micro s device c.nodeID i (p i) m1 = some (p', m2)) :
    Serial s device m c (Function.update p i p') m2 := by
  cases h with
  | small hsmall hidle hleft =>
      rcases worker_cases i with rfl | rfl
      · apply Serial.small hsmall
        · rw [Function.update_of_ne (by decide)]
          exact hidle
        · rw [Function.update_self, ← hleft]
          exact Workers.micro_remaining hmicro
      · rw [hidle] at hmicro
        cases hmicro
  | large hlarge hapart schedule hrun =>
      apply Serial.large hlarge hapart (schedule ++ [i])
      apply Agents.run_concat hrun
      exact Workers.advance_eq_some.mpr ⟨p', m2, hmicro, rfl⟩

/-- When all threads are done, so is the call. -/
theorem Serial.perform (h : Serial s device m c p m1)
    (hfinished : forall i, p i = Workers.Phase.finished) : c.perform s device m = some m1 := by
  cases h with
  | small hsmall hidle hleft =>
      apply perform_of_small hsmall
      rw [← hleft, hfinished 0]
      rfl
  | large hlarge hapart schedule hrun => exact perform_of_team hlarge hapart hrun hfinished

/-- In a small call there are no entries but the caller's. -/
theorem Ordered.takesOwn_of_small (h : Ordered s device m1 c phase p x)
    (hsmall : c.size < smallSize) : TakesOwn (c.nodeID, i.val + 1) (phase i) x := by
  have hidle : p 1 = Workers.Phase.finished := by
    cases h.serial with
    | small _ hidle _ => exact hidle
    | large hlarge _ _ _ => exact absurd hsmall hlarge
  have hsecond : phase 1 = Phase.idle ∧ Unused x (c.nodeID, 2) := by
    have hfollows := h.follows 1
    rw [hidle] at hfollows
    generalize hphase : phase 1 = phase1 at hfollows
    cases hfollows with
    | idle hunused => exact ⟨rfl, hunused⟩
  intro hpoll head rest hentries
  have hmem : head ∈ x.entries := by
    rw [hentries]
    exact List.mem_cons_self
  rcases worker_cases i with rfl | rfl
  · by_contra hne
    by_cases hother : head = (c.nodeID, 2)
    · rw [hother] at hmem
      exact hsecond.right.entries hmem
    · refine (h.others head ?_).entries hmem
      intro j
      rcases worker_cases j with rfl | rfl
      · exact hne
      · exact hother
  · rw [hsecond.left] at hpoll
    cases hpoll

/-- What a thread does is not noticed on the queue pairs of the others. -/
theorem count_entries_work
    (hwork : SharedCard.work s device c.nodeID i (phase i) x = some (phase', x'))
    (hown : TakesOwn (c.nodeID, i.val + 1) (phase i) x) (hne : q ≠ (c.nodeID, i.val + 1)) :
    x'.entries.count q = x.entries.count q := by
  generalize phase i = phase1 at hwork hown
  cases phase1 with
  | looping l =>
      rw [SharedCard.work] at hwork
      split at hwork
      · split at hwork
        · cases hwork
          rfl
        · cases hwork
          rfl
      · cases hwork
        rfl
  | filled l =>
      cases hwork
      rfl
  | polling l =>
      rw [SharedCard.work] at hwork
      split at hwork
      · cases hwork
      · rename_i head rest hentries
        cases hwork
        have hhead : head = (c.nodeID, i.val + 1) := hown rfl head rest hentries
        rw [hentries, hhead]
        exact (List.count_cons_of_ne (Ne.symm hne)).symm
  | polled l =>
      cases hwork
      rfl
  | idle => cases hwork

theorem Ordered.work (h : Ordered s device m1 c phase p x) (hreports : Reports device)
    (hown : TakesOwn (c.nodeID, i.val + 1) (phase i) x)
    (hwork : SharedCard.work s device c.nodeID i (phase i) x = some (phase', x')) :
    exists p', Ordered s device m1 c (Function.update phase i phase')
      (Function.update p i p') x' := by
  rcases (h.follows i).work hreports hown hwork with ⟨p', hmicro, hfollows⟩
  refine ⟨p', h.serial.micro hmicro, ?_, ?_⟩
  · intro j
    by_cases hj : j = i
    · subst hj
      rw [Function.update_self, Function.update_self]
      exact hfollows
    · have hne : ((c.nodeID, j.val + 1) : QueuePair) ≠ (c.nodeID, i.val + 1) := queuePair_ne hj
      rw [Function.update_of_ne hj, Function.update_of_ne hj]
      exact (h.follows j).of_eq (work_of_ne hwork hne).left (count_entries_work hwork hown hne)
        (work_of_ne hwork hne).right
  · intro q hq
    exact (h.others q hq).of_eq (work_of_ne hwork (hq i)).left
      (count_entries_work hwork hown (hq i))

theorem Ordered.queuePair_of_complete (h : Ordered s device m1 c phase p x)
    (hcomplete : x.complete q = some x') : exists i : WorkerID, q = (c.nodeID, i.val + 1) := by
  by_contra hnone
  have hpending := (h.others q (fun i hi => hnone ⟨i, hi⟩)).pending
  unfold Card.complete at hcomplete
  rw [hpending] at hcomplete
  cases hcomplete

theorem Ordered.complete (h : Ordered s device m1 c phase p x)
    (hcomplete : x.complete q = some x') :
    exists p, Ordered s device m1 c phase p x' := by
  rcases h.queuePair_of_complete hcomplete with ⟨i, rfl⟩
  rcases (h.follows i).complete hcomplete with ⟨p', hmicro, hfollows⟩
  rcases complete_eq_some hcomplete with ⟨_, hothers, hentries, hrequests⟩
  have hcount : forall q, q ≠ (c.nodeID, i.val + 1) ->
      x'.entries.count q = x.entries.count q := by
    intro q hq
    rw [hentries, List.count_append, List.count_singleton, beq_false_of_ne hq.symm]
    rfl
  refine ⟨_, h.serial.micro hmicro, ?_, ?_⟩
  · intro j
    by_cases hj : j = i
    · subst hj
      rw [Function.update_self]
      exact hfollows
    · have hne : ((c.nodeID, j.val + 1) : QueuePair) ≠ (c.nodeID, i.val + 1) := queuePair_ne hj
      rw [Function.update_of_ne hj]
      exact (h.follows j).of_eq (hothers _ hne) (hcount _ hne) (congrFun hrequests _)
  · intro q hq
    exact (h.others q hq).of_eq (hothers q (hq i)) (hcount q (hq i))

/-- When all threads are idle, the card has nothing to do. -/
theorem Ordered.settled (h : Ordered s device m1 c (fun _ => Phase.idle) p x)
    (hcalls : performAll s device calls m = some m1) :
    Settled s device m (calls ++ [c]) x := by
  have hidle : forall i : WorkerID, p i = Workers.Phase.finished ∧
      Unused x (c.nodeID, i.val + 1) := by
    intro i
    have hfollows := h.follows i
    generalize p i = p1 at hfollows
    cases hfollows with
    | idle hunused => exact ⟨rfl, hunused⟩
  constructor
  · intro q
    by_cases hq : forall i : WorkerID, q ≠ (c.nodeID, i.val + 1)
    · exact h.others q hq
    · rcases not_forall_not.mp hq with ⟨i, rfl⟩
      exact (hidle i).right
  · rw [performAll_concat hcalls]
    exact h.serial.perform (fun i => (hidle i).left)

/-- Before the first statement of a call. -/
theorem Settled.begins (h : Settled s device m calls x) (hfits : c.Fits s) :
    InOrder s device m calls c c.phases x := by
  rcases h with ⟨hunused, hcalls⟩
  by_cases hsize : c.size < smallSize
  · have hphases : c.phases = alone (Phase.looping ⟨c.whole, 0⟩) := if_pos hsize
    rw [hphases]
    refine ⟨x.machine, Function.update (fun _ => Workers.Phase.finished) 0
      (Workers.Phase.looping ⟨c.whole, 0⟩), hcalls, Serial.small hsize rfl rfl, ?_,
      fun q _ => hunused q⟩
    intro i
    rcases worker_cases i with rfl | rfl
    · exact Follows.looping (hunused _)
    · exact Follows.idle (hunused _)
  · have hphases : c.phases = fun i => Phase.looping ⟨c.task i, 0⟩ := if_neg hsize
    rw [hphases]
    rcases hfits hsize with ⟨hshares, hapart⟩
    exact ⟨x.machine, fun i => Workers.Phase.looping ⟨c.task i, 0⟩, hcalls,
      Serial.large hsize (Workers.tasksApart_shares hshares hapart) [] rfl,
      fun i => Follows.looping (hunused _), fun q _ => hunused q⟩

theorem contract_inOrder (hreports : Reports device) : Contract s device (Call.Fits s) TakesOwn
    (Settled s device m) (InOrder s device m) where
  quiet := by
    rintro calls x q ⟨hunused, _⟩
    unfold Card.complete
    rw [(hunused q).pending]
  begins := fun _ _ _ hfits h => h.begins hfits
  works := by
    rintro calls c phase x i phase' x' ⟨m1, p, hcalls, h⟩ hallowed hwork
    have hown : TakesOwn (c.nodeID, i.val + 1) (phase i) x := by
      by_cases hsize : c.size < smallSize
      · exact h.takesOwn_of_small hsize
      · exact hallowed hsize
    rcases h.work hreports hown hwork with ⟨p', hnext⟩
    exact ⟨m1, _, hcalls, hnext⟩
  completes := by
    rintro calls c phase x q x' ⟨m1, p, hcalls, h⟩ hcomplete
    rcases h.complete hcomplete with ⟨p', hnext⟩
    exact ⟨m1, p', hcalls, hnext⟩
  owns := by
    rintro calls c phase x q x' ⟨m1, p, _, h⟩ hcomplete
    exact h.queuePair_of_complete hcomplete
  ends := by
    rintro calls c x ⟨m1, p, hcalls, h⟩
    exact h.settled hcalls

end Contract

/--
In every run in which the calls fit and the workers that poll take entries of their own
operations, whatever the order of the statements and of the completions: when no call is
running, the memories and the operations are what the tasks of the calls make of them one
after another.
-/
theorem calls_in_order (s : Socket) (device : Device) (m : Machine) (hreports : Reports device)
    {events : List Event}
    (hsteps : EveryStep (step s device) (State.start m) events (Permits (Call.Fits s) TakesOwn))
    {outs : List (Option Call)} {d : State}
    (hrun : runFrom (step s device) (State.start m) events = Except.ok (outs, d))
    (hidle : d.caller = Caller.idle) :
    performAll s device (returned outs) m = some d.card.machine := by
  have hstart : Settled s device m [] (Card.start m) :=
    ⟨fun _ => ⟨rfl, List.not_mem_nil⟩, rfl⟩
  rcases (contract_inOrder hreports).run hstart hsteps hrun with ⟨n, hinv⟩
  exact (hinv.of_idle hidle).right.right

/-- Both workers have posted, and both take their own entries, the second one first. -/
def ownEntries : List Event :=
  bothPosted ++ List.replicate 3 (Event.worker 1) ++
    [Event.card (1, 1)] ++ List.replicate 3 (Event.worker 0) ++
    [Event.card (1, 2), Event.worker 1, Event.card (1, 1)] ++ List.replicate 3 (Event.worker 1) ++
    List.replicate 4 (Event.worker 0) ++ [Event.caller]

/-- The call is {lit}`halves`, and the next entry is the worker's own. -/
def ownTest (d : State) : Event -> Bool
  | Event.call c => decide (c = halves)
  | Event.worker i =>
      match d.worker i with
      | Worker.working nodeID phase =>
          !phase.inPoll || decide (d.card.entries.head? = some (nodeID, i.val + 1))
      | _ => true
  | _ => true

theorem permits_of_ownTest {d : State} {event : Event} (htest : ownTest d event = true) :
    Permits (Call.Fits plainSocket) TakesOwn d event := by
  cases event with
  | call c =>
      cases of_decide_eq_true htest
      intro _
      refine ⟨by decide, ?_⟩
      intro i
      rcases worker_cases i with rfl | rfl
      · exact fun x hx => Bytes.not_inRange_of_behind (by decide) (by decide) hx
      · exact fun x hx => Bytes.not_inRange_of_behind (by decide) (by decide) hx
  | worker i =>
      intro nodeID phase hworker hpoll head rest hentries
      unfold ownTest at htest
      dsimp only at htest
      rw [hworker] at htest
      dsimp only at htest
      rw [hpoll, hentries, Bool.not_true, Bool.false_or, decide_eq_true_iff] at htest
      exact Option.some.inj htest
  | caller => trivial
  | card q => trivial

theorem calls_in_order_ownEntries : exists outs d,
    runFrom (step plainSocket steady) (State.start numbered) ownEntries = Except.ok (outs, d) ∧
    returned outs = [halves] ∧
    performAll plainSocket steady (returned outs) numbered = some d.card.machine := by
  have hpass : passes (runFrom (step plainSocket steady) (State.start numbered) ownEntries)
      (fun (outs, d) => decide (returned outs = [halves]) && decide (d.caller = Caller.idle)) =
        true := by
    decide +kernel
  have hmeet : stepsMeet (step plainSocket steady) (fun d event => decide (ownTest d event = true))
      (State.start numbered) ownEntries = true := by
    decide +kernel
  have htests : EveryStep (step plainSocket steady) (State.start numbered) ownEntries
      (fun d event => ownTest d event = true) :=
    everyStep_of_stepsMeet hmeet
  rcases exists_of_passes hpass with ⟨⟨outs, d⟩, hrun, htest⟩
  rw [Bool.and_eq_true, decide_eq_true_iff, decide_eq_true_iff] at htest
  have hreports : Reports steady := fun _ _ _ => ⟨1, rfl⟩
  exact ⟨outs, d, hrun, htest.left, calls_in_order plainSocket steady numbered hreports
    (fun before event after outs d hsplit hbefore =>
      permits_of_ownTest (htests before event after outs d hsplit hbefore)) hrun htest.right⟩

end Dispatch
end Net
end SpongeBob
