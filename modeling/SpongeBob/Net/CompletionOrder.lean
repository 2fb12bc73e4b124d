import SpongeBob.Net.Completion

/-!
# Waiting workers and the completion queue

The entries of the queue do not say whose operation has completed, so a worker knows
that its own is through only if no other worker waits with it.
-/

namespace SpongeBob
namespace Net
namespace Completion

open Foundation

/-!
# One operation at a time

As long as workers post only when no other is waiting, there is at most one operation
or one entry in the queue, and it belongs to the worker that waits.
-/

theorem queuePair_injective {v w : WorkerID} (h : queuePair v = queuePair w) : v = w :=
  Fin.ext (Nat.succ.inj h)

/-- Both ends of the completions of a worker are the one queue. -/
structure Shared (s : State) : Prop where
  cq : s.peer.cq = 0
  sendCQ : forall w, s.peer.sendCQ (queuePair w) = 0

theorem shared_init (serverCount : Nat) (peer : PeerQueues) :
    Shared (init serverCount peer) where
  cq := rfl
  sendCQ := by
    intro w
    have hpair : queuePair w = 1 ∨ queuePair w = 2 := by
      unfold queuePair
      have hw : w.val < 2 := w.isLt
      omega
    rcases hpair with hpair | hpair <;> rw [hpair] <;> rfl

theorem Moves.peer_eq {s s' : State} {event : Event} {out : Option WorkerID}
    (hmoves : Moves s event out s') : s'.peer = s.peer := by
  cases hmoves <;> rfl

theorem Moves.shared {s s' : State} {event : Event} {out : Option WorkerID}
    (hmoves : Moves s event out s') (h : Shared s) : Shared s' :=
  ⟨by rw [hmoves.peer_eq]; exact h.cq, by rw [hmoves.peer_eq]; exact h.sendCQ⟩

/-- The worker {lit}`w` and no other is inside {lit}`PollCompletion`. -/
def OnlyPolls (s : State) (w : WorkerID) : Prop :=
  (s.workers w).inPoll = true ∧ forall v, v ≠ w -> (s.workers v).inPoll = false

/-- Nothing is outstanding, or one operation is: on its way, or in the queue. -/
inductive Orderly (s : State) : Prop where
  | nobody (hpolls : forall w, (s.workers w).inPoll = false)
      (hpending : forall q, s.pending q = []) (hqueue : s.queues 0 = [])
  | inFlight (w : WorkerID) (r : WorkRequest) (hpolls : OnlyPolls s w)
      (hpending : s.pending (queuePair w) = [r])
      (hothers : forall q, q ≠ queuePair w -> s.pending q = []) (hqueue : s.queues 0 = [])
  | completed (w : WorkerID) (c : Entry) (hpolls : OnlyPolls s w)
      (hpending : forall q, s.pending q = []) (hqueue : s.queues 0 = [c])

theorem orderly_init (serverCount : Nat) (peer : PeerQueues) :
    Orderly (init serverCount peer) :=
  Orderly.nobody (fun _ => rfl) (fun _ => rfl) rfl

section Steps

variable {s s' : State} {event : Event} {out : Option WorkerID} {w : WorkerID}

theorem inPoll_setPhase (s : State) (w : WorkerID) (phase : Phase) (v : WorkerID) :
    ((s.setPhase w phase).workers v).inPoll =
      if v = w then phase.inPoll else (s.workers v).inPoll := by
  simp only [State.setPhase, Function.update_apply]
  split <;> rfl

theorem inPoll_stays (hphase : (s.workers w).inPoll = false) {phase : Phase}
    (hnext : phase.inPoll = false) (v : WorkerID) :
    ((s.setPhase w phase).workers v).inPoll = (s.workers v).inPoll := by
  rw [inPoll_setPhase]
  split
  · rename_i heq
    rw [heq, hphase, hnext]
  · rfl

theorem OnlyPolls.stays {u : WorkerID} (h : OnlyPolls s u)
    (hphase : (s.workers w).inPoll = false) {phase : Phase} (hnext : phase.inPoll = false) :
    OnlyPolls (s.setPhase w phase) u := by
  refine ⟨?_, ?_⟩
  · rw [inPoll_stays hphase hnext]
    exact h.left
  · intro v hv
    rw [inPoll_stays hphase hnext]
    exact h.right v hv

theorem Orderly.stays (h : Orderly s) (hphase : (s.workers w).inPoll = false) {phase : Phase}
    (hnext : phase.inPoll = false) : Orderly (s.setPhase w phase) := by
  cases h with
  | nobody hpolls hpending hqueue =>
      refine Orderly.nobody ?_ hpending hqueue
      intro v
      rw [inPoll_stays hphase hnext]
      exact hpolls v
  | inFlight u r hpolls hpending hothers hqueue =>
      exact Orderly.inFlight u r (hpolls.stays hphase hnext) hpending hothers hqueue
  | completed u c hpolls hpending hqueue =>
      exact Orderly.completed u c (hpolls.stays hphase hnext) hpending hqueue

/-- A post when nobody waits. -/
theorem Orderly.posts (h : Orderly s) (hnone : forall v, (s.workers v).inPoll = false)
    (r : WorkRequest) (l : Loop) :
    Orderly ((s.postSend (queuePair w) r).setPhase w (Phase.polling l)) := by
  cases h with
  | inFlight u r' hpolls _ _ _ =>
      cases (hnone u).symm.trans hpolls.left
  | completed u c hpolls _ _ =>
      cases (hnone u).symm.trans hpolls.left
  | nobody _ hpending hqueue =>
      refine Orderly.inFlight w r ⟨?_, ?_⟩ ?_ ?_ hqueue
      · rw [inPoll_setPhase, if_pos rfl]
        rfl
      · intro v hv
        rw [inPoll_setPhase, if_neg hv]
        exact hnone v
      · show Function.update s.pending _ _ _ = _
        rw [Function.update_self, hpending]
        rfl
      · intro q hq
        show Function.update s.pending _ _ _ = _
        rw [Function.update_of_ne hq]
        exact hpending q

theorem Orderly.polls (h : Orderly s) (hphase : (s.workers w).inPoll = true) {c : Entry}
    {rest : List Entry} (hqueue : s.queues 0 = c :: rest) {phase : Phase}
    (hnext : phase.inPoll = false) :
    Orderly ({ s with queues := Function.update s.queues 0 rest }.setPhase w phase) := by
  cases h with
  | nobody hpolls _ _ =>
      rw [hpolls w] at hphase
      cases hphase
  | inFlight u r hpolls hpending hothers hnil =>
      rw [hnil] at hqueue
      cases hqueue
  | completed u c' hpolls hpending hone =>
      rw [hone] at hqueue
      cases hqueue
      have hempty : Function.update s.queues 0 [] 0 = [] := Function.update_self ..
      refine Orderly.nobody ?_ hpending hempty
      -- The worker that polls is the only one that was waiting.
      intro v
      rw [inPoll_setPhase]
      split
      · exact hnext
      · rename_i hv
        by_cases hu : v = u
        · have huw : w ≠ u := by
            rw [← hu]
            exact Ne.symm hv
          rw [hpolls.right w huw] at hphase
          cases hphase
        · exact hpolls.right v hu

theorem Orderly.completes (h : Orderly s) (hshared : Shared s) {qp : Nat} {r : WorkRequest}
    {rest : List WorkRequest} (hhead : s.pending qp = r :: rest) :
    Orderly (s.complete qp r rest) := by
  cases h with
  | nobody _ hpending _ =>
      rw [hpending qp] at hhead
      cases hhead
  | completed _ _ _ hpending _ =>
      rw [hpending qp] at hhead
      cases hhead
  | inFlight w r' hpolls hpending hothers hqueue =>
      by_cases hqp : qp = queuePair w
      · subst hqp
        rw [hpending] at hhead
        cases hhead
        refine Orderly.completed w ⟨r.wrID, queuePair w⟩ hpolls ?_ ?_
        · intro q
          show Function.update s.pending _ _ _ = _
          by_cases hq : q = queuePair w
          · rw [hq, Function.update_self]
          · rw [Function.update_of_ne hq]
            exact hothers q hq
        · show Function.update s.queues _ _ _ = _
          rw [hshared.sendCQ w, Function.update_self, hqueue]
          rfl
      · rw [hothers qp hqp] at hhead
        cases hhead

theorem Moves.orderly (hmoves : Moves s event out s') (hshared : Shared s) (h : Orderly s)
    (halone : Alone s event) : Orderly s' := by
  cases hmoves with
  | stays hphase hnext _ => exact h.stays hphase hnext
  | posts hposts =>
      rename_i w l r
      refine h.posts ?_ r l
      intro v
      by_cases hv : v = w
      · rw [hv]
        exact Phase.inPoll_of_posts hposts
      · exact halone hposts v hv
  | polls hphase hqueue hnext =>
      rw [hshared.cq] at hqueue ⊢
      exact h.polls hphase hqueue hnext
  | completes hpending => exact h.completes hshared hpending

theorem Orderly.pending_eq_nil (h : Orderly s) (hphase : (s.workers w).inPoll = false) :
    s.pending (queuePair w) = [] := by
  cases h with
  | nobody _ hpending _ => exact hpending _
  | completed _ _ _ hpending _ => exact hpending _
  | inFlight u r hpolls _ hothers _ =>
      apply hothers
      intro heq
      rw [queuePair_injective heq, hpolls.left] at hphase
      cases hphase

theorem Moves.not_inPoll (hmoves : Moves s event (some w) s') :
    (s.workers w).inPoll = false := by
  cases hmoves with
  | stays hphase _ huse =>
      rw [huse w rfl]
      exact hphase

end Steps

section Runs

variable {mm : UInt64} {serverCount : Nat} {peer : PeerQueues} {events : List Event}

theorem everyState_orderly
    (halone : EveryStep (step mm) (init serverCount peer) events Alone) :
    EveryState (step mm) (init serverCount peer) events (fun s => Shared s ∧ Orderly s) :=
  halone.everyState ⟨shared_init serverCount peer, orderly_init serverCount peer⟩
    (fun _ _ _ _ h halone hstep =>
      ⟨(step_moves hstep).shared h.left, (step_moves hstep).orderly h.left h.right halone⟩)

theorem usesOwn_of_alone
    (halone : EveryStep (step mm) (init serverCount peer) events Alone) :
    EveryStep (step mm) (init serverCount peer) events (UsesOwn mm) := by
  intro before event after outs s hsplit hrun w s' hstep
  have h := everyState_orderly halone before (event :: after) outs s hsplit hrun
  exact h.right.pending_eq_nil (step_moves hstep).not_inPoll

end Runs

/-!
# Two operations at a time

If a worker posts while another waits, the entry of the other may be the first in the
queue, and the worker goes on while its own operation is on its way.
-/

section Misuse

variable {mm : UInt64} {s s' : State} {w : WorkerID}

/-- Some steps lead to a use of the staging buffer of an operation on its way. -/
def CanMisuse (mm : UInt64) (w : WorkerID) (s : State) : Prop :=
  exists more outs s1 event s2, runFrom (step mm) s more = Except.ok (outs, s1) ∧
    s1.pending (queuePair w) ≠ [] ∧ step mm s1 event = Except.ok (some w, s2)

theorem CanMisuse.of_step {event : Event} {out : Option WorkerID}
    (hstep : step mm s event = Except.ok (out, s')) (h : CanMisuse mm w s') :
    CanMisuse mm w s := by
  rcases h with ⟨more, outs, s1, last, s2, hrun, hpending, hlast⟩
  exact ⟨event :: more, out :: outs, s1, last, s2,
    runFrom_cons.mpr ⟨out, s', outs, hstep, hrun, rfl⟩, hpending, hlast⟩

theorem canMisuse_of_polled {l : Loop} (hphase : s.workers w = Phase.polled l)
    (hpending : s.pending (queuePair w) ≠ []) : CanMisuse mm w s := by
  refine ⟨[], [], s, Event.advance w, s.setPhase w (Phase.looping l.next), rfl, hpending, ?_⟩
  simp only [step, hphase]

theorem canMisuse_of_unfinished {l : Loop} (hphase : s.workers w = Phase.looping l)
    (hwrite : l.task.opType = true) (hunfinished : l.unfinished = true)
    (hpending : s.pending (queuePair w) ≠ []) : CanMisuse mm w s := by
  refine ⟨[], [], s, Event.advance w, s.setPhase w (Phase.filled l), rfl, hpending, ?_⟩
  simp only [step, hphase, hunfinished, hwrite, if_true]

theorem workers_setPhase (s : State) (w : WorkerID) (phase : Phase) :
    (s.setPhase w phase).workers w = phase :=
  Function.update_self ..

/-- A write that is finished is followed by another. -/
theorem canMisuse_of_looping {l : Loop} (hphase : s.workers w = Phase.looping l)
    (hwrite : l.task.opType = true) (hpending : s.pending (queuePair w) ≠ []) :
    CanMisuse mm w s := by
  by_cases hunfinished : l.unfinished = true
  · exact canMisuse_of_unfinished hphase hwrite hunfinished hpending
  · let task : TransferTask := ⟨true, 1, 0, 0⟩
    have hfinish : step mm s (Event.advance w) =
        Except.ok (none, s.setPhase w Phase.idle) := by
      simp [step, hphase, hunfinished]
    have htake : step mm (s.setPhase w Phase.idle) (Event.take w task) =
        Except.ok (none, (s.setPhase w Phase.idle).setPhase w (Phase.looping ⟨task, 0⟩)) := by
      simp only [step, workers_setPhase]
    refine CanMisuse.of_step hfinish (CanMisuse.of_step htake ?_)
    exact canMisuse_of_unfinished (workers_setPhase _ w _) rfl (by decide) hpending

theorem canMisuse_of_queue {l : Loop} {c : Entry} {rest : List Entry}
    (hphase : s.workers w = Phase.polling l) (hqueue : s.queues s.peer.cq = c :: rest)
    (hpending : s.pending (queuePair w) ≠ []) : CanMisuse mm w s := by
  cases hwrite : l.task.opType with
  | true =>
      have hpoll : step mm s (Event.advance w) = Except.ok (none,
          { s with queues := Function.update s.queues s.peer.cq rest }.setPhase w
            (Phase.looping l.next)) := by
        simp [step, hphase, State.pollCompletion, hqueue, hwrite]
      exact CanMisuse.of_step hpoll
        (canMisuse_of_looping (workers_setPhase _ w _) hwrite hpending)
  | false =>
      have hpoll : step mm s (Event.advance w) = Except.ok (none,
          { s with queues := Function.update s.queues s.peer.cq rest }.setPhase w
            (Phase.polled l)) := by
        simp [step, hphase, State.pollCompletion, hqueue, hwrite]
      exact CanMisuse.of_step hpoll (canMisuse_of_polled (workers_setPhase _ w _) hpending)

theorem step_of_posts (mm : UInt64) (hposts : (s.workers w).posts = true) :
    exists l r, step mm s (Event.advance w) =
      Except.ok (none, (s.postSend (queuePair w) r).setPhase w (Phase.polling l)) := by
  cases hphase : s.workers w with
  | idle | polling l | polled l =>
      rw [hphase] at hposts
      cases hposts
  | looping l =>
      rw [hphase, Phase.posts, Bool.and_eq_true, Bool.not_eq_true'] at hposts
      exact ⟨l, _, by simp only [step, hphase, hposts.left, hposts.right]; rfl⟩
  | filled l => exact ⟨l, _, by simp only [step, hphase]; rfl⟩

theorem OnlyPolls.eq {u v : WorkerID} (h : OnlyPolls s u) (hv : (s.workers v).inPoll = true) :
    v = u := by
  by_contra hne
  cases (h.right v hne).symm.trans hv

/-- A post while another worker waits. -/
theorem Orderly.canMisuse (h : Orderly s) (hshared : Shared s) {v : WorkerID} (hv : v ≠ w)
    (hpolls : (s.workers v).inPoll = true) (r : WorkRequest) (l : Loop) :
    CanMisuse mm w ((s.postSend (queuePair w) r).setPhase w (Phase.polling l)) := by
  have hposted : ((s.postSend (queuePair w) r).setPhase w (Phase.polling l)).pending
      (queuePair w) ≠ [] := by
    show Function.update s.pending _ _ _ ≠ _
    rw [Function.update_self]
    exact List.append_ne_nil_of_right_ne_nil _ (List.cons_ne_nil r [])
  cases h with
  | nobody hnone _ _ => cases (hnone v).symm.trans hpolls
  | completed u c honly _ hqueue =>
      have hhead : s.queues s.peer.cq = [c] := by
        rw [hshared.cq]
        exact hqueue
      exact canMisuse_of_queue (workers_setPhase _ w _) hhead hposted
  | inFlight u r' honly hpending _ hqueue =>
      have hvu : v = u := honly.eq hpolls
      subst hvu
      have hpair : queuePair v ≠ queuePair w := fun heq => hv (queuePair_injective heq)
      have hhead : ((s.postSend (queuePair w) r).setPhase w (Phase.polling l)).pending
          (queuePair v) = [r'] := by
        show Function.update s.pending _ _ _ = _
        rw [Function.update_of_ne hpair]
        exact hpending
      have hcomplete : step mm ((s.postSend (queuePair w) r).setPhase w (Phase.polling l))
          (Event.complete (queuePair v)) = Except.ok (none,
            ((s.postSend (queuePair w) r).setPhase w (Phase.polling l)).complete
              (queuePair v) r' []) := by
        simp only [step, hhead]
      have hfirst : (((s.postSend (queuePair w) r).setPhase w (Phase.polling l)).complete
          (queuePair v) r' []).queues s.peer.cq = [⟨r'.wrID, queuePair v⟩] := by
        show Function.update s.queues (s.peer.sendCQ (queuePair v))
          (s.queues (s.peer.sendCQ (queuePair v)) ++ _) s.peer.cq = _
        rw [hshared.cq, hshared.sendCQ, Function.update_self, hqueue]
        rfl
      refine CanMisuse.of_step hcomplete
        (canMisuse_of_queue (workers_setPhase _ w _) hfirst ?_)
      show Function.update _ _ _ _ ≠ _
      rw [Function.update_of_ne (Ne.symm hpair)]
      exact hposted

end Misuse

section Runs

variable {mm : UInt64} {serverCount : Nat} {peer : PeerQueues} {events : List Event}

theorem not_usesOwn_of_canMisuse {s0 s : State} {outs : List (Option WorkerID)} {w : WorkerID}
    (hrun : runFrom (step mm) s0 events = Except.ok (outs, s)) (h : CanMisuse mm w s) :
    exists more outs' s', runFrom (step mm) s more = Except.ok (outs', s') ∧
      ¬ EveryStep (step mm) s0 (events ++ more) (UsesOwn mm) := by
  rcases h with ⟨more, outs1, s1, event, s2, hmore, hpending, hstep⟩
  refine ⟨more ++ [event], outs1 ++ [some w], s2, ?_, ?_⟩
  · exact runFrom_concat.mpr ⟨outs1, s1, some w, hmore, hstep, rfl⟩
  · intro huses
    apply hpending
    refine huses (events ++ more) event [] (outs ++ outs1) s1 ?_ ?_ w s2 hstep
    · rw [List.append_assoc]
    · exact runFrom_append.mpr ⟨outs, s, outs1, hrun, hmore, rfl⟩

theorem exists_misuse {outs : List (Option WorkerID)} {s s' : State} {event : Event}
    {out : Option WorkerID}
    (halone : EveryStep (step mm) (init serverCount peer) events Alone)
    (hrun : runFrom (step mm) (init serverCount peer) events = Except.ok (outs, s))
    (hstep : step mm s event = Except.ok (out, s')) (hoverlap : ¬ Alone s event) :
    exists more outs' s2, runFrom (step mm) s' more = Except.ok (outs', s2) ∧
      ¬ EveryStep (step mm) (init serverCount peer) (events ++ event :: more) (UsesOwn mm) := by
  have h := (everyState_orderly halone).last hrun
  cases event with
  | take w task => exact absurd trivial hoverlap
  | complete qp => exact absurd trivial hoverlap
  | advance w =>
      simp only [Alone, not_forall, Bool.not_eq_false] at hoverlap
      rcases hoverlap with ⟨hposts, v, hv, hpolls⟩
      rcases step_of_posts mm hposts with ⟨l, r, hpost⟩
      rw [hpost] at hstep
      cases hstep
      have hconcat := runFrom_concat.mpr ⟨outs, s, none, hrun, hpost, rfl⟩
      rcases not_usesOwn_of_canMisuse hconcat (h.right.canMisuse h.left hv hpolls r l) with
        ⟨more, outs', s2, hmore, hnot⟩
      refine ⟨more, outs', s2, hmore, ?_⟩
      rwa [List.append_cons]

end Runs

/--
While no worker posts before the others have left {lit}`PollCompletion`, each uses its
staging buffer only after its own operation.  The first post that does not wait for the
others can be followed by a use that comes too early.
-/
theorem usesOwn_while_alone (mm : UInt64) (serverCount : Nat) (peer : PeerQueues)
    (events : List Event)
    (halone : EveryStep (step mm) (init serverCount peer) events Alone) :
    EveryStep (step mm) (init serverCount peer) events (UsesOwn mm) ∧
    forall outs s event out s',
      runFrom (step mm) (init serverCount peer) events = Except.ok (outs, s) ->
      step mm s event = Except.ok (out, s') -> ¬ Alone s event ->
      exists more outs' s2, runFrom (step mm) s' more = Except.ok (outs', s2) ∧
        ¬ EveryStep (step mm) (init serverCount peer) (events ++ event :: more) (UsesOwn mm) :=
  ⟨usesOwn_of_alone halone, fun _ _ _ _ _ hrun hstep hoverlap =>
    exists_misuse halone hrun hstep hoverlap⟩

/-- Half of the smallest transfer that is divided between the workers. -/
def halfRead : TransferTask where
  opType := false
  size := 2 * 1024 * 1024
  bufferSend := 0
  bufferReceive := 0

def anyPeer : PeerQueues where
  nodeID := 1
  registeredMemory := 0
  sendCQ := fun _ => 0
  recvCQ := fun _ => 0
  cq := 0

/-- One piece after another by one worker. -/
def twoPieces : List Event :=
  [Event.take 0 halfRead,
    Event.advance 0, Event.complete 1, Event.advance 0, Event.advance 0,
    Event.advance 0, Event.complete 1, Event.advance 0, Event.advance 0]

theorem usesOwn_while_alone_twoPieces :
    (exists outs s, runFrom (step 0) (init 1 anyPeer) twoPieces = Except.ok (outs, s)) ∧
    EveryStep (step 0) (init 1 anyPeer) twoPieces Alone ∧
    EveryStep (step 0) (init 1 anyPeer) twoPieces (UsesOwn 0) := by
  have hpass : passes (runFrom (step 0) (init 1 anyPeer) twoPieces) (fun _ => true) = true := by
    decide +kernel
  rcases exists_of_passes hpass with ⟨⟨outs, s⟩, hrun, _⟩
  have hsteps : stepsPass (step 0)
      (fun s => decide (forall v w, v ≠ w ->
        (s.workers w).posts = true -> (s.workers v).inPoll = false))
      (init 1 anyPeer) twoPieces = true := by
    decide +kernel
  have halone : EveryStep (step 0) (init 1 anyPeer) twoPieces Alone := by
    intro before event after outs s hsplit hbefore
    have htest := of_decide_eq_true
      (everyStep_of_stepsPass hsteps before event after outs s hsplit hbefore)
    cases event with
    | take w task => exact trivial
    | complete qp => exact trivial
    | advance w => exact fun hposts v hv => htest v w hv hposts
  exact ⟨⟨outs, s, hrun⟩, halone, (usesOwn_while_alone 0 1 anyPeer twoPieces halone).left⟩

/-- Both workers post, the second operation completes, and the first worker goes on. -/
def overtaken : List Event :=
  [Event.take 0 halfRead, Event.take 1 halfRead, Event.advance 0, Event.advance 1,
    Event.complete 2, Event.advance 0]

theorem not_usesOwn_overtaken : ¬ forall mm serverCount peer events,
    EveryStep (step mm) (init serverCount peer) events (UsesOwn mm) := by
  intro hall
  have hpass : passes (runFrom (step 0) (init 1 anyPeer) overtaken) (fun result =>
      decide (result.2.pending 1 ≠ []) &&
        passes (step 0 result.2 (Event.advance 0)) (fun last => decide (last.1 = some 0))) =
      true := by
    decide +kernel
  rcases exists_of_passes hpass with ⟨⟨outs, s⟩, hrun, htest⟩
  rw [Bool.and_eq_true, decide_eq_true_iff] at htest
  rcases exists_of_passes htest.right with ⟨⟨out, s'⟩, hstep, hout⟩
  have hsome : out = some 0 := of_decide_eq_true hout
  rw [hsome] at hstep
  exact htest.left (hall 0 1 anyPeer (overtaken ++ [Event.advance 0]) overtaken
    (Event.advance 0) [] outs s rfl hrun 0 s' hstep)

end Completion
end Net
end SpongeBob
