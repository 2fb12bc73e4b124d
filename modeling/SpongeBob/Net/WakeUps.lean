import SpongeBob.Net.BlockingQueue

/-!
# No wake-up is lost

A push notifies after it has given the mutex back, so another thread can take the item
first, and the thread that is woken finds the vector empty again.  What holds all the same
is that as long as a thread sleeps, each item in the vector has a thread that is on its way
to it or to a notification.
-/

namespace SpongeBob
namespace Net
namespace BlockingQueue

open Foundation
open PollingQueue (Op)

namespace Phase

variable {alpha : Type}

/-- A thread in this phase looks at the vector again, or notifies one that does. -/
def awake : Phase alpha -> Nat
  | locking => 1
  | testing => 1
  | fetching => 1
  | erasing _ => 1
  | unlocking => 1
  | notifying => 1
  | _ => 0

/-- A bound on the statements until the thread rests, with those of the one it notifies. -/
def rank : Phase alpha -> Nat
  | idle => 0
  | asleep => 0
  | leaving _ => 1
  | erasing _ => 2
  | fetching => 3
  | testing => 4
  | locking => 5
  | notifying => 6
  | unlocking => 7
  | inserting _ => 8
  | offering _ => 9

/-- The thread has nothing to do, or sleeps. -/
def rests : Phase alpha -> Bool
  | idle => true
  | asleep => true
  | _ => false

end Phase

section WakeUps

variable {Thread alpha : Type} [Fintype Thread] [DecidableEq Thread]
  {s s' : State Thread alpha} {event : Event Thread alpha} {notice : Notice alpha}

/-- While a thread sleeps, no more items are in the vector than threads are awake for. -/
def Covered (s : State Thread alpha) : Prop :=
  s.waiters = [] ∨ s.queue.length ≤ total Phase.awake s.phase

theorem Covered.move (h : Covered s) {t : Thread} {p p' : Phase alpha} (hphase : s.phase t = p)
    {queue : List alpha} (hless : queue.length + p.awake ≤ s.queue.length + p'.awake)
    {owner : Option Thread} : Covered { s.goto t p' with owner := owner, queue := queue } := by
  rcases h with hnone | hawake
  · exact Or.inl hnone
  · right
    have htotal := total_update Phase.awake s.phase t p'
    rw [hphase] at htotal
    show queue.length ≤ total Phase.awake (Function.update s.phase t p')
    omega

theorem Covered.goto (h : Covered s) {t : Thread} {p p' : Phase alpha} (hphase : s.phase t = p)
    (hle : p.awake ≤ p'.awake) : Covered (s.goto t p') :=
  h.move hphase (Nat.add_le_add_left hle _)

omit [Fintype Thread] [DecidableEq Thread] in
/-- A thread that sleeps has no weight. -/
theorem Sound.weightless (h : Sound s) {w : Thread} (hwaits : w ∈ s.waiters) :
    (s.phase w).awake = 0 ∧ (s.phase w).rank = 0 := by
  have hsleeps := (h.sleeper w).mp hwaits
  generalize s.phase w = p at hsleeps
  cases p with
  | asleep => exact ⟨rfl, rfl⟩
  | _ => cases hsleeps

theorem awake_rouse (h : Sound s) {w : Thread} (hwaits : w ∈ s.waiters) :
    total Phase.awake (s.rouse w).phase = total Phase.awake s.phase + 1 := by
  have htotal := total_update Phase.awake s.phase w Phase.locking
  rw [(h.weightless hwaits).left] at htotal
  exact htotal

theorem rank_rouse (h : Sound s) {w : Thread} (hwaits : w ∈ s.waiters) :
    total Phase.rank (s.rouse w).phase = total Phase.rank s.phase + 5 := by
  have htotal := total_update Phase.rank s.phase w Phase.locking
  rw [(h.weightless hwaits).right] at htotal
  exact htotal

/-- The thread that is notified looks at the vector in place of the one that notifies it. -/
theorem Moves.covered (hmove : Moves s event notice s') (h : Sound s) (hcovered : Covered s) :
    Covered s' := by
  cases hmove with
  | push hphase => exact hcovered.goto hphase (Nat.le_refl _)
  | pop hphase => exact hcovered.goto hphase (Nat.zero_le _)
  | @acquire t p hphase hfree =>
      refine hcovered.move rfl (Nat.add_le_add_left ?_ _)
      generalize s.phase t = q at hphase
      cases q with
      | locking =>
          cases hphase
          exact Nat.le_refl _
      | offering item =>
          cases hphase
          exact Nat.le_refl _
      | _ => cases hphase
  | sleep hphase hqueue =>
      right
      dsimp only [State.goto]
      rw [hqueue]
      exact Nat.zero_le _
  | find hphase hqueue => exact hcovered.goto hphase (Nat.le_refl _)
  | fetch hphase hqueue => exact hcovered.goto hphase (Nat.le_refl _)
  | @erase t item first rest hphase hqueue =>
      refine hcovered.move hphase ?_
      rw [hqueue]
      exact Nat.le_refl _
  | leave hphase =>
      refine hcovered.move hphase (Nat.add_le_add_left ?_ _)
      exact Nat.le_refl _
  | @insert t item hphase =>
      refine hcovered.move hphase ?_
      rw [List.length_append]
      exact Nat.le_refl _
  | unlock hphase =>
      refine hcovered.move hphase (Nat.add_le_add_left ?_ _)
      exact Nat.le_refl _
  | @notify t w hphase hwaits =>
      right
      have hidle : Sound (s.goto t Phase.idle) := h.goto hphase rfl rfl rfl True.intro
      have hnotifier := total_update Phase.awake s.phase t Phase.idle
      rw [hphase] at hnotifier
      have hrouse := awake_rouse hidle hwaits
      have hlength := hcovered.resolve_left (List.ne_nil_of_mem hwaits)
      rw [hrouse]
      show s.queue.length ≤ total Phase.awake (Function.update s.phase t Phase.idle) + 1
      have hone : (Phase.notifying : Phase alpha).awake = 1 := rfl
      have hzero : (Phase.idle : Phase alpha).awake = 0 := rfl
      omega
  | @notifyNone t hphase hnone => exact Or.inl hnone
  | @wake t hwaits =>
      right
      have hlength := hcovered.resolve_left (List.ne_nil_of_mem hwaits)
      rw [awake_rouse h hwaits]
      exact Nat.le_succ_of_le hlength

/-- A statement brings its thread nearer to its rest. -/
theorem rank_goto {t : Thread} {p p' : Phase alpha} (hphase : s.phase t = p)
    (hless : p'.rank < p.rank) :
    total Phase.rank (Function.update s.phase t p') < total Phase.rank s.phase :=
  total_update_lt (by rw [hphase]; exact hless)

theorem Moves.rank (hmove : Moves s event notice s') (h : Sound s) (hinternal : Internal event) :
    total Phase.rank s'.phase < total Phase.rank s.phase := by
  cases hmove with
  | push hphase => exact absurd hinternal id
  | pop hphase => exact absurd hinternal id
  | @acquire t p hphase hfree =>
      refine rank_goto (t := t) rfl ?_
      generalize s.phase t = q at hphase
      cases q with
      | locking =>
          cases hphase
          exact Nat.lt_succ_self _
      | offering item =>
          cases hphase
          exact Nat.lt_succ_self _
      | _ => cases hphase
  | sleep hphase hqueue => exact rank_goto hphase (Nat.succ_pos _)
  | find hphase hqueue => exact rank_goto hphase (Nat.lt_succ_self _)
  | fetch hphase hqueue => exact rank_goto hphase (Nat.lt_succ_self _)
  | erase hphase hqueue => exact rank_goto hphase (Nat.lt_succ_self _)
  | leave hphase => exact rank_goto hphase (Nat.succ_pos _)
  | insert hphase => exact rank_goto hphase (Nat.lt_succ_self _)
  | unlock hphase => exact rank_goto hphase (Nat.lt_succ_self _)
  | @notify t w hphase hwaits =>
      have hidle : Sound (s.goto t Phase.idle) := h.goto hphase rfl rfl rfl True.intro
      have hnotifier := total_update Phase.rank s.phase t Phase.idle
      rw [hphase] at hnotifier
      rw [rank_rouse hidle hwaits]
      show total Phase.rank (Function.update s.phase t Phase.idle) + 5 < _
      have hsix : (Phase.notifying : Phase alpha).rank = 6 := rfl
      have hzero : (Phase.idle : Phase alpha).rank = 0 := rfl
      omega
  | notifyNone hphase hnone => exact rank_goto hphase (Nat.succ_pos _)
  | wake hwaits => exact absurd hinternal id

/-!
# Progress
-/

omit [Fintype Thread] in
/-- The thread with the mutex is not kept waiting. -/
theorem Sound.exists_run (h : Sound s) {t : Thread} (howner : s.owner = some t) :
    exists notice s', step s (Event.run t) = Except.ok (notice, s') := by
  have hholds := (h.holder t).mpr howner
  have hfinds := h.finds t
  show exists notice s', runThread s t = Except.ok (notice, s')
  unfold runThread
  cases hphase : s.phase t with
  | testing =>
      dsimp only
      split
      · exact ⟨_, _, rfl⟩
      · exact ⟨_, _, rfl⟩
  | fetching =>
      rw [hphase] at hfinds
      dsimp only
      split
      · rename_i hempty
        exact absurd hempty hfinds
      · exact ⟨_, _, rfl⟩
  | erasing item =>
      rw [hphase] at hfinds
      rcases hfinds with ⟨rest, hqueue⟩
      dsimp only
      rw [hqueue]
      exact ⟨_, _, rfl⟩
  | leaving item => exact ⟨_, _, rfl⟩
  | inserting item => exact ⟨_, _, rfl⟩
  | unlocking => exact ⟨_, _, rfl⟩
  | _ =>
      rw [hphase] at hholds
      cases hholds

omit [Fintype Thread] in
theorem exists_acquire {t : Thread} (p : Phase alpha) (hfree : s.owner = none) :
    exists notice s', acquire s t p = Except.ok (notice, s') := by
  unfold acquire
  rw [hfree]
  exact ⟨_, _, rfl⟩

omit [Fintype Thread] in
/-- As long as a thread neither rests nor sleeps, some thread can go on. -/
theorem Sound.exists_step (h : Sound s) {t : Thread} (hrests : (s.phase t).rests = false) :
    exists event notice s', Internal event ∧ step s event = Except.ok (notice, s') := by
  cases howner : s.owner with
  | some u =>
      rcases h.exists_run howner with ⟨notice, s', hstep⟩
      exact ⟨Event.run u, notice, s', True.intro, hstep⟩
  | none =>
      have hfree : (s.phase t).holds = false := by
        rw [← Bool.not_eq_true, h.holder, howner]
        exact (Option.some_ne_none t).symm
      cases hphase : s.phase t with
      | locking =>
          rcases exists_acquire (t := t) Phase.testing howner with ⟨notice, s', hstep⟩
          refine ⟨Event.run t, notice, s', True.intro, ?_⟩
          show runThread s t = _
          unfold runThread
          rw [hphase]
          exact hstep
      | offering item =>
          rcases exists_acquire (t := t) (Phase.inserting item) howner with ⟨notice, s', hstep⟩
          refine ⟨Event.run t, notice, s', True.intro, ?_⟩
          show runThread s t = _
          unfold runThread
          rw [hphase]
          exact hstep
      | notifying =>
          cases hwaiters : s.waiters with
          | nil =>
              refine ⟨Event.notify t none, Notice.quiet, s.goto t Phase.idle, True.intro, ?_⟩
              unfold step
              dsimp only
              rw [hphase, hwaiters]
          | cons w rest =>
              have hwaits : w ∈ s.waiters := by
                rw [hwaiters]
                exact List.mem_cons_self
              refine ⟨Event.notify t (some w), Notice.quiet, (s.goto t Phase.idle).rouse w,
                True.intro, ?_⟩
              unfold step
              dsimp only
              rw [hphase]
              exact if_pos hwaits
      | idle =>
          rw [hphase] at hrests
          cases hrests
      | asleep =>
          rw [hphase] at hrests
          cases hrests
      | _ =>
          rw [hphase] at hfree
          cases hfree

/-- Every thread rests, and one sleeps in {lit}`pop` only if there is no item. -/
def Settled (s : State Thread alpha) : Prop :=
  forall t, s.phase t = Phase.idle ∨ (s.phase t = Phase.asleep ∧ s.queue = [])

omit [DecidableEq Thread] in
theorem settled_of_rests (h : Sound s) (hcovered : Covered s)
    (hrests : forall t, (s.phase t).rests = true) : Settled s := by
  have hzero : total Phase.awake s.phase = 0 := by
    apply total_eq_zero
    intro t
    have hrest := hrests t
    generalize s.phase t = p at hrest
    cases p with
    | idle => rfl
    | asleep => rfl
    | _ => cases hrest
  intro t
  have hrest := hrests t
  cases hphase : s.phase t with
  | idle => exact Or.inl rfl
  | asleep =>
      refine Or.inr ⟨rfl, ?_⟩
      have hwaits : t ∈ s.waiters := by
        rw [h.sleeper, hphase]
        rfl
      have hlength := hcovered.resolve_left (List.ne_nil_of_mem hwaits)
      rw [hzero] at hlength
      exact List.length_eq_zero_iff.mp (Nat.le_zero.mp hlength)
  | _ =>
      rw [hphase] at hrest
      cases hrest

theorem run_covered {events : List (Event Thread alpha)} {notices : List (Notice alpha)}
    (hrun : runFrom step State.start events = Except.ok (notices, s)) :
    Sound s ∧ Covered s := by
  refine run_induction (motive := fun _ _ s => Sound s ∧ Covered s)
    ⟨Sound.start, Or.inl rfl⟩ ?_ hrun
  rintro before notices s event notice s' _ ⟨hsound, hcovered⟩ hstep
  have hmove := moves_of_step hstep
  exact ⟨hmove.sound hsound, hmove.covered hsound hcovered⟩

/--
Whatever has happened before, and also if threads woke up by themselves: once no further
calls are made, all threads come to rest, however their statements interleave and
whichever thread a notification wakes, and none of them sleeps while there is an item.
-/
theorem threads_settle {events : List (Event Thread alpha)} {notices : List (Notice alpha)}
    (hrun : runFrom step State.start events = Except.ok (notices, s)) :
    Inevitable step Internal Settled s := by
  refine inevitable_of_bound
    (fun n s => (Sound s ∧ Covered s) ∧ total Phase.rank s.phase = n)
    ?live ?less ⟨run_covered hrun, rfl⟩
  case live =>
    rintro n s ⟨⟨hsound, hcovered⟩, _⟩ hgoing
    have hbusy : ¬ forall t, (s.phase t).rests = true :=
      fun hrests => hgoing (settled_of_rests hsound hcovered hrests)
    rcases not_forall.mp hbusy with ⟨t, ht⟩
    exact hsound.exists_step (Bool.not_eq_true _ ▸ ht)
  case less =>
    rintro n s event notice s' ⟨⟨hsound, hcovered⟩, rfl⟩ hinternal hstep
    have hmove := moves_of_step hstep
    exact ⟨_, hmove.rank hsound hinternal, ⟨hmove.sound hsound, hmove.covered hsound hcovered⟩,
      rfl⟩

/-- The item is in the vector, and the thread that sleeps has not been notified yet. -/
theorem threads_settle_popThenPush : exists notices s,
    runFrom step State.start (popThenPush.take 7) = Except.ok (notices, s) ∧
    s.queue = [7] ∧ s.waiters = [0] ∧ Inevitable step Internal Settled s := by
  have hpass : passes (runFrom step State.start (popThenPush.take 7))
      (fun (_, s) => decide (s.queue = [7] ∧ s.waiters = [0])) = true := by
    decide +kernel
  rcases exists_of_passes hpass with ⟨⟨notices, s⟩, hrun, htest⟩
  rcases of_decide_eq_true htest with ⟨hqueue, hwaiters⟩
  exact ⟨notices, s, hrun, hqueue, hwaiters, threads_settle hrun⟩

end WakeUps

end BlockingQueue
end Net
end SpongeBob
