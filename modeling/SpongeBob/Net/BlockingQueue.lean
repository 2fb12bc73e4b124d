import SpongeBob.Foundation.Totals
import SpongeBob.Net.PollingQueue

/-!
# The blocking queue

{lit}`Queue::push` and {lit}`Queue::pop` called by any number of threads: a vector under a
mutex, and a condition variable on which a thread sleeps while the vector is empty.  A
thread that pushes notifies after it has given the mutex back, and a sleeping thread can
wake up without being notified.
-/

namespace SpongeBob
namespace Net
namespace BlockingQueue

open Foundation
open PollingQueue (Op)

/-!
# Threads
-/

/-- Where a thread is in {lit}`pop` or {lit}`push`. -/
inductive Phase (alpha : Type) where
  | idle
  /-- Before the mutex is taken, at the start of {lit}`pop` or at the end of {lit}`wait`. -/
  | locking
  /-- Before the vector is tested for being empty. -/
  | testing
  /-- In {lit}`wait`, without the mutex. -/
  | asleep
  /-- Before the first item is copied. -/
  | fetching
  /-- Before the first item, which has been copied, is erased. -/
  | erasing (item : alpha)
  /-- Before the mutex is given back and the item returned. -/
  | leaving (item : alpha)
  /-- At the start of {lit}`push`. -/
  | offering (item : alpha)
  | inserting (item : alpha)
  | unlocking
  /-- The mutex has been given back. -/
  | notifying
deriving DecidableEq, Repr

namespace Phase

variable {alpha : Type}

/-- A thread in this phase has the mutex. -/
def holds : Phase alpha -> Bool
  | testing => true
  | fetching => true
  | erasing _ => true
  | leaving _ => true
  | inserting _ => true
  | unlocking => true
  | _ => false

/-- A thread in this phase is among those that sleep on the condition variable. -/
def sleeps : Phase alpha -> Bool
  | asleep => true
  | _ => false

/-- The item that a thread has erased but not yet returned. -/
def hand : Phase alpha -> List alpha
  | leaving item => [item]
  | _ => []

/-- The phase that a thread enters with the mutex. -/
def entered? : Phase alpha -> Option (Phase alpha)
  | locking => some testing
  | offering item => some (inserting item)
  | _ => none

end Phase

structure State (Thread alpha : Type) where
  queue : List alpha
  owner : Option Thread
  /-- The threads that sleep on the condition variable. -/
  waiters : List Thread
  phase : Thread -> Phase alpha

/-- Why a thread does not go on. -/
inductive Stop where
  | blocked
  | emptyVector
deriving DecidableEq, Repr

inductive Event (Thread alpha : Type) where
  /-- A thread calls one of the operations. -/
  | call (t : Thread) (op : Op alpha)
  /-- The next statement of a thread. -/
  | run (t : Thread)
  /-- {lit}`notify_one` wakes a thread, if there is one. -/
  | notify (t : Thread) (woken : Option Thread)
  /-- A thread wakes up by itself. -/
  | wake (t : Thread)
deriving DecidableEq, Repr

/-- What becomes known of a step. -/
inductive Notice (alpha : Type) where
  | quiet
  | inserted (item : alpha)
  | returned (item : alpha)
deriving DecidableEq, Repr

section Steps

variable {Thread alpha : Type} [DecidableEq Thread]

namespace State

def start : State Thread alpha where
  queue := []
  owner := none
  waiters := []
  phase := fun _ => Phase.idle

def goto (s : State Thread alpha) (t : Thread) (p : Phase alpha) : State Thread alpha :=
  { s with phase := Function.update s.phase t p }

/-- A thread that slept goes on to take the mutex. -/
def rouse (s : State Thread alpha) (t : Thread) : State Thread alpha :=
  { s.goto t Phase.locking with waiters := s.waiters.erase t }

end State

/-- Take the mutex if it is free. -/
def acquire (s : State Thread alpha) (t : Thread) (p : Phase alpha) :
    Except Stop (Notice alpha × State Thread alpha) :=
  match s.owner with
  | none => Except.ok (Notice.quiet, { s.goto t p with owner := some t })
  | some _ => Except.error Stop.blocked

def runThread (s : State Thread alpha) (t : Thread) :
    Except Stop (Notice alpha × State Thread alpha) :=
  match s.phase t with
  | Phase.idle => Except.error Stop.blocked
  | Phase.locking => acquire s t Phase.testing
  | Phase.testing =>
      match s.queue with
      | [] =>
          Except.ok (Notice.quiet,
            { s.goto t Phase.asleep with owner := none, waiters := s.waiters ++ [t] })
      | _ :: _ => Except.ok (Notice.quiet, s.goto t Phase.fetching)
  | Phase.asleep => Except.error Stop.blocked
  | Phase.fetching =>
      match s.queue with
      | [] => Except.error Stop.emptyVector
      | item :: _ => Except.ok (Notice.quiet, s.goto t (Phase.erasing item))
  | Phase.erasing item =>
      match s.queue with
      | [] => Except.error Stop.emptyVector
      | _ :: rest =>
          Except.ok (Notice.quiet, { s.goto t (Phase.leaving item) with queue := rest })
  | Phase.leaving item =>
      Except.ok (Notice.returned item, { s.goto t Phase.idle with owner := none })
  | Phase.offering item => acquire s t (Phase.inserting item)
  | Phase.inserting item =>
      Except.ok (Notice.inserted item,
        { s.goto t Phase.unlocking with queue := s.queue ++ [item] })
  | Phase.unlocking =>
      Except.ok (Notice.quiet, { s.goto t Phase.notifying with owner := none })
  | Phase.notifying => Except.error Stop.blocked

def step (s : State Thread alpha) :
    Event Thread alpha -> Except Stop (Notice alpha × State Thread alpha)
  | Event.call t op =>
      match s.phase t, op with
      | Phase.idle, Op.push item => Except.ok (Notice.quiet, s.goto t (Phase.offering item))
      | Phase.idle, Op.pop => Except.ok (Notice.quiet, s.goto t Phase.locking)
      | _, _ => Except.error Stop.blocked
  | Event.run t => runThread s t
  | Event.notify t woken =>
      match s.phase t, woken with
      | Phase.notifying, some w =>
          if w ∈ s.waiters then Except.ok (Notice.quiet, (s.goto t Phase.idle).rouse w)
          else Except.error Stop.blocked
      | Phase.notifying, none =>
          match s.waiters with
          | [] => Except.ok (Notice.quiet, s.goto t Phase.idle)
          | _ :: _ => Except.error Stop.blocked
      | _, _ => Except.error Stop.blocked
  | Event.wake t =>
      if t ∈ s.waiters then Except.ok (Notice.quiet, s.rouse t)
      else Except.error Stop.blocked

/-- The threads go on with what they have begun, and only wake up when notified. -/
def Internal : Event Thread alpha -> Prop
  | Event.run _ => True
  | Event.notify _ _ => True
  | _ => False

/-!
# What each step does
-/

/-- The steps that are possible in a state, one constructor for each kind. -/
inductive Moves (s : State Thread alpha) :
    Event Thread alpha -> Notice alpha -> State Thread alpha -> Prop where
  | push {t : Thread} {item : alpha} (hphase : s.phase t = Phase.idle) :
      Moves s (Event.call t (Op.push item)) Notice.quiet (s.goto t (Phase.offering item))
  | pop {t : Thread} (hphase : s.phase t = Phase.idle) :
      Moves s (Event.call t Op.pop) Notice.quiet (s.goto t Phase.locking)
  | acquire {t : Thread} {p : Phase alpha} (hphase : (s.phase t).entered? = some p)
      (hfree : s.owner = none) :
      Moves s (Event.run t) Notice.quiet { s.goto t p with owner := some t }
  | sleep {t : Thread} (hphase : s.phase t = Phase.testing) (hqueue : s.queue = []) :
      Moves s (Event.run t) Notice.quiet
        { s.goto t Phase.asleep with owner := none, waiters := s.waiters ++ [t] }
  | find {t : Thread} (hphase : s.phase t = Phase.testing) (hqueue : s.queue ≠ []) :
      Moves s (Event.run t) Notice.quiet (s.goto t Phase.fetching)
  | fetch {t : Thread} {item : alpha} {rest : List alpha} (hphase : s.phase t = Phase.fetching)
      (hqueue : s.queue = item :: rest) :
      Moves s (Event.run t) Notice.quiet (s.goto t (Phase.erasing item))
  | erase {t : Thread} {item first : alpha} {rest : List alpha}
      (hphase : s.phase t = Phase.erasing item) (hqueue : s.queue = first :: rest) :
      Moves s (Event.run t) Notice.quiet { s.goto t (Phase.leaving item) with queue := rest }
  | leave {t : Thread} {item : alpha} (hphase : s.phase t = Phase.leaving item) :
      Moves s (Event.run t) (Notice.returned item) { s.goto t Phase.idle with owner := none }
  | insert {t : Thread} {item : alpha} (hphase : s.phase t = Phase.inserting item) :
      Moves s (Event.run t) (Notice.inserted item)
        { s.goto t Phase.unlocking with queue := s.queue ++ [item] }
  | unlock {t : Thread} (hphase : s.phase t = Phase.unlocking) :
      Moves s (Event.run t) Notice.quiet { s.goto t Phase.notifying with owner := none }
  | notify {t w : Thread} (hphase : s.phase t = Phase.notifying) (hwaits : w ∈ s.waiters) :
      Moves s (Event.notify t (some w)) Notice.quiet ((s.goto t Phase.idle).rouse w)
  | notifyNone {t : Thread} (hphase : s.phase t = Phase.notifying) (hnone : s.waiters = []) :
      Moves s (Event.notify t none) Notice.quiet (s.goto t Phase.idle)
  | wake {t : Thread} (hwaits : t ∈ s.waiters) :
      Moves s (Event.wake t) Notice.quiet (s.rouse t)

variable {s s' : State Thread alpha} {event : Event Thread alpha} {notice : Notice alpha}

theorem moves_of_acquire {t : Thread} {p : Phase alpha}
    (hphase : (s.phase t).entered? = some p)
    (hrun : acquire s t p = Except.ok (notice, s')) : Moves s (Event.run t) notice s' := by
  unfold acquire at hrun
  cases howner : s.owner with
  | none =>
      rw [howner] at hrun
      cases hrun
      exact Moves.acquire hphase howner
  | some u =>
      rw [howner] at hrun
      cases hrun

theorem moves_of_runThread {t : Thread} (hrun : runThread s t = Except.ok (notice, s')) :
    Moves s (Event.run t) notice s' := by
  unfold runThread at hrun
  cases hphase : s.phase t with
  | locking =>
      rw [hphase] at hrun
      exact moves_of_acquire (by rw [hphase]; rfl) hrun
  | offering item =>
      rw [hphase] at hrun
      exact moves_of_acquire (by rw [hphase]; rfl) hrun
  | testing =>
      rw [hphase] at hrun
      cases hqueue : s.queue with
      | nil =>
          rw [hqueue] at hrun
          cases hrun
          exact Moves.sleep hphase hqueue
      | cons item rest =>
          rw [hqueue] at hrun
          cases hrun
          exact Moves.find hphase (by rw [hqueue]; exact List.cons_ne_nil item rest)
  | fetching =>
      rw [hphase] at hrun
      cases hqueue : s.queue with
      | nil =>
          rw [hqueue] at hrun
          cases hrun
      | cons item rest =>
          rw [hqueue] at hrun
          cases hrun
          exact Moves.fetch hphase hqueue
  | erasing item =>
      rw [hphase] at hrun
      cases hqueue : s.queue with
      | nil =>
          rw [hqueue] at hrun
          cases hrun
      | cons first rest =>
          rw [hqueue] at hrun
          cases hrun
          exact Moves.erase hphase hqueue
  | leaving item =>
      rw [hphase] at hrun
      cases hrun
      exact Moves.leave hphase
  | inserting item =>
      rw [hphase] at hrun
      cases hrun
      exact Moves.insert hphase
  | unlocking =>
      rw [hphase] at hrun
      cases hrun
      exact Moves.unlock hphase
  | _ =>
      rw [hphase] at hrun
      cases hrun

theorem moves_of_step (hstep : step s event = Except.ok (notice, s')) :
    Moves s event notice s' := by
  unfold step at hstep
  cases event with
  | call t op =>
      dsimp only at hstep
      split at hstep
      · rename_i hphase
        cases hstep
        exact Moves.push hphase
      · rename_i hphase
        cases hstep
        exact Moves.pop hphase
      · cases hstep
  | run t => exact moves_of_runThread hstep
  | notify t woken =>
      dsimp only at hstep
      split at hstep
      · rename_i w hphase
        split at hstep
        · rename_i hwaits
          cases hstep
          exact Moves.notify hphase hwaits
        · cases hstep
      · rename_i hphase
        split at hstep
        · rename_i hnone
          cases hstep
          exact Moves.notifyNone hphase hnone
        · cases hstep
      · cases hstep
  | wake t =>
      dsimp only at hstep
      split at hstep
      · rename_i hwaits
        cases hstep
        exact Moves.wake hwaits
      · cases hstep

/-!
# The mutex and the sleepers
-/

/-- What a thread that holds the mutex has found of the vector. -/
def Finds (queue : List alpha) : Phase alpha -> Prop
  | Phase.fetching => queue ≠ []
  | Phase.erasing item => exists rest, queue = item :: rest
  | _ => True

theorem finds_of_free {p : Phase alpha} (h : p.holds = false) (queue : List alpha) :
    Finds queue p := by
  cases p with
  | fetching => cases h
  | erasing item => cases h
  | _ => exact True.intro

theorem holds_of_sleeps {p : Phase alpha} (h : p.sleeps = true) : p.holds = false := by
  cases p with
  | asleep => rfl
  | _ => cases h

structure Sound (s : State Thread alpha) : Prop where
  holder : forall t, (s.phase t).holds = true <-> s.owner = some t
  sleeper : forall t, t ∈ s.waiters <-> (s.phase t).sleeps = true
  nodup : s.waiters.Nodup
  finds : forall t, Finds s.queue (s.phase t)

omit [DecidableEq Thread] in
theorem Sound.start : Sound (State.start : State Thread alpha) where
  holder := fun _ => ⟨fun h => (by cases h), fun h => (by cases h)⟩
  sleeper := fun _ => ⟨fun h => (by cases h), fun h => (by cases h)⟩
  nodup := List.nodup_nil
  finds := fun _ => True.intro

/-- A thread goes on, and others do not notice but for the vector and the mutex. -/
theorem Sound.move (h : Sound s) {t : Thread} {p : Phase alpha} {owner : Option Thread}
    {queue : List alpha} (hup : (s.phase t).sleeps = false) (hup' : p.sleeps = false)
    (howner : p.holds = true <-> owner = some t)
    (hothers : forall u, u ≠ t -> (owner = some u <-> s.owner = some u))
    (hqueue : queue = s.queue ∨ s.owner = some t) (hfinds : Finds queue p) :
    Sound { s.goto t p with owner := owner, queue := queue } where
  holder := by
    intro u
    show (Function.update s.phase t p u).holds = true <-> owner = some u
    by_cases hu : u = t
    · rw [hu, Function.update_self]
      exact howner
    · rw [Function.update_of_ne hu, hothers u hu]
      exact h.holder u
  sleeper := by
    intro u
    show u ∈ s.waiters <-> (Function.update s.phase t p u).sleeps = true
    rw [h.sleeper]
    by_cases hu : u = t
    · rw [hu, Function.update_self, hup, hup']
    · rw [Function.update_of_ne hu]
  nodup := h.nodup
  finds := by
    intro u
    show Finds queue (Function.update s.phase t p u)
    by_cases hu : u = t
    · rw [hu, Function.update_self]
      exact hfinds
    · rw [Function.update_of_ne hu]
      rcases hqueue with rfl | hholder
      · exact h.finds u
      · -- the thread has the mutex, so no other thread relies on the vector
        apply finds_of_free
        rw [← Bool.not_eq_true, h.holder, hholder]
        exact fun heq => hu (Option.some.inj heq).symm

/-- A thread goes on without touching the vector or the mutex. -/
theorem Sound.goto (h : Sound s) {t : Thread} {p p' : Phase alpha} (hphase : s.phase t = p)
    (hup : p.sleeps = false) (hup' : p'.sleeps = false) (hholds : p'.holds = p.holds)
    (hfinds : Finds s.queue p') : Sound (s.goto t p') := by
  refine h.move (by rw [hphase]; exact hup) hup' ?_ (fun _ _ => Iff.rfl) (Or.inl rfl) hfinds
  rw [hholds, ← hphase]
  exact h.holder t

/-- A thread that has the mutex changes the vector. -/
theorem Sound.change (h : Sound s) {t : Thread} {p p' : Phase alpha} (hphase : s.phase t = p)
    (hup : p.sleeps = false) (hup' : p'.sleeps = false) (hholds : p.holds = true)
    (hholds' : p'.holds = true) {queue : List alpha} (hfinds : Finds queue p') :
    Sound { s.goto t p' with queue := queue } := by
  have howner : s.owner = some t := (h.holder t).mp (by rw [hphase]; exact hholds)
  exact h.move (by rw [hphase]; exact hup) hup' (iff_of_true hholds' howner)
    (fun _ _ => Iff.rfl) (Or.inr howner) hfinds

/-- A thread gives the mutex back. -/
theorem Sound.release (h : Sound s) {t : Thread} {p p' : Phase alpha} (hphase : s.phase t = p)
    (hup : p.sleeps = false) (hup' : p'.sleeps = false) (hholds : p.holds = true)
    (hholds' : p'.holds = false) : Sound { s.goto t p' with owner := none } := by
  have howner : s.owner = some t := (h.holder t).mp (by rw [hphase]; exact hholds)
  refine h.move (by rw [hphase]; exact hup) hup' ?_ ?_ (Or.inl rfl) (finds_of_free hholds' _)
  · rw [hholds']
    exact iff_of_false Bool.false_ne_true (Option.some_ne_none t).symm
  · intro u hu
    rw [howner]
    exact iff_of_false (Option.some_ne_none u).symm (fun heq => hu (Option.some.inj heq).symm)

/-- A thread takes the mutex. -/
theorem Sound.acquire (h : Sound s) {t : Thread} {p : Phase alpha}
    (hphase : (s.phase t).entered? = some p) (hfree : s.owner = none) :
    Sound { s.goto t p with owner := some t } := by
  have hothers : forall u, u ≠ t -> (some t = some u <-> s.owner = some u) := by
    intro u hu
    rw [hfree]
    exact iff_of_false (fun heq => hu (Option.some.inj heq).symm) (Option.some_ne_none u).symm
  generalize hold : s.phase t = q at hphase
  cases q with
  | locking =>
      cases hphase
      exact h.move (by rw [hold]; rfl) rfl (iff_of_true rfl rfl) hothers (Or.inl rfl) True.intro
  | offering item =>
      cases hphase
      exact h.move (by rw [hold]; rfl) rfl (iff_of_true rfl rfl) hothers (Or.inl rfl) True.intro
  | _ => cases hphase

/-- A sleeping thread goes on to take the mutex. -/
theorem Sound.rouse (h : Sound s) {w : Thread} (hwaits : w ∈ s.waiters) :
    Sound (s.rouse w) where
  holder := by
    intro u
    show (Function.update s.phase w Phase.locking u).holds = true <-> s.owner = some u
    by_cases hu : u = w
    · have hfree := holds_of_sleeps ((h.sleeper w).mp hwaits)
      rw [hu, Function.update_self, ← h.holder, hfree]
      exact Iff.rfl
    · rw [Function.update_of_ne hu]
      exact h.holder u
  sleeper := by
    intro u
    show u ∈ s.waiters.erase w <-> (Function.update s.phase w Phase.locking u).sleeps = true
    rw [h.nodup.mem_erase_iff, h.sleeper]
    by_cases hu : u = w
    · rw [hu, Function.update_self]
      exact iff_of_false (fun hboth => hboth.left rfl) Bool.false_ne_true
    · rw [Function.update_of_ne hu]
      exact and_iff_right hu
  nodup := h.nodup.erase w
  finds := by
    intro u
    show Finds s.queue (Function.update s.phase w Phase.locking u)
    by_cases hu : u = w
    · rw [hu, Function.update_self]
      exact True.intro
    · rw [Function.update_of_ne hu]
      exact h.finds u

/-- A thread that has found the vector empty goes to sleep and gives the mutex back. -/
theorem Sound.sleep (h : Sound s) {t : Thread} (hphase : s.phase t = Phase.testing) :
    Sound { s.goto t Phase.asleep with owner := none, waiters := s.waiters ++ [t] } where
  holder := by
    intro u
    show (Function.update s.phase t Phase.asleep u).holds = true <-> none = some u
    have howner := (h.holder t).mp (by rw [hphase]; rfl)
    by_cases hu : u = t
    · rw [hu, Function.update_self]
      exact iff_of_false Bool.false_ne_true (Option.some_ne_none t).symm
    · rw [Function.update_of_ne hu, h.holder, howner]
      exact iff_of_false (fun heq => hu (Option.some.inj heq).symm) (Option.some_ne_none u).symm
  sleeper := by
    intro u
    show u ∈ s.waiters ++ [t] <-> (Function.update s.phase t Phase.asleep u).sleeps = true
    rw [List.mem_append, List.mem_singleton, h.sleeper]
    by_cases hu : u = t
    · rw [hu, Function.update_self]
      exact iff_of_true (Or.inr rfl) rfl
    · rw [Function.update_of_ne hu]
      exact or_iff_left hu
  nodup := by
    apply List.nodup_append.mpr
    refine ⟨h.nodup, List.nodup_singleton t, ?_⟩
    intro u hwaits v hmem heq
    rw [List.mem_singleton] at hmem
    rw [heq, hmem, h.sleeper, hphase] at hwaits
    cases hwaits
  finds := by
    intro u
    show Finds s.queue (Function.update s.phase t Phase.asleep u)
    by_cases hu : u = t
    · rw [hu, Function.update_self]
      exact True.intro
    · rw [Function.update_of_ne hu]
      exact h.finds u

theorem Moves.sound (hmove : Moves s event notice s') (h : Sound s) : Sound s' := by
  cases hmove with
  | push hphase => exact h.goto hphase rfl rfl rfl True.intro
  | pop hphase => exact h.goto hphase rfl rfl rfl True.intro
  | acquire hphase hfree => exact h.acquire hphase hfree
  | sleep hphase hqueue => exact h.sleep hphase
  | find hphase hqueue => exact h.goto hphase rfl rfl rfl hqueue
  | fetch hphase hqueue => exact h.goto hphase rfl rfl rfl ⟨_, hqueue⟩
  | erase hphase hqueue => exact h.change hphase rfl rfl rfl rfl True.intro
  | leave hphase => exact h.release hphase rfl rfl rfl rfl
  | insert hphase => exact h.change hphase rfl rfl rfl rfl True.intro
  | unlock hphase => exact h.release hphase rfl rfl rfl rfl
  | @notify t w hphase hwaits =>
      have hidle : Sound (s.goto t Phase.idle) := h.goto hphase rfl rfl rfl True.intro
      exact hidle.rouse hwaits
  | notifyNone hphase hnone => exact h.goto hphase rfl rfl rfl True.intro
  | wake hwaits => exact h.rouse hwaits

/-!
# The order of the items
-/

/-- What the thread with the mutex has erased but not yet returned. -/
def inHand (s : State Thread alpha) : List alpha :=
  match s.owner with
  | none => []
  | some t => (s.phase t).hand

def Notice.inserted? : Notice alpha -> Option alpha
  | inserted item => some item
  | _ => none

def Notice.returned? : Notice alpha -> Option alpha
  | returned item => some item
  | _ => none

/-- The items that calls of {lit}`push` have put into the vector, in order. -/
def insertedItems (notices : List (Notice alpha)) : List alpha :=
  notices.filterMap Notice.inserted?

/-- The items that calls of {lit}`pop` have returned, in order. -/
def returnedItems (notices : List (Notice alpha)) : List alpha :=
  notices.filterMap Notice.returned?

omit [DecidableEq Thread] in
theorem inHand_of_none (howner : s.owner = none) : inHand s = [] := by
  unfold inHand
  rw [howner]

omit [DecidableEq Thread] in
theorem inHand_of_some {t : Thread} (howner : s.owner = some t) :
    inHand s = (s.phase t).hand := by
  unfold inHand
  rw [howner]

/-- A thread that holds no item goes on without taking one. -/
theorem inHand_goto {t : Thread} {p : Phase alpha} (hold : (s.phase t).hand = [])
    (hnew : p.hand = []) : inHand (s.goto t p) = inHand s := by
  cases howner : s.owner with
  | none => rw [inHand_of_none howner, inHand_of_none (s := s.goto t p) howner]
  | some u =>
      rw [inHand_of_some howner, inHand_of_some (s := s.goto t p) howner]
      show (Function.update s.phase t p u).hand = (s.phase u).hand
      by_cases hu : u = t
      · rw [hu, Function.update_self, hold, hnew]
      · rw [Function.update_of_ne hu]

/-- The thread with the mutex changes the vector. -/
theorem inHand_change {t : Thread} {p : Phase alpha} {queue : List alpha}
    (howner : s.owner = some t) : inHand { s.goto t p with queue := queue } = p.hand := by
  unfold inHand State.goto
  dsimp only
  rw [howner]
  exact congrArg Phase.hand (Function.update_self t p s.phase)

omit [DecidableEq Thread] in
theorem Sound.hand_eq_nil (h : Sound s) {w : Thread} (hwaits : w ∈ s.waiters) :
    (s.phase w).hand = [] := by
  have hsleeps := (h.sleeper w).mp hwaits
  generalize s.phase w = p at hsleeps
  cases p with
  | asleep => rfl
  | _ => cases hsleeps

theorem hand_of_entered {p q : Phase alpha} (hentered : p.entered? = some q) : q.hand = [] := by
  cases p with
  | locking =>
      cases hentered
      rfl
  | offering item =>
      cases hentered
      rfl
  | _ => cases hentered

/-- What is returned is taken from the front, and what is inserted is put to the back. -/
theorem Moves.order (hmove : Moves s event notice s') (h : Sound s) :
    notice.returned?.toList ++ (inHand s' ++ s'.queue) =
      inHand s ++ s.queue ++ notice.inserted?.toList := by
  have hholder : forall {t p}, s.phase t = p -> p.holds = true -> s.owner = some t := by
    rintro t p rfl hholds
    exact (h.holder t).mp hholds
  have hquiet : forall {s' : State Thread alpha}, inHand s' = inHand s -> s'.queue = s.queue ->
      [] ++ (inHand s' ++ s'.queue) = inHand s ++ s.queue ++ [] := by
    intro s' hhand hqueue
    rw [List.nil_append, List.append_nil, hhand, hqueue]
  cases hmove with
  | push hphase => exact hquiet (inHand_goto (by rw [hphase]; rfl) rfl) rfl
  | pop hphase => exact hquiet (inHand_goto (by rw [hphase]; rfl) rfl) rfl
  | @acquire t p hphase hfree =>
      show [] ++ ((Function.update s.phase t p t).hand ++ s.queue) = inHand s ++ s.queue ++ []
      rw [Function.update_self, hand_of_entered hphase, inHand_of_none hfree]
      exact (List.append_nil _).symm
  | @sleep t hphase hqueue =>
      show [] ++ ([] ++ s.queue) = inHand s ++ s.queue ++ []
      rw [inHand_of_some (hholder hphase rfl), hphase]
      exact (List.append_nil _).symm
  | find hphase hqueue => exact hquiet (inHand_goto (by rw [hphase]; rfl) rfl) rfl
  | fetch hphase hqueue => exact hquiet (inHand_goto (by rw [hphase]; rfl) rfl) rfl
  | @erase t item first rest hphase hqueue =>
      have howner := hholder hphase rfl
      have hfinds := h.finds t
      rw [hphase] at hfinds
      rcases hfinds with ⟨rest', hqueue'⟩
      cases hqueue.symm.trans hqueue'
      rw [inHand_change howner, inHand_of_some howner, hphase, hqueue]
      exact (List.append_nil _).symm
  | @leave t item hphase =>
      show [item] ++ ([] ++ s.queue) = inHand s ++ s.queue ++ []
      rw [inHand_of_some (hholder hphase rfl), hphase]
      exact (List.append_nil _).symm
  | @insert t item hphase =>
      have howner := hholder hphase rfl
      rw [inHand_change howner, inHand_of_some howner, hphase]
      rfl
  | @unlock t hphase =>
      show [] ++ ([] ++ s.queue) = inHand s ++ s.queue ++ []
      rw [inHand_of_some (hholder hphase rfl), hphase]
      exact (List.append_nil _).symm
  | @notify t w hphase hwaits =>
      have hidle : Sound (s.goto t Phase.idle) := h.goto hphase rfl rfl rfl True.intro
      have hgoto : inHand (s.goto t Phase.idle) = inHand s :=
        inHand_goto (by rw [hphase]; rfl) rfl
      have hrouse : inHand ((s.goto t Phase.idle).rouse w) = inHand (s.goto t Phase.idle) :=
        inHand_goto (s := s.goto t Phase.idle) (hidle.hand_eq_nil hwaits) rfl
      exact hquiet (hrouse.trans hgoto) rfl
  | notifyNone hphase hnone => exact hquiet (inHand_goto (by rw [hphase]; rfl) rfl) rfl
  | @wake t hwaits =>
      have hrouse : inHand (s.rouse t) = inHand s := inHand_goto (h.hand_eq_nil hwaits) rfl
      exact hquiet hrouse rfl

/-- No statement reads an empty vector. -/
theorem Sound.step_ne (h : Sound s) (event : Event Thread alpha) :
    step s event ≠ Except.error Stop.emptyVector := by
  have hacquire : forall t p, BlockingQueue.acquire s t p ≠ Except.error Stop.emptyVector := by
    intro t p
    unfold BlockingQueue.acquire
    split
    · exact fun heq => by cases heq
    · exact fun heq => by cases heq
  unfold BlockingQueue.step
  cases event with
  | call t op =>
      dsimp only
      split
      · exact fun heq => by cases heq
      · exact fun heq => by cases heq
      · exact fun heq => by cases heq
  | run t =>
      have hfinds := h.finds t
      dsimp only
      unfold runThread
      cases hphase : s.phase t with
      | locking => exact hacquire t _
      | offering item => exact hacquire t _
      | testing =>
          dsimp only
          split
          · exact fun heq => by cases heq
          · exact fun heq => by cases heq
      | fetching =>
          rw [hphase] at hfinds
          dsimp only
          split
          · rename_i hempty
            exact absurd hempty hfinds
          · exact fun heq => by cases heq
      | erasing item =>
          rw [hphase] at hfinds
          rcases hfinds with ⟨rest, hqueue⟩
          dsimp only
          rw [hqueue]
          exact fun heq => by cases heq
      | _ => exact fun heq => by cases heq
  | notify t woken =>
      dsimp only
      split
      · split
        · exact fun heq => by cases heq
        · exact fun heq => by cases heq
      · split
        · exact fun heq => by cases heq
        · exact fun heq => by cases heq
      · exact fun heq => by cases heq
  | wake t =>
      dsimp only
      split
      · exact fun heq => by cases heq
      · exact fun heq => by cases heq

end Steps

/-!
# Every run
-/

section Runs

variable {Thread alpha : Type} [DecidableEq Thread] {s : State Thread alpha}
  {events : List (Event Thread alpha)} {notices : List (Notice alpha)}

theorem run_sound (hrun : runFrom step State.start events = Except.ok (notices, s)) : Sound s :=
  run_invariant Sound.start (fun _ _ _ _ h hstep => (moves_of_step hstep).sound h) hrun

theorem run_order (hrun : runFrom step State.start events = Except.ok (notices, s)) :
    returnedItems notices ++ (inHand s ++ s.queue) = insertedItems notices := by
  refine run_induction (motive := fun _ notices s =>
    returnedItems notices ++ (inHand s ++ s.queue) = insertedItems notices) rfl ?_ hrun
  intro before notices s event notice s' hbefore ih hstep
  have hreturned : returnedItems (notices ++ [notice]) =
      returnedItems notices ++ notice.returned?.toList := by
    unfold returnedItems
    rw [List.filterMap_append]
    cases notice <;> rfl
  have hinserted : insertedItems (notices ++ [notice]) =
      insertedItems notices ++ notice.inserted?.toList := by
    unfold insertedItems
    rw [List.filterMap_append]
    cases notice <;> rfl
  calc returnedItems (notices ++ [notice]) ++ (inHand s' ++ s'.queue)
    _ = returnedItems notices ++ (notice.returned?.toList ++ (inHand s' ++ s'.queue)) := by
        rw [hreturned, List.append_assoc]
    _ = returnedItems notices ++ (inHand s ++ s.queue) ++ notice.inserted?.toList := by
        simp only [(moves_of_step hstep).order (run_sound hbefore), List.append_assoc]
    _ = insertedItems (notices ++ [notice]) := by rw [ih, hinserted]

/--
Whatever threads push and pop, and whenever they wake up: one thread at a time is at the
vector, no statement reads an empty one, and the items come out in the order in which they
went in, each of them once.
-/
theorem items_in_order (hrun : runFrom step State.start events = Except.ok (notices, s)) :
    (forall t u, (s.phase t).holds = true -> (s.phase u).holds = true -> t = u) ∧
    (forall event, step s event ≠ Except.error Stop.emptyVector) ∧
    returnedItems notices ++ (inHand s ++ s.queue) = insertedItems notices := by
  have hsound := run_sound hrun
  refine ⟨?_, hsound.step_ne, run_order hrun⟩
  intro t u ht hu
  have hsome := ((hsound.holder t).mp ht).symm.trans ((hsound.holder u).mp hu)
  exact Option.some.inj hsome

/-- A thread pops and goes to sleep, another one pushes and notifies it. -/
def popThenPush : List (Event (Fin 2) Nat) :=
  [Event.call 0 Op.pop, Event.run 0, Event.run 0, Event.call 1 (Op.push 7), Event.run 1,
   Event.run 1, Event.run 1, Event.notify 1 (some 0), Event.run 0, Event.run 0, Event.run 0,
   Event.run 0, Event.run 0]

theorem items_in_order_popThenPush : exists notices s,
    runFrom step State.start popThenPush = Except.ok (notices, s) ∧
    returnedItems notices = [7] ∧
    returnedItems notices ++ (inHand s ++ s.queue) = insertedItems notices := by
  have hpass : passes (runFrom step State.start popThenPush)
      (fun (notices, _) => decide (returnedItems notices = [7])) = true := by
    decide +kernel
  rcases exists_of_passes hpass with ⟨⟨notices, s⟩, hrun, htest⟩
  exact ⟨notices, s, hrun, of_decide_eq_true htest, (items_in_order hrun).right.right⟩

end Runs

end BlockingQueue
end Net
end SpongeBob
