import Mathlib.Data.List.Perm.Basic

/-!
# Agents that keep apart

Several agents take steps on one state, in any order.  Each agent has its own view of
the state.  When a step depends only on the view of the agent that takes it, and changes
no other agent's view, the order of the steps does not matter: a schedule can be
permuted, and what an agent sees at the end is what it would see without the others.
-/

namespace SpongeBob
namespace Foundation
namespace Agents

variable {State Agent : Type} {step : Agent -> State -> Option State}

/-- The state after the agents of a schedule have taken their steps. -/
def run (step : Agent -> State -> Option State) : List Agent -> State -> Option State
  | [], s => some s
  | i :: rest, s => (step i s).bind (run step rest)

theorem run_append {first second : List Agent} {s s' : State} :
    run step (first ++ second) s = some s' <->
      exists s1, run step first s = some s1 ∧ run step second s1 = some s' := by
  induction first generalizing s with
  | nil => simp [run]
  | cons i rest ih =>
      rw [List.cons_append, run, run]
      cases hstep : step i s with
      | none => simp
      | some s1 => simpa using ih

theorem run_cons {i : Agent} {rest : List Agent} {s s' : State} :
    run step (i :: rest) s = some s' <->
      exists s1, step i s = some s1 ∧ run step rest s1 = some s' :=
  Option.bind_eq_some_iff

theorem run_concat {schedule : List Agent} {i : Agent} {s s1 s' : State}
    (hrun : run step schedule s = some s1) (hstep : step i s1 = some s') :
    run step (schedule ++ [i]) s = some s' :=
  run_append.mpr ⟨s1, hrun, run_cons.mpr ⟨s', hstep, rfl⟩⟩

/--
Among the states with an invariant, each agent agrees that two states are the same when
it cannot tell them apart.  Its steps depend on what it sees, and others do not see them.
-/
structure Apart (step : Agent -> State -> Option State) (Inv : State -> Prop)
    (Agree : Agent -> State -> State -> Prop) : Prop where
  equivalence : forall i, Equivalence (Agree i)
  keeps : forall i s s', Inv s -> step i s = some s' -> Inv s'
  own : forall i s t s', Inv s -> Inv t -> Agree i s t -> step i s = some s' ->
    exists t', step i t = some t' ∧ Agree i s' t'
  others : forall i j s s', i ≠ j -> Inv s -> step j s = some s' -> Agree i s s'

variable {Inv : State -> Prop} {Agree : Agent -> State -> State -> Prop}

/-- A schedule does the same in states that no agent can tell apart. -/
theorem Apart.run_agree (h : Apart step Inv Agree) {schedule : List Agent} {s t s' : State}
    (hs : Inv s) (ht : Inv t) (hagree : forall i, Agree i s t)
    (hrun : run step schedule s = some s') :
    exists t', run step schedule t = some t' ∧ forall i, Agree i s' t' := by
  induction schedule generalizing s t with
  | nil =>
      cases hrun
      exact ⟨t, rfl, hagree⟩
  | cons i rest ih =>
      rcases run_cons.mp hrun with ⟨s1, hstep, hrest⟩
      rcases h.own i s t s1 hs ht (hagree i) hstep with ⟨t1, hstep', hagree'⟩
      have hall : forall j, Agree j s1 t1 := by
        intro j
        by_cases hj : j = i
        · subst hj
          exact hagree'
        · have hkept := h.others j i s s1 hj hs hstep
          have hkept' := h.others j i t t1 hj ht hstep'
          exact (h.equivalence j).trans ((h.equivalence j).symm hkept)
            ((h.equivalence j).trans (hagree j) hkept')
      rcases ih (h.keeps i s s1 hs hstep) (h.keeps i t t1 ht hstep') hall hrest with
        ⟨t', hrun', hlast⟩
      exact ⟨t', run_cons.mpr ⟨t1, hstep', hrun'⟩, hlast⟩

/-- Two steps of different agents can be taken the other way round. -/
theorem Apart.swap (h : Apart step Inv Agree) {i j : Agent} (hne : i ≠ j) {s s1 s2 : State}
    (hinv : Inv s) (hfirst : step i s = some s1) (hsecond : step j s1 = some s2) :
    exists t1 t2, step j s = some t1 ∧ step i t1 = some t2 ∧ forall k, Agree k s2 t2 := by
  have hinv1 := h.keeps i s s1 hinv hfirst
  have hseen : Agree j s1 s :=
    (h.equivalence j).symm (h.others j i s s1 (Ne.symm hne) hinv hfirst)
  rcases h.own j s1 s s2 hinv1 hinv hseen hsecond with ⟨t1, hstep, hj⟩
  have hinv1' := h.keeps j s t1 hinv hstep
  have hkept : Agree i s t1 := h.others i j s t1 hne hinv hstep
  rcases h.own i s t1 s1 hinv hinv1' hkept hfirst with ⟨t2, hstep', hi⟩
  refine ⟨t1, t2, hstep, hstep', ?_⟩
  intro k
  by_cases hki : k = i
  · subst hki
    have hlast := h.others k j s1 s2 hne hinv1 hsecond
    exact (h.equivalence k).trans ((h.equivalence k).symm hlast) hi
  · have hlast := h.others k i t1 t2 hki hinv1' hstep'
    by_cases hkj : k = j
    · subst hkj
      exact (h.equivalence k).trans hj hlast
    · -- an agent that takes neither step sees the first state all along
      have hs := (h.equivalence k).trans (h.others k i s s1 hki hinv hfirst)
        (h.others k j s1 s2 hkj hinv1 hsecond)
      have ht := (h.equivalence k).trans (h.others k j s t1 hkj hinv hstep) hlast
      exact (h.equivalence k).trans ((h.equivalence k).symm hs) ht

/-- The order of the steps does not matter. -/
theorem Apart.run_perm (h : Apart step Inv Agree) {schedule schedule' : List Agent}
    (hperm : schedule.Perm schedule') {s s' : State} (hinv : Inv s)
    (hrun : run step schedule s = some s') :
    exists t', run step schedule' s = some t' ∧ forall i, Agree i s' t' := by
  induction hperm generalizing s s' with
  | nil => exact ⟨s', hrun, fun i => (h.equivalence i).refl s'⟩
  | @cons i rest rest' _ ih =>
      rcases run_cons.mp hrun with ⟨s1, hstep, hrest⟩
      rcases ih (h.keeps i s s1 hinv hstep) hrest with ⟨t', hrest', hagree⟩
      exact ⟨t', run_cons.mpr ⟨s1, hstep, hrest'⟩, hagree⟩
  | swap j i rest =>
      rcases run_cons.mp hrun with ⟨s1, hfirst, htail⟩
      rcases run_cons.mp htail with ⟨s2, hsecond, hrest⟩
      by_cases hne : i = j
      · subst hne
        exact ⟨s', hrun, fun k => (h.equivalence k).refl s'⟩
      · rcases h.swap hne hinv hfirst hsecond with ⟨t1, t2, hstep, hstep', hagree⟩
        have hs2 := h.keeps j s1 s2 (h.keeps i s s1 hinv hfirst) hsecond
        have ht2 := h.keeps i t1 t2 (h.keeps j s t1 hinv hstep) hstep'
        rcases h.run_agree hs2 ht2 hagree hrest with ⟨t', hrest', hlast⟩
        exact ⟨t', run_cons.mpr ⟨t1, hstep, run_cons.mpr ⟨t2, hstep', hrest'⟩⟩, hlast⟩
  | trans _ _ ih ih' =>
      rcases ih hinv hrun with ⟨t, hrun', hagree⟩
      rcases ih' hinv hrun' with ⟨t', hrun'', hagree'⟩
      exact ⟨t', hrun'', fun i => (h.equivalence i).trans (hagree i) (hagree' i)⟩

end Agents
end Foundation
end SpongeBob
