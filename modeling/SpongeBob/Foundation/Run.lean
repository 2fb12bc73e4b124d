import Mathlib.Data.List.Induction

/-!
# Runs of a partial step function

A step function takes a state and an input to an output and a next state, or
stops with a fault.  A run feeds it a list of inputs one after another and
collects the outputs.  The rules below carry a property of single steps to
whole runs.
-/

namespace SpongeBob
namespace Foundation

variable {State Input Output Fault : Type}
variable (step : State -> Input -> Except Fault (Output × State))

def runFrom : State -> List Input -> Except Fault (List Output × State)
  | s, [] => Except.ok ([], s)
  | s, input :: rest => do
      let (out, s) ← step s input
      let (outs, s) ← runFrom s rest
      pure (out :: outs, s)

/-- Every state that a run passes through satisfies {lit}`Q`. -/
def EveryState (s0 : State) (inputs : List Input) (Q : State -> Prop) : Prop :=
  forall before after outs s, inputs = before ++ after ->
    runFrom step s0 before = Except.ok (outs, s) -> Q s

/-- Every step of a run starts from a state and an input related by {lit}`P`. -/
def EveryStep (s0 : State) (inputs : List Input) (P : State -> Input -> Prop) : Prop :=
  forall before input after outs s, inputs = before ++ input :: after ->
    runFrom step s0 before = Except.ok (outs, s) -> P s input

variable {step}

/-!
## Taking runs apart
-/

@[simp] theorem ok_bind {alpha beta : Type} (a : alpha) (f : alpha -> Except Fault beta) :
    (Except.ok a >>= f) = f a :=
  rfl

theorem bind_eq_ok {alpha beta : Type} {x : Except Fault alpha}
    {f : alpha -> Except Fault beta} {b : beta} :
    x >>= f = Except.ok b <-> exists a, x = Except.ok a ∧ f a = Except.ok b := by
  cases x with
  | error e =>
      constructor
      · intro h
        cases h
      · rintro ⟨a, ha, _⟩
        cases ha
  | ok a =>
      constructor
      · intro h
        exact ⟨a, rfl, h⟩
      · rintro ⟨a', ha, h⟩
        cases ha
        exact h

theorem runFrom_cons {s s2 : State} {input : Input} {rest : List Input}
    {outs : List Output} :
    runFrom step s (input :: rest) = Except.ok (outs, s2) <->
      exists out s1 outs1, step s input = Except.ok (out, s1) ∧
        runFrom step s1 rest = Except.ok (outs1, s2) ∧ outs = out :: outs1 := by
  simp only [runFrom, bind_eq_ok]
  constructor
  · rintro ⟨⟨out, s1⟩, hstep, ⟨outs1, s2'⟩, hrest, hpure⟩
    cases hpure
    exact ⟨out, s1, outs1, hstep, hrest, rfl⟩
  · rintro ⟨out, s1, outs1, hstep, hrest, rfl⟩
    exact ⟨(out, s1), hstep, (outs1, s2), hrest, rfl⟩

theorem runFrom_append {s s2 : State} {xs ys : List Input} {outs : List Output} :
    runFrom step s (xs ++ ys) = Except.ok (outs, s2) <->
      exists outs1 s1 outs2, runFrom step s xs = Except.ok (outs1, s1) ∧
        runFrom step s1 ys = Except.ok (outs2, s2) ∧ outs = outs1 ++ outs2 := by
  induction xs generalizing s outs with
  | nil =>
      constructor
      · intro h
        exact ⟨[], s, outs, rfl, h, rfl⟩
      · rintro ⟨outs1, s1, outs2, hnil, h, rfl⟩
        cases hnil
        exact h
  | cons x xs ih =>
      simp only [List.cons_append, runFrom_cons, ih]
      constructor
      · rintro ⟨out, s', outs', hstep, ⟨outs1, s1, outs2, hxs, hys, rfl⟩, rfl⟩
        exact ⟨out :: outs1, s1, outs2, ⟨out, s', outs1, hstep, hxs, rfl⟩, hys, rfl⟩
      · rintro ⟨outs1, s1, outs2, ⟨out, s', outs', hstep, hxs, rfl⟩, hys, rfl⟩
        exact ⟨out, s', outs' ++ outs2, hstep, ⟨outs', s1, outs2, hxs, hys, rfl⟩, rfl⟩

theorem runFrom_concat {s s2 : State} {xs : List Input} {x : Input}
    {outs : List Output} :
    runFrom step s (xs ++ [x]) = Except.ok (outs, s2) <->
      exists outs1 s1 out, runFrom step s xs = Except.ok (outs1, s1) ∧
        step s1 x = Except.ok (out, s2) ∧ outs = outs1 ++ [out] := by
  rw [runFrom_append]
  constructor
  · rintro ⟨outs1, s1, outs2, hxs, hx, rfl⟩
    rcases runFrom_cons.mp hx with ⟨out, s', outs', hstep, hnil, rfl⟩
    cases hnil
    exact ⟨outs1, s1, out, hxs, hstep, rfl⟩
  · rintro ⟨outs1, s1, out, hxs, hstep, rfl⟩
    exact ⟨outs1, s1, [out], hxs, runFrom_cons.mpr ⟨out, s2, [], hstep, rfl, rfl⟩, rfl⟩

/-- Whether a computation completes with a result that passes a test. -/
def passes {alpha : Type} (x : Except Fault alpha) (test : alpha -> Bool) : Bool :=
  match x with
  | Except.ok a => test a
  | Except.error _ => false

theorem exists_of_passes {alpha : Type} {x : Except Fault alpha} {test : alpha -> Bool}
    (hpass : passes x test = true) : exists a, x = Except.ok a ∧ test a = true := by
  cases x with
  | error e => cases hpass
  | ok a => exact ⟨a, rfl, hpass⟩

/-- Whether every step of a run starts from a state that passes a test. -/
def stepsPass (step : State -> Input -> Except Fault (Output × State))
    (test : State -> Bool) : State -> List Input -> Bool
  | _, [] => true
  | s, input :: rest =>
      test s &&
        match step s input with
        | Except.ok (_, s) => stepsPass step test s rest
        | Except.error _ => true

theorem EveryStep.nil {s0 : State} {P : State -> Input -> Prop} : EveryStep step s0 [] P := by
  intro before input after outs s hsplit _
  cases before <;> cases hsplit

theorem EveryStep.cons {s0 : State} {head : Input} {rest : List Input}
    {P : State -> Input -> Prop} (hhead : P s0 head)
    (hrest : forall out s1, step s0 head = Except.ok (out, s1) -> EveryStep step s1 rest P) :
    EveryStep step s0 (head :: rest) P := by
  intro before input after outs s hsplit hrun
  cases before with
  | nil =>
      cases hrun
      cases hsplit
      exact hhead
  | cons b before =>
      cases hsplit
      rcases runFrom_cons.mp hrun with ⟨out, s1, outs1, hstep, htail, _⟩
      exact hrest out s1 hstep before input after outs1 s rfl htail

theorem everyStep_of_stepsPass {s0 : State} {inputs : List Input} {test : State -> Bool}
    (hpass : stepsPass step test s0 inputs = true) :
    EveryStep step s0 inputs (fun s _ => test s = true) := by
  induction inputs generalizing s0 with
  | nil => exact EveryStep.nil
  | cons head rest ih =>
      rw [stepsPass, Bool.and_eq_true] at hpass
      apply EveryStep.cons
      · exact hpass.left
      · intro out s1 hstep
        rw [hstep] at hpass
        exact ih hpass.right

/-- Whether every step of a run starts from a state and an input that pass a test. -/
def stepsMeet (step : State -> Input -> Except Fault (Output × State))
    (test : State -> Input -> Bool) : State -> List Input -> Bool
  | _, [] => true
  | s, input :: rest =>
      test s input &&
        match step s input with
        | Except.ok (_, s) => stepsMeet step test s rest
        | Except.error _ => true

theorem everyStep_of_stepsMeet {s0 : State} {inputs : List Input}
    {P : State -> Input -> Prop} [forall s input, Decidable (P s input)]
    (hmeet : stepsMeet step (fun s input => decide (P s input)) s0 inputs = true) :
    EveryStep step s0 inputs P := by
  induction inputs generalizing s0 with
  | nil => exact EveryStep.nil
  | cons head rest ih =>
      rw [stepsMeet, Bool.and_eq_true] at hmeet
      apply EveryStep.cons
      · exact of_decide_eq_true hmeet.left
      · intro out s1 hstep
        rw [hstep] at hmeet
        exact ih hmeet.right

/-!
## Induction over runs
-/

/-- Induction on the length of a run, with the history at hand. -/
theorem run_induction {s0 : State} {motive : List Input -> List Output -> State -> Prop}
    (start : motive [] [] s0)
    (extend : forall before outs s input out s',
      runFrom step s0 before = Except.ok (outs, s) -> motive before outs s ->
      step s input = Except.ok (out, s') ->
      motive (before ++ [input]) (outs ++ [out]) s')
    {inputs : List Input} {outs : List Output} {s : State}
    (hrun : runFrom step s0 inputs = Except.ok (outs, s)) :
    motive inputs outs s := by
  induction inputs using List.reverseRecOn generalizing outs s with
  | nil =>
      cases hrun
      exact start
  | append_singleton before input ih =>
      rcases runFrom_concat.mp hrun with ⟨outs1, s1, out, hbefore, hstep, rfl⟩
      exact extend before outs1 s1 input out s hbefore (ih hbefore) hstep

/-- A property of the initial state that every step keeps holds after any run. -/
theorem run_invariant {s0 : State} {Inv : State -> Prop} (start : Inv s0)
    (keep : forall s input out s', Inv s -> step s input = Except.ok (out, s') -> Inv s')
    {inputs : List Input} {outs : List Output} {s : State}
    (hrun : runFrom step s0 inputs = Except.ok (outs, s)) : Inv s :=
  run_induction (motive := fun _ _ s => Inv s) start
    (fun _ _ s input out s' _ hinv hstep => keep s input out s' hinv hstep) hrun

/-- When a property that every step keeps lets every step be made, so it does any run. -/
theorem exists_run (Inv : State -> Prop)
    (keep : forall s input out s', Inv s -> step s input = Except.ok (out, s') -> Inv s')
    (progress : forall s input, Inv s -> exists out s', step s input = Except.ok (out, s'))
    {s : State} (start : Inv s) (inputs : List Input) :
    exists outs s', runFrom step s inputs = Except.ok (outs, s') := by
  induction inputs generalizing s with
  | nil => exact ⟨[], s, rfl⟩
  | cons input inputs ih =>
      rcases progress s input start with ⟨out, s1, hstep⟩
      rcases ih (keep s input out s1 start hstep) with ⟨outs, s2, hrun⟩
      exact ⟨out :: outs, s2, runFrom_cons.mpr ⟨out, s1, outs, hstep, hrun, rfl⟩⟩

/-- A property that every step of a run keeps holds in all its states. -/
theorem EveryStep.everyState {s0 : State} {inputs : List Input} {P : State -> Input -> Prop}
    (hsteps : EveryStep step s0 inputs P) {Inv : State -> Prop} (start : Inv s0)
    (keep : forall s input out s', Inv s -> P s input ->
      step s input = Except.ok (out, s') -> Inv s') :
    EveryState step s0 inputs Inv := by
  intro before
  induction before using List.reverseRecOn with
  | nil =>
      intro after outs s _ hnil
      cases hnil
      exact start
  | append_singleton before input ih =>
      intro after outs s hsplit hrun
      rcases runFrom_concat.mp hrun with ⟨outs1, s1, out, hbefore, hstep, _⟩
      have hsplit' : inputs = before ++ input :: after := by
        simpa using hsplit
      exact keep s1 input out s (ih (input :: after) outs1 s1 hsplit' hbefore)
        (hsteps before input after outs1 s1 hsplit' hbefore) hstep

theorem EveryState.last {s0 : State} {inputs : List Input} {Q : State -> Prop}
    (hstates : EveryState step s0 inputs Q) {outs : List Output} {s : State}
    (hrun : runFrom step s0 inputs = Except.ok (outs, s)) : Q s :=
  hstates inputs [] outs s (List.append_nil inputs).symm hrun

/-- The steps of a run are steps of a longer one. -/
theorem EveryStep.of_append {s0 : State} {inputs rest : List Input} {P : State -> Input -> Prop}
    (hsteps : EveryStep step s0 (inputs ++ rest) P) : EveryStep step s0 inputs P := by
  intro before input after outs s hsplit hrun
  exact hsteps before input (after ++ rest) outs s (by rw [hsplit]; simp) hrun

/-- Induction on the length of a run whose steps start from related states and inputs. -/
theorem EveryStep.run_induction {s0 : State} {P : State -> Input -> Prop}
    {motive : List Input -> List Output -> State -> Prop} (start : motive [] [] s0)
    (extend : forall before outs s input out s',
      runFrom step s0 before = Except.ok (outs, s) -> motive before outs s -> P s input ->
      step s input = Except.ok (out, s') ->
      motive (before ++ [input]) (outs ++ [out]) s')
    {inputs : List Input} (hsteps : EveryStep step s0 inputs P) {outs : List Output} {s : State}
    (hrun : runFrom step s0 inputs = Except.ok (outs, s)) :
    motive inputs outs s := by
  revert hsteps
  refine Foundation.run_induction
    (motive := fun inputs outs s => EveryStep step s0 inputs P -> motive inputs outs s)
    (fun _ => start) ?_ hrun
  intro before outs s input out s' hbefore ih hstep hsteps
  have hP : P s input := hsteps before input [] outs s rfl hbefore
  exact extend before outs s input out s' hbefore (ih hsteps.of_append) hP hstep

/-- A fact that only one kind of step can end holds until such a step is made. -/
theorem run_until (Inv Fact : State -> Prop) {last : Input × Output}
    (inv : forall s input out s', Inv s -> step s input = Except.ok (out, s') -> Inv s')
    (keep : forall s input out s', Inv s -> Fact s -> step s input = Except.ok (out, s') ->
      Fact s' ∨ last = (input, out))
    {s s' : State} (hinv : Inv s) (hfact : Fact s) {inputs : List Input}
    {outs : List Output} (hrun : runFrom step s inputs = Except.ok (outs, s')) :
    Fact s' ∨ last ∈ inputs.zip outs := by
  induction inputs generalizing s outs with
  | nil =>
      cases hrun
      exact Or.inl hfact
  | cons input inputs ih =>
      rcases runFrom_cons.mp hrun with ⟨out, s1, outs1, hstep, hrest, rfl⟩
      rw [List.zip_cons_cons]
      rcases keep s input out s1 hinv hfact hstep with hnext | heq
      · rcases ih (inv s input out s1 hinv hstep) hnext hrest with hend | hmem
        · exact Or.inl hend
        · exact Or.inr (List.mem_cons_of_mem _ hmem)
      · rw [heq]
        exact Or.inr List.mem_cons_self

/-- A run that goes on past a state has made the step from it. -/
theorem step_of_run {s0 s s1 : State} {inputs before after : List Input} {input : Input}
    {outs outs1 : List Output} (hrun : runFrom step s0 inputs = Except.ok (outs, s))
    (hsplit : inputs = before ++ input :: after)
    (hbefore : runFrom step s0 before = Except.ok (outs1, s1)) :
    exists out s2, step s1 input = Except.ok (out, s2) ∧
      runFrom step s0 (before ++ [input]) = Except.ok (outs1 ++ [out], s2) := by
  rw [hsplit] at hrun
  rcases runFrom_append.mp hrun with ⟨outs1', s1', outs2, hbefore', hrest, _⟩
  rw [hbefore] at hbefore'
  cases hbefore'
  rcases runFrom_cons.mp hrest with ⟨out, s2, _, hstep, _, _⟩
  exists out, s2
  constructor
  · exact hstep
  · exact runFrom_concat.mpr ⟨outs1, s1, out, hbefore, hstep, rfl⟩

/--
When a step from a state with {lit}`Q` establishes {lit}`Q` and {lit}`R` exactly under
the condition {lit}`P`, then all states of a run satisfy {lit}`Q` and all its steps
{lit}`R` exactly if all its steps meet {lit}`P`.
-/
theorem everyState_and_everyStep_iff {s0 : State} (Inv : State -> Prop) {Q : State -> Prop}
    {R : State -> Input -> State -> Prop} {P : State -> Input -> Prop}
    (hinv : Inv s0) (hstart : Q s0)
    (keep : forall s input out s', Inv s -> step s input = Except.ok (out, s') -> Inv s')
    (step_iff : forall s input out s', Inv s -> Q s -> step s input = Except.ok (out, s') ->
      ((Q s' ∧ R s input s') <-> P s input))
    {inputs : List Input} {outs : List Output} {s : State}
    (hrun : runFrom step s0 inputs = Except.ok (outs, s)) :
    (EveryState step s0 inputs Q ∧ EveryStep step s0 inputs (fun s input =>
      forall out s', step s input = Except.ok (out, s') -> R s input s')) <->
      EveryStep step s0 inputs P := by
  constructor
  · rintro ⟨hstates, hkept⟩ before input after outs1 s1 hsplit hbefore
    rcases step_of_run hrun hsplit hbefore with ⟨out, s2, hstep, hnext⟩
    apply (step_iff s1 input out s2 (run_invariant hinv keep hbefore)
      (hstates before (input :: after) outs1 s1 hsplit hbefore) hstep).mp
    constructor
    · exact hstates (before ++ [input]) after _ s2 (by simpa using hsplit) hnext
    · exact hkept before input after outs1 s1 hsplit hbefore out s2 hstep
  · intro hsteps
    have hall : EveryState step s0 inputs (fun s => Inv s ∧ Q s) :=
      hsteps.everyState ⟨hinv, hstart⟩ (fun s input out s' hboth hP hstep =>
        ⟨keep s input out s' hboth.left hstep,
          ((step_iff s input out s' hboth.left hboth.right hstep).mpr hP).left⟩)
    constructor
    · intro before after outs1 s1 hsplit hbefore
      exact (hall before after outs1 s1 hsplit hbefore).right
    · intro before input after outs1 s1 hsplit hbefore out s2 hstep
      have hboth := hall before (input :: after) outs1 s1 hsplit hbefore
      have hP := hsteps before input after outs1 s1 hsplit hbefore
      exact ((step_iff s1 input out s2 hboth.left hboth.right hstep).mpr hP).right

/--
When a step can establish {lit}`Q` only under the condition {lit}`P`, and under it
keeps the stronger property {lit}`Strong`, then all states of a run satisfy
{lit}`Q` exactly if all its steps meet {lit}`P`.  The invariant {lit}`Inv` is what
holds of the states in any case.
-/
theorem everyState_iff_everyStep {s0 : State} (Inv Strong : State -> Prop) {Q : State -> Prop}
    {P : State -> Input -> Prop} (hinv : Inv s0) (hstrong : Strong s0)
    (keep : forall s input out s', Inv s -> step s input = Except.ok (out, s') -> Inv s')
    (weaken : forall s, Inv s -> Strong s -> Q s)
    (necessary : forall s input out s', Inv s -> step s input = Except.ok (out, s') ->
      Q s' -> P s input)
    (sufficient : forall s input out s', Inv s -> step s input = Except.ok (out, s') ->
      Strong s -> P s input -> Strong s')
    {inputs : List Input} {outs : List Output} {s : State}
    (hrun : runFrom step s0 inputs = Except.ok (outs, s)) :
    EveryState step s0 inputs Q <-> EveryStep step s0 inputs P := by
  constructor
  · intro hstates before input after outs1 s1 hsplit hbefore
    rcases step_of_run hrun hsplit hbefore with ⟨out, s2, hstep, hnext⟩
    have hs1 : Inv s1 := run_invariant hinv keep hbefore
    have hQ2 : Q s2 :=
      hstates (before ++ [input]) after _ s2 (by simpa using hsplit) hnext
    exact necessary s1 input out s2 hs1 hstep hQ2
  · intro hsteps
    have hall : EveryState step s0 inputs (fun s => Inv s ∧ Strong s) :=
      hsteps.everyState ⟨hinv, hstrong⟩ (fun s input out s' hboth hP hstep =>
        ⟨keep s input out s' hboth.left hstep,
          sufficient s input out s' hboth.left hstep hboth.right hP⟩)
    intro before after outs1 s1 hsplit hbefore
    have hboth := hall before after outs1 s1 hsplit hbefore
    exact weaken s1 hboth.left hboth.right

/-!
## What cannot be put off
-/

/--
However the steps with internal inputs are chosen, they come to a state with {lit}`Goal`:
as long as there is none, there is such a step, and after each of them it is the same.
-/
inductive Inevitable (step : State -> Input -> Except Fault (Output × State))
    (Internal : Input -> Prop) (Goal : State -> Prop) : State -> Prop where
  | now {s : State} (hgoal : Goal s) : Inevitable step Internal Goal s
  | next {s : State}
      (hlive : exists input out s', Internal input ∧ step s input = Except.ok (out, s'))
      (hall : forall input out s', Internal input -> step s input = Except.ok (out, s') ->
        Inevitable step Internal Goal s') : Inevitable step Internal Goal s

/-- With a bound that every internal step makes smaller. -/
theorem inevitable_of_bound {Internal : Input -> Prop} {Goal : State -> Prop}
    (Inv : Nat -> State -> Prop)
    (live : forall n s, Inv n s -> ¬ Goal s ->
      exists input out s', Internal input ∧ step s input = Except.ok (out, s'))
    (less : forall n s input out s', Inv n s -> Internal input ->
      step s input = Except.ok (out, s') -> exists n', n' < n ∧ Inv n' s')
    {n : Nat} {s : State} (hinv : Inv n s) : Inevitable step Internal Goal s := by
  induction n using Nat.strongRecOn generalizing s with
  | ind n ih =>
      by_cases hgoal : Goal s
      · exact Inevitable.now hgoal
      · apply Inevitable.next (live n s hinv hgoal)
        intro input out s' hinternal hstep
        rcases less n s input out s' hinv hinternal hstep with ⟨n', hless, hinv'⟩
        exact ih n' hless hinv'

/-!
## Auxiliary variables
-/

/--
When related inputs take related states to related outputs and states, they do so
along two whole runs.
-/
theorem runs_related {R : State -> State -> Prop} {I : Input -> Input -> Prop}
    {O : Output -> Output -> Prop}
    (keep : forall s t i j out out' s' t', R s t -> I i j ->
      step s i = Except.ok (out, s') -> step t j = Except.ok (out', t') ->
      O out out' ∧ R s' t')
    {inputs inputs' : List Input} (hinputs : List.Forall₂ I inputs inputs')
    {s t s' t' : State} {outs outs' : List Output} (hrelated : R s t)
    (hrun : runFrom step s inputs = Except.ok (outs, s'))
    (hrun' : runFrom step t inputs' = Except.ok (outs', t')) :
    List.Forall₂ O outs outs' ∧ R s' t' := by
  induction hinputs generalizing s t outs outs' with
  | nil =>
      cases hrun
      cases hrun'
      exact ⟨List.Forall₂.nil, hrelated⟩
  | cons hinput _ ih =>
      rcases runFrom_cons.mp hrun with ⟨out, s1, outs1, hstep, hrest, rfl⟩
      rcases runFrom_cons.mp hrun' with ⟨out', t1, outs1', hstep', hrest', rfl⟩
      rcases keep s t _ _ out out' s1 t1 hrelated hinput hstep hstep' with ⟨hout, hnext⟩
      rcases ih hnext hrest hrest' with ⟨houts, hlast⟩
      exact ⟨List.Forall₂.cons hout houts, hlast⟩

/-- Two computations fault alike, or give the same output and related states. -/
inductive Alike {alpha : Type} (R : State -> State -> Prop) :
    Except Fault (alpha × State) -> Except Fault (alpha × State) -> Prop where
  | fault (e : Fault) : Alike R (Except.error e) (Except.error e)
  | ok (a : alpha) {s t : State} (h : R s t) : Alike R (Except.ok (a, s)) (Except.ok (a, t))

theorem Alike.bind {alpha beta : Type} {R : State -> State -> Prop}
    {x y : Except Fault (alpha × State)} (hxy : Alike R x y)
    {f g : alpha × State -> Except Fault (beta × State)}
    (hfg : forall a s t, R s t -> Alike R (f (a, s)) (g (a, t))) :
    Alike R (x >>= f) (y >>= g) := by
  cases hxy with
  | fault e => exact Alike.fault e
  | ok a h => exact hfg a _ _ h

/-- A computation on no state is the same on both sides. -/
theorem alike_bind {alpha beta : Type} {R : State -> State -> Prop} {x y : Except Fault alpha}
    (hxy : y = x) {f g : alpha -> Except Fault (beta × State)}
    (hfg : forall a, Alike R (f a) (g a)) : Alike R (x >>= f) (y >>= g) := by
  rw [hxy]
  cases x with
  | error e => exact Alike.fault e
  | ok a => exact hfg a

/-- What a run puts out, or the fault that ends it. -/
def outputs (step : State -> Input -> Except Fault (Output × State)) (s : State)
    (inputs : List Input) : Except Fault (List Output) :=
  (runFrom step s inputs).map Prod.fst

theorem outputs_cons {s s1 : State} {input : Input} {out : Output}
    (hstep : step s input = Except.ok (out, s1)) (rest : List Input) :
    outputs step s (input :: rest) = (outputs step s1 rest).map (List.cons out) := by
  unfold outputs
  rw [runFrom, hstep, ok_bind]
  dsimp only
  cases runFrom step s1 rest with
  | error e => rfl
  | ok result => rfl

theorem outputs_cons_of_fault {s : State} {input : Input} {e : Fault}
    (hstep : step s input = Except.error e) (rest : List Input) :
    outputs step s (input :: rest) = Except.error e := by
  unfold outputs
  rw [runFrom, hstep]
  rfl

/-- Outputs that agree and begin alike agree in what follows. -/
theorem outputs_rest {s t s1 t1 : State} {input : Input} {out : Output} {rest : List Input}
    (hs : step s input = Except.ok (out, s1)) (ht : step t input = Except.ok (out, t1))
    (heq : outputs step s (input :: rest) = outputs step t (input :: rest)) :
    outputs step s1 rest = outputs step t1 rest := by
  rw [outputs_cons hs, outputs_cons ht] at heq
  generalize outputs step s1 rest = x at heq
  generalize outputs step t1 rest = y at heq
  cases x with
  | error e =>
      cases y with
      | error e' => exact heq
      | ok ys => cases heq
  | ok xs =>
      cases y with
      | error e' => cases heq
      | ok ys =>
          cases heq
          rfl

/-- If every input is answered alike in related states, so is every list of inputs. -/
theorem outputs_eq_of_alike {R : State -> State -> Prop}
    (keep : forall s t input, R s t -> Alike R (step s input) (step t input))
    {s t : State} (h : R s t) (inputs : List Input) :
    outputs step s inputs = outputs step t inputs := by
  induction inputs generalizing s t with
  | nil => rfl
  | cons input rest ih =>
      have halike := keep s t input h
      generalize hs : step s input = x at halike
      generalize ht : step t input = y at halike
      cases halike with
      | fault e => rw [outputs_cons_of_fault hs, outputs_cons_of_fault ht]
      | ok out h => rw [outputs_cons hs, outputs_cons ht, ih h]

end Foundation
end SpongeBob
