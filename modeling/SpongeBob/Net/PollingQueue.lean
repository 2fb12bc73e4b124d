import SpongeBob.Foundation.Run

/-!
# The polling queue

Tasks are handed to a worker through a vector and a counter beside it.  The worker
looks at the counter only, and the counter has 8 bits.
-/

namespace SpongeBob
namespace Net
namespace PollingQueue

open Foundation

variable {alpha : Type}

structure Queue (alpha : Type) where
  queue : List alpha
  offset : UInt8
deriving DecidableEq, Repr

/-- Why a {lit}`PopPolling` does not return an item. -/
inductive Fault where
  | waits
  | emptyVector
deriving DecidableEq, Repr

namespace Queue

def empty : Queue alpha where
  queue := []
  offset := 0

def pushPolling (q : Queue alpha) (item : alpha) : Queue alpha where
  queue := q.queue ++ [item]
  offset := q.offset + 1

/-- {lit}`PopPolling` goes on when the counter is not zero. -/
def Enabled (q : Queue alpha) : Prop :=
  q.offset ≠ 0

instance (q : Queue alpha) : Decidable q.Enabled :=
  inferInstanceAs (Decidable (q.offset ≠ 0))

def popPolling (q : Queue alpha) : Except Fault (alpha × Queue alpha) :=
  if q.Enabled then
    match q.queue with
    | [] => Except.error Fault.emptyVector
    | item :: rest => Except.ok (item, { queue := rest, offset := q.offset - 1 })
  else
    Except.error Fault.waits

end Queue

inductive Op (alpha : Type) where
  | push (item : alpha)
  | pop
deriving DecidableEq, Repr

/-- A step of the queue, with the item that it returns. -/
def step (q : Queue alpha) : Op alpha -> Except Fault (Option alpha × Queue alpha)
  | Op.push item => Except.ok (none, q.pushPolling item)
  | Op.pop => do
      let (item, q) ← q.popPolling
      pure (some item, q)

def Op.pushed? : Op alpha -> Option alpha
  | push item => some item
  | pop => none

/-- The items that were pushed, in order. -/
def pushed (ops : List (Op alpha)) : List alpha :=
  ops.filterMap Op.pushed?

/-- The items that were popped, in order. -/
def popped (outs : List (Option alpha)) : List alpha :=
  outs.filterMap id

/-- The counter and the vector agree. -/
structure Counted (q : Queue alpha) : Prop where
  offset : q.offset.toNat = q.queue.length
  enabled : q.Enabled <-> q.queue ≠ []

/--
In every state of a run the counter is the number of items and tells whether there is
one, and the items popped, followed by those that are held, are the items pushed.
-/
structure FirstInFirstOut (ops : List (Op alpha)) : Prop where
  counted : EveryState step Queue.empty ops Counted
  order : forall before after outs q, ops = before ++ after ->
    runFrom step Queue.empty before = Except.ok (outs, q) ->
    popped outs ++ q.queue = pushed before

/-- The queue has room for another item. -/
def HasRoom (q : Queue alpha) (op : Op alpha) : Prop :=
  match op with
  | Op.push _ => q.queue.length < 255
  | Op.pop => True

instance (q : Queue alpha) (op : Op alpha) : Decidable (HasRoom q op) :=
  match op with
  | Op.push _ => inferInstanceAs (Decidable (q.queue.length < 255))
  | Op.pop => inferInstanceAs (Decidable True)

/-!
# One step
-/

variable {q q' : Queue alpha} {op : Op alpha} {out : Option alpha}

/-- What a step can do: append an item, or take the first one. -/
theorem step_cases (hstep : step q op = Except.ok (out, q')) :
    (exists item, op = Op.push item ∧ out = none ∧ q' = q.pushPolling item) ∨
    (exists item rest, op = Op.pop ∧ out = some item ∧ q.Enabled ∧
      q.queue = item :: rest ∧ q' = { queue := rest, offset := q.offset - 1 }) := by
  cases op with
  | push item =>
      cases hstep
      exact Or.inl ⟨item, rfl, rfl, rfl⟩
  | pop =>
      rcases bind_eq_ok.mp hstep with ⟨⟨item, q1⟩, hpop, hpure⟩
      cases hpure
      unfold Queue.popPolling at hpop
      split at hpop
      · rename_i henabled
        cases hqueue : q.queue with
        | nil =>
            rw [hqueue] at hpop
            cases hpop
        | cons first rest =>
            rw [hqueue] at hpop
            cases hpop
            exact Or.inr ⟨item, rest, rfl, rfl, henabled, rfl, rfl⟩
      · cases hpop

/-- What holds in any case: the counter is the number of items up to a multiple of 256. -/
def CountedMod (q : Queue alpha) : Prop :=
  q.offset.toNat = q.queue.length % 256

theorem Queue.enabled_iff : q.Enabled <-> q.offset.toNat ≠ 0 := by
  unfold Queue.Enabled
  rw [ne_eq, ← UInt8.toNat_inj]
  rfl

theorem CountedMod.step (h : CountedMod q) (hstep : step q op = Except.ok (out, q')) :
    CountedMod q' := by
  unfold CountedMod at h
  rcases step_cases hstep with ⟨item, _, _, rfl⟩ | ⟨item, rest, _, _, henabled, hqueue, rfl⟩
  · show (q.offset + 1).toNat = (q.queue ++ [item]).length % 256
    rw [UInt8.toNat_add, h, List.length_append, UInt8.toNat_one, List.length_singleton]
    omega
  · show (q.offset - 1).toNat = rest.length % 256
    have hpos := Queue.enabled_iff.mp henabled
    have hone : (1 : UInt8) ≤ q.offset := by
      rw [UInt8.le_iff_toNat_le, UInt8.toNat_one]
      omega
    rw [hqueue, List.length_cons] at h
    rw [UInt8.toNat_sub_of_le _ _ hone, UInt8.toNat_one]
    omega

/-- While fewer than 256 items are held the counter is right. -/
theorem CountedMod.counted (h : CountedMod q) (hlt : q.queue.length < 256) : Counted q where
  offset := by
    rw [h, Nat.mod_eq_of_lt hlt]
  enabled := by
    rw [Queue.enabled_iff, h, Nat.mod_eq_of_lt hlt, ne_eq, List.length_eq_zero_iff]

/-- A step keeps the order of the items. -/
theorem step_order (hstep : step q op = Except.ok (out, q')) :
    out.toList ++ q'.queue = q.queue ++ op.pushed?.toList := by
  rcases step_cases hstep with ⟨item, rfl, rfl, rfl⟩ | ⟨item, rest, rfl, rfl, _, hqueue, rfl⟩
  · rfl
  · rw [hqueue]
    exact (List.append_nil _).symm

/-!
# Every run
-/

/-- No item is lost, returned twice or out of turn, whatever the counter says. -/
theorem run_order {ops : List (Op alpha)} {outs : List (Option alpha)}
    (hrun : runFrom step Queue.empty ops = Except.ok (outs, q)) :
    popped outs ++ q.queue = pushed ops := by
  refine run_induction (motive := fun ops outs q => popped outs ++ q.queue = pushed ops)
    rfl ?_ hrun
  intro before outs q op out q' _ ih hstep
  have hpopped : popped (outs ++ [out]) = popped outs ++ out.toList := by
    unfold popped
    rw [List.filterMap_append]
    cases out <;> rfl
  have hpushed : pushed (before ++ [op]) = pushed before ++ op.pushed?.toList := by
    unfold pushed
    rw [List.filterMap_append]
    cases op <;> rfl
  calc popped (outs ++ [out]) ++ q'.queue
    _ = popped outs ++ (out.toList ++ q'.queue) := by rw [hpopped, List.append_assoc]
    _ = popped outs ++ q.queue ++ op.pushed?.toList := by
        rw [step_order hstep, List.append_assoc]
    _ = pushed (before ++ [op]) := by rw [ih, hpushed]

/--
A run of pushes and of pops that are enabled is one of a queue, in each of its states,
exactly if every push is made while fewer than 255 items are held.
-/
theorem firstInFirstOut_iff_hasRoom {ops : List (Op alpha)} {outs : List (Option alpha)}
    (hrun : runFrom step Queue.empty ops = Except.ok (outs, q)) :
    FirstInFirstOut ops <-> EveryStep step Queue.empty ops HasRoom := by
  have hiff : EveryState step Queue.empty ops Counted <->
      EveryStep step Queue.empty ops HasRoom := by
    apply everyState_iff_everyStep CountedMod (fun q => q.queue.length < 256) _ _ _ _ _ _ hrun
    · show (0 : Nat) = 0 % 256
      rfl
    · show 0 < 256
      decide
    · intro q op out q' h hstep
      exact h.step hstep
    · intro q h hlt
      exact h.counted hlt
    · intro q op out q' h hstep hcounted
      rcases step_cases hstep with ⟨item, rfl, _, rfl⟩ | ⟨_, _, rfl, _⟩
      · have hoffset := hcounted.offset
        have hlt := (q.pushPolling item).offset.toNat_lt
        have hlength : (q.pushPolling item).queue.length = q.queue.length + 1 := by
          show (q.queue ++ [item]).length = _
          rw [List.length_append, List.length_singleton]
        show q.queue.length < 255
        omega
      · exact True.intro
    · intro q op out q' h hstep hlt hroom
      rcases step_cases hstep with ⟨item, rfl, _, rfl⟩ | ⟨_, rest, rfl, _, _, hqueue, rfl⟩
      · have hroom' : q.queue.length < 255 := hroom
        show (q.queue ++ [item]).length < 256
        rw [List.length_append, List.length_singleton]
        omega
      · rw [hqueue, List.length_cons] at hlt
        show rest.length < 256
        omega
  constructor
  · intro h
    exact hiff.mp h.counted
  · intro hsteps
    constructor
    · exact hiff.mpr hsteps
    · intro before after outs q _ hbefore
      exact run_order hbefore

theorem firstInFirstOut_three :
    FirstInFirstOut [Op.push 1, Op.push 2, Op.pop, Op.push 3, Op.pop, Op.pop] := by
  have hpass : passes
      (runFrom step Queue.empty [Op.push 1, Op.push 2, Op.pop, Op.push 3, Op.pop, Op.pop])
      (fun _ => true) = true := by
    decide
  rcases exists_of_passes hpass with ⟨⟨outs, q⟩, hrun, _⟩
  exact (firstInFirstOut_iff_hasRoom hrun).mpr (everyStep_of_stepsMeet (by decide))

/-- After 256 pushes the counter is zero again: the worker waits before a full vector. -/
theorem not_firstInFirstOut_256 :
    passes (runFrom step Queue.empty (List.replicate 256 (Op.push 7)))
        (fun result => decide (result.2.queue.length = 256 ∧ ¬ result.2.Enabled)) = true ∧
      ¬ FirstInFirstOut (List.replicate 256 (Op.push 7)) := by
  have hpass : passes (runFrom step Queue.empty (List.replicate 256 (Op.push 7)))
      (fun result => decide (result.2.queue.length = 256 ∧ ¬ result.2.Enabled)) = true := by
    decide +kernel
  constructor
  · exact hpass
  · intro h
    rcases exists_of_passes hpass with ⟨⟨outs, q⟩, hrun, htest⟩
    rcases of_decide_eq_true htest with ⟨hlength, hwaits⟩
    have henabled := (h.counted.last hrun).enabled
    apply hwaits
    rw [henabled]
    intro hnil
    rw [hnil] at hlength
    cases hlength

end PollingQueue
end Net
end SpongeBob
