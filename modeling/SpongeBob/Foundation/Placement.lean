import Mathlib.Data.Option.Basic

/-!
# Known values and their places

A store is known in part: some keys have a value that has been written last.  A
placement says where in a memory the value of a key lies.  The memory shows the store
when every known value lies at the place of its key.  What is written to the store must
be written to the memory as well, and without two keys in one place it is enough to
write the places of these keys.
-/

namespace SpongeBob
namespace Foundation
namespace Placement

variable {Key Loc Value : Type}

/-- The values that are known, by key. -/
abbrev Known (Key Value : Type) := Key -> Option Value

/-- The new values, over what was known. -/
def overwrite (written known : Known Key Value) : Known Key Value :=
  fun k => (written k).or (known k)

/-- Nothing is known any more of some keys. -/
def forget (gone : Key -> Prop) [DecidablePred gone] (known : Known Key Value) :
    Known Key Value :=
  fun k => if gone k then none else known k

/-- Every known value is in the memory, at the place of its key. -/
def Shows (place : Key -> Option Loc) (memory : Loc -> Value) (known : Known Key Value) :
    Prop :=
  forall k v, known k = some v -> exists a, place k = some a ∧ memory a = v

/-- No two keys have the same place. -/
def Separate (place : Key -> Option Loc) : Prop :=
  forall k k' a, place k = some a -> place k' = some a -> k = k'

variable {place place' : Key -> Option Loc} {memory memory' : Loc -> Value}
  {known written : Known Key Value}

theorem forget_eq_some {gone : Key -> Prop} [DecidablePred gone] {k : Key} {v : Value} :
    forget gone known k = some v <-> ¬ gone k ∧ known k = some v := by
  unfold forget
  by_cases hgone : gone k
  · rw [if_pos hgone]
    constructor
    · intro h
      cases h
    · intro h
      exact absurd hgone h.left
  · rw [if_neg hgone]
    exact (and_iff_right hgone).symm

theorem overwrite_eq_some {k : Key} {v : Value} :
    overwrite written known k = some v <->
      written k = some v ∨ (written k = none ∧ known k = some v) := by
  unfold overwrite
  cases written k with
  | none => simp
  | some w => simp

/-- What was known stays shown where the places stay. -/
theorem Shows.move (h : Shows place memory known)
    (hplace : forall k v a, known k = some v -> place k = some a -> place' k = some a) :
    Shows place' memory known := by
  intro k v hk
  rcases h k v hk with ⟨a, ha, hv⟩
  exact ⟨a, hplace k v a hk ha, hv⟩

theorem Shows.forget {gone : Key -> Prop} [DecidablePred gone] (h : Shows place memory known) :
    Shows place memory (forget gone known) := by
  intro k v hk
  exact h k v (forget_eq_some.mp hk).right

/--
A write puts the new values at the places of their keys, and changes the memory
nowhere else.
-/
structure Writes (place : Key -> Option Loc) (memory memory' : Loc -> Value)
    (written : Known Key Value) : Prop where
  put : forall k v, written k = some v -> exists a, place k = some a ∧ memory' a = v
  frame : forall a, memory' a ≠ memory a -> exists k v, written k = some v ∧ place k = some a

theorem Shows.write (hseparate : Separate place) (h : Shows place memory known)
    (hwrite : Writes place memory memory' written) :
    Shows place memory' (overwrite written known) := by
  intro k v hk
  rcases overwrite_eq_some.mp hk with hnew | ⟨hnone, hold⟩
  · exact hwrite.put k v hnew
  · rcases h k v hold with ⟨a, ha, hv⟩
    exists a
    constructor
    · exact ha
    · by_contra hne
      -- a place that has changed is the place of a key that has been written
      have hchanged : memory' a ≠ memory a := by
        intro heq
        exact hne (heq.trans hv)
      rcases hwrite.frame a hchanged with ⟨k', v', hwritten, hplace⟩
      cases hseparate k k' a ha hplace
      rw [hnone] at hwritten
      cases hwritten

/-- One write after another is a write of all their values, the later ones first. -/
theorem Writes.trans {memory'' : Loc -> Value} {written' : Known Key Value}
    (hseparate : Separate place) (h : Writes place memory memory' written)
    (h' : Writes place memory' memory'' written') :
    Writes place memory memory'' (overwrite written' written) := by
  constructor
  · intro k v hk
    rcases overwrite_eq_some.mp hk with hnew | ⟨hnone, hold⟩
    · exact h'.put k v hnew
    · rcases h.put k v hold with ⟨a, ha, hv⟩
      exists a
      constructor
      · exact ha
      · by_contra hne
        have hchanged : memory'' a ≠ memory' a := by
          intro heq
          exact hne (heq.trans hv)
        rcases h'.frame a hchanged with ⟨k', v', hwritten, hplace⟩
        cases hseparate k k' a ha hplace
        rw [hnone] at hwritten
        cases hwritten
  · intro a hchanged
    by_cases hlater : memory'' a = memory' a
    · rw [hlater] at hchanged
      rcases h.frame a hchanged with ⟨k, v, hk, ha⟩
      cases hnew : written' k with
      | none => exact ⟨k, v, overwrite_eq_some.mpr (Or.inr ⟨hnew, hk⟩), ha⟩
      | some w => exact ⟨k, w, overwrite_eq_some.mpr (Or.inl hnew), ha⟩
    · rcases h'.frame a hlater with ⟨k, v, hk, ha⟩
      exact ⟨k, v, overwrite_eq_some.mpr (Or.inl hk), ha⟩

end Placement
end Foundation
end SpongeBob
