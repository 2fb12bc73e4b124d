import Mathlib.Data.Finset.Basic
import Mathlib.Data.List.Basic
import SpongeBob.Foundation.Run

/-!
# Handles

Somebody hands out handles and takes them back.  A variable holds a live handle, or
nothing, or whatever its memory held before it was assigned.  Only a live handle may be
used: everything else is a fault.  A handle that is given back may be refused.
-/

namespace SpongeBob
namespace Foundation

variable {Handle : Type}

inductive Ref (Handle : Type) where
  | null
  /-- Not null, and no handle. -/
  | stray
  | holds (h : Handle)
deriving DecidableEq, Repr

/-- A variable that has not been assigned. -/
def Ref.unassigned (zero : Bool) : Ref Handle :=
  if zero then Ref.null else Ref.stray

variable [DecidableEq Handle]

/-- The handle that a variable holds, for a use that needs a live one. -/
def Ref.use (live : Finset Handle) : Ref Handle -> Except Unit Handle
  | Ref.holds h => if h ∈ live then Except.ok h else Except.error ()
  | _ => Except.error ()

variable (lets : Handle -> Finset Handle -> Bool)

/-- Give a handle back; the answer is whether it is taken. -/
def giveBack (live : Finset Handle) (r : Ref Handle) : Except Unit (Bool × Finset Handle) := do
  let h ← r.use live
  pure (if lets h live then (true, live.erase h) else (false, live))

/-- Give back what a variable holds unless it is null. -/
def giveBackIf (live : Finset Handle) (r : Ref Handle) : Except Unit (Bool × Finset Handle) :=
  match r with
  | Ref.null => Except.ok (true, live)
  | r => giveBack lets live r

/-- Give back what is not null, one after another, and ignore the answers. -/
def giveBackAll : Finset Handle -> List (Ref Handle) -> Except Unit (Finset Handle)
  | live, [] => Except.ok live
  | live, r :: rest => do
      let answer ← giveBackIf lets live r
      giveBackAll answer.2 rest

variable {lets} {live live' : Finset Handle} {r : Ref Handle} {h : Handle}

/-!
## One handle
-/

theorem use_holds (hlive : h ∈ live) : (Ref.holds h).use live = Except.ok h :=
  if_pos hlive

@[simp] theorem giveBackIf_null :
    giveBackIf lets live (Ref.null : Ref Handle) = Except.ok (true, live) :=
  rfl

theorem giveBackIf_holds (hlive : h ∈ live) :
    giveBackIf lets live (Ref.holds h) =
      Except.ok (if lets h live then (true, live.erase h) else (false, live)) := by
  show giveBack lets live (Ref.holds h) = _
  unfold giveBack
  rw [use_holds hlive]
  rfl

/-!
## Many handles
-/

/-- Handles that are live, each held once, and taken back whatever else is live. -/
structure Returnable (lets : Handle -> Finset Handle -> Bool) (live : Finset Handle)
    (refs : List (Ref Handle)) : Prop where
  mem : forall h, Ref.holds h ∈ refs -> h ∈ live
  once : refs.Pairwise (fun r r' => forall h, r = Ref.holds h -> r' ≠ Ref.holds h)
  taken : forall h, Ref.holds h ∈ refs -> forall others, others ⊆ live -> lets h others = true

omit [DecidableEq Handle] in
theorem Returnable.tail {rest : List (Ref Handle)} (hr : Returnable lets live (r :: rest)) :
    Returnable lets live rest where
  mem := fun h hmem => hr.mem h (List.mem_cons_of_mem r hmem)
  once := (List.pairwise_cons.mp hr.once).right
  taken := fun h hmem => hr.taken h (List.mem_cons_of_mem r hmem)

theorem Returnable.next {rest : List (Ref Handle)}
    (hr : Returnable lets live (Ref.holds h :: rest)) :
    Returnable lets (live.erase h) rest where
  mem := by
    intro h' hmem
    apply Finset.mem_erase_of_ne_of_mem
    · intro heq
      subst heq
      exact (List.pairwise_cons.mp hr.once).left (Ref.holds h') hmem h' rfl rfl
    · exact hr.mem h' (List.mem_cons_of_mem _ hmem)
  once := (List.pairwise_cons.mp hr.once).right
  taken := by
    intro h' hmem others hsub
    exact hr.taken h' (List.mem_cons_of_mem _ hmem) others
      (hsub.trans (Finset.erase_subset h live))

/-- A variable that was never assigned ends the round. -/
theorem giveBackAll_stray {refs : List (Ref Handle)} (hstray : Ref.stray ∈ refs) :
    giveBackAll lets live refs = Except.error () := by
  induction refs generalizing live with
  | nil => cases hstray
  | cons r rest ih =>
      unfold giveBackAll
      cases hr : giveBackIf lets live r with
      | error e => rfl
      | ok answer =>
          cases List.mem_cons.mp hstray with
          | inl heq =>
              subst heq
              cases hr
          | inr hrest => exact ih hrest

/-- What nothing holds stays, and what a variable holds goes. -/
theorem giveBackAll_returnable {refs : List (Ref Handle)} (hr : Returnable lets live refs)
    (hstray : Ref.stray ∉ refs) :
    giveBackAll lets live refs = Except.ok (live.filter (fun h => Ref.holds h ∉ refs)) := by
  induction refs generalizing live with
  | nil => simp [giveBackAll]
  | cons r rest ih =>
      have hrest : Ref.stray ∉ rest := fun hmem => hstray (List.mem_cons_of_mem r hmem)
      unfold giveBackAll
      cases r with
      | null =>
          rw [giveBackIf_null, ok_bind, ih hr.tail hrest]
          simp
      | stray => exact absurd List.mem_cons_self hstray
      | holds h =>
          have htaken : lets h live = true :=
            hr.taken h List.mem_cons_self live (Finset.Subset.refl live)
          rw [giveBackIf_holds (hr.mem h List.mem_cons_self), if_pos htaken, ok_bind,
            ih hr.next hrest]
          congr 1
          ext h'
          simp only [Finset.mem_filter, Finset.mem_erase, List.mem_cons, Ref.holds.injEq, not_or]
          constructor
          · intro hmem
            exact ⟨hmem.left.right, hmem.left.left, hmem.right⟩
          · intro hmem
            exact ⟨⟨hmem.right.left, hmem.left⟩, hmem.right.right⟩

/-- A round ends well exactly when every variable was assigned. -/
theorem giveBackAll_ok_iff {refs : List (Ref Handle)} (hr : Returnable lets live refs) :
    giveBackAll lets live refs = Except.ok live' <->
      Ref.stray ∉ refs ∧ live' = live.filter (fun h => Ref.holds h ∉ refs) := by
  constructor
  · intro hok
    have hstray : Ref.stray ∉ refs := by
      intro hmem
      rw [giveBackAll_stray hmem] at hok
      cases hok
    rw [giveBackAll_returnable hr hstray] at hok
    exact ⟨hstray, (Except.ok.inj hok).symm⟩
  · intro hok
    rw [hok.right]
    exact giveBackAll_returnable hr hok.left

end Foundation
end SpongeBob
