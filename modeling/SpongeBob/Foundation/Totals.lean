import Mathlib.Algebra.BigOperators.Group.Finset.Basic
import Mathlib.Data.Fintype.BigOperators

/-!
# Totals over finitely many agents

Each of finitely many agents is in a phase, and a phase has a weight.  When one agent goes
to another phase, the total of the weights changes by the difference.
-/

namespace SpongeBob
namespace Foundation

variable {Agent Phase : Type} [Fintype Agent]

def total (weight : Phase -> Nat) (phase : Agent -> Phase) : Nat :=
  Finset.univ.sum (fun i => weight (phase i))

variable {weight : Phase -> Nat} {phase : Agent -> Phase}

theorem total_eq_zero (hzero : forall i, weight (phase i) = 0) : total weight phase = 0 :=
  Finset.sum_eq_zero (fun i _ => hzero i)

variable [DecidableEq Agent]

theorem total_update (weight : Phase -> Nat) (phase : Agent -> Phase) (i : Agent) (p : Phase) :
    total weight (Function.update phase i p) + weight (phase i) =
      total weight phase + weight p := by
  have hmem : i ∈ (Finset.univ : Finset Agent) := Finset.mem_univ i
  have hrest : (Finset.univ.erase i).sum (fun j => weight (Function.update phase i p j)) =
      (Finset.univ.erase i).sum (fun j => weight (phase j)) := by
    apply Finset.sum_congr rfl
    intro j hj
    rw [Function.update_of_ne (Finset.ne_of_mem_erase hj)]
  unfold total
  rw [← Finset.add_sum_erase _ _ hmem, ← Finset.add_sum_erase _ (fun j => weight (phase j)) hmem,
    hrest, Function.update_self]
  omega

theorem total_update_lt {i : Agent} {p : Phase} (hless : weight p < weight (phase i)) :
    total weight (Function.update phase i p) < total weight phase := by
  have htotal := total_update weight phase i p
  omega

end Foundation
end SpongeBob
