import Mathlib.Data.List.Sort
import Mathlib.Data.List.Nodup

/-!
# Min-heaps

A priority queue ordered by {lit}`std::greater` gives back its smallest element
first, and two queues holding the same elements behave alike whatever their
internal layout.  The heap is therefore represented by its sorted list of
elements, so that equality of heaps is equality of their contents.
-/

namespace SpongeBob
namespace Foundation

/-- A priority queue whose top is its smallest element. -/
structure MinHeap (alpha : Type) [LE alpha] where
  elems : List alpha
  sorted : elems.Pairwise (fun a b => a ≤ b)

namespace MinHeap

variable {alpha : Type} [LE alpha]

instance : Membership alpha (MinHeap alpha) where
  mem h x := x ∈ h.elems

theorem mem_def {h : MinHeap alpha} {x : alpha} : x ∈ h <-> x ∈ h.elems :=
  Iff.rfl

/-!
## The top of a heap
-/

def top? (h : MinHeap alpha) : Option alpha :=
  h.elems.head?

def pop (h : MinHeap alpha) : MinHeap alpha where
  elems := h.elems.tail
  sorted := h.sorted.tail

/-- A nonempty heap is its top followed by the popped heap. -/
theorem elems_of_top? {h : MinHeap alpha} {x : alpha} (htop : h.top? = some x) :
    h.elems = x :: h.pop.elems := by
  cases h with
  | mk elems sorted =>
      cases elems with
      | nil => cases htop
      | cons y rest =>
          cases htop
          rfl

theorem top?_eq_none {h : MinHeap alpha} : h.top? = none <-> h.elems = [] :=
  List.head?_eq_none_iff

theorem top?_mem {h : MinHeap alpha} {x : alpha} (htop : h.top? = some x) :
    x ∈ h := by
  rw [mem_def, elems_of_top? htop]
  exact List.mem_cons_self

theorem mem_of_mem_pop {h : MinHeap alpha} {x : alpha} (hx : x ∈ h.pop) : x ∈ h :=
  List.mem_of_mem_tail hx

theorem nodup_pop {h : MinHeap alpha} (hnodup : h.elems.Nodup) :
    h.pop.elems.Nodup :=
  hnodup.sublist (List.tail_sublist h.elems)

/-- Popping a duplicate-free heap removes its top and nothing else. -/
theorem mem_pop_iff {h : MinHeap alpha} {x y : alpha}
    (htop : h.top? = some x) (hnodup : h.elems.Nodup) :
    y ∈ h.pop <-> y ∈ h ∧ y ≠ x := by
  have helems := elems_of_top? htop
  rw [helems] at hnodup
  have hx := (List.nodup_cons.mp hnodup).left
  constructor
  · intro hy
    refine ⟨mem_of_mem_pop hy, ?_⟩
    rintro rfl
    exact hx hy
  · rintro ⟨hy, hne⟩
    rw [mem_def, helems] at hy
    cases List.mem_cons.mp hy with
    | inl heq => exact absurd heq hne
    | inr hrest => exact hrest

/-!
## Heaps over a linear order
-/

variable [Std.IsLinearOrder alpha]

/-- The top of a heap is a lower bound of its elements. -/
theorem top?_le {h : MinHeap alpha} {x y : alpha} (htop : h.top? = some x) (hy : y ∈ h) :
    x ≤ y := by
  have hsorted := h.sorted
  rw [elems_of_top? htop] at hsorted
  rw [mem_def, elems_of_top? htop] at hy
  cases List.mem_cons.mp hy with
  | inl heq =>
      rw [heq]
      exact Std.le_refl x
  | inr hrest => exact (List.pairwise_cons.mp hsorted).left y hrest

/-- Heaps with the same elements, counted with repetitions, are equal. -/
theorem eq_of_perm {h h' : MinHeap alpha} (hperm : h.elems.Perm h'.elems) : h = h' := by
  have helems := hperm.eq_of_pairwise
    (fun a b _ _ hab hba => Std.le_antisymm hab hba) h.sorted h'.sorted
  cases h with
  | mk elems sorted =>
      cases h' with
      | mk elems' sorted' =>
          cases helems
          rfl

/-- Duplicate-free heaps with the same elements are equal. -/
theorem eq_of_same_elems {h h' : MinHeap alpha} (hnodup : h.elems.Nodup)
    (hnodup' : h'.elems.Nodup) (hsame : forall x, x ∈ h <-> x ∈ h') : h = h' :=
  eq_of_perm ((List.perm_ext_iff_of_nodup hnodup hnodup').mpr hsame)

/-!
## Building and filling heaps
-/

variable [DecidableLE alpha]

def ofList (xs : List alpha) : MinHeap alpha where
  elems := xs.insertionSort (fun a b => a ≤ b)
  sorted := List.pairwise_insertionSort _ xs

def push (h : MinHeap alpha) (x : alpha) : MinHeap alpha where
  elems := h.elems.orderedInsert (fun a b => a ≤ b) x
  sorted := h.sorted.orderedInsert x _

theorem ofList_perm (xs : List alpha) : (ofList xs).elems.Perm xs :=
  List.perm_insertionSort _ xs

@[simp] theorem mem_ofList {xs : List alpha} {x : alpha} :
    x ∈ ofList xs <-> x ∈ xs :=
  (ofList_perm xs).mem_iff

theorem push_perm (h : MinHeap alpha) (x : alpha) :
    (h.push x).elems.Perm (x :: h.elems) :=
  List.perm_orderedInsert _ x h.elems

@[simp] theorem mem_push {h : MinHeap alpha} {x y : alpha} :
    y ∈ h.push x <-> y = x ∨ y ∈ h := by
  rw [mem_def, (push_perm h x).mem_iff, List.mem_cons, mem_def]

theorem nodup_push {h : MinHeap alpha} {x : alpha}
    (hnodup : h.elems.Nodup) (hx : x ∉ h) : (h.push x).elems.Nodup :=
  (push_perm h x).nodup_iff.mpr (List.nodup_cons.mpr ⟨hx, hnodup⟩)

/-- The top of a heap, put back after it was popped, is the top again. -/
theorem push_pop {h : MinHeap alpha} {x : alpha} (htop : h.top? = some x) :
    h.pop.push x = h := by
  apply eq_of_perm
  rw [elems_of_top? htop]
  exact push_perm h.pop x

theorem push_comm (h : MinHeap alpha) (x y : alpha) :
    (h.push x).push y = (h.push y).push x := by
  apply eq_of_perm
  calc ((h.push x).push y).elems
    List.Perm _ (y :: (h.push x).elems) := push_perm _ y
    List.Perm _ (y :: x :: h.elems) := (push_perm h x).cons y
    List.Perm _ (x :: y :: h.elems) := List.Perm.swap x y h.elems
    List.Perm _ (x :: (h.push y).elems) := ((push_perm h y).cons x).symm
    List.Perm _ ((h.push y).push x).elems := (push_perm _ x).symm

@[simp] theorem length_push (h : MinHeap alpha) (x : alpha) :
    (h.push x).elems.length = h.elems.length + 1 :=
  List.orderedInsert_length _ h.elems x

end MinHeap
end Foundation
end SpongeBob
