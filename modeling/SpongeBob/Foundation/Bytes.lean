import Mathlib.Algebra.Group.Nat.Defs

/-!
# Copies of bytes

A memory gives a byte for each 64-bit address, and addresses wrap around.  A copy takes
a number of consecutive bytes of one memory to consecutive addresses of another.
-/

namespace SpongeBob
namespace Foundation
namespace Bytes

abbrev Memory := UInt64 -> UInt8

/-- The address is one of the {lit}`n` from {lit}`start` on. -/
def InRange (start : UInt64) (n : Nat) (x : UInt64) : Prop :=
  (x - start).toNat < n

instance (start : UInt64) (n : Nat) (x : UInt64) : Decidable (InRange start n x) :=
  inferInstanceAs (Decidable ((x - start).toNat < n))

/-- The target after {lit}`n` bytes of the source from {lit}`src` on have come to {lit}`dst`. -/
def copy (source : Memory) (src dst : UInt64) (n : Nat) (target : Memory) : Memory :=
  fun x => if InRange dst n x then source (src + (x - dst)) else target x

/-- The two memories have the same bytes outside of a range. -/
def AgreeOff (start : UInt64) (n : Nat) (target target' : Memory) : Prop :=
  forall x, ¬ InRange start n x -> target x = target' x

section Copies

variable {source source' target target' target'' : Memory} {src mid dst start x : UInt64}
  {n k : Nat}

theorem inRange_add {offset : UInt64} (hoffset : offset.toNat < n) :
    InRange start n (start + offset) := by
  have heq : start + offset - start = offset := by
    grind
  unfold InRange
  rw [heq]
  exact hoffset

theorem InRange.mono (h : InRange start n x) (hle : n ≤ k) : InRange start k x :=
  Nat.lt_of_lt_of_le h hle

/-- A range that starts behind another one, and ends before it comes round to it. -/
theorem not_inRange_of_behind (hbehind : k ≤ (mid - start).toNat)
    (hround : (mid - start).toNat + n ≤ 2 ^ 64) (h : InRange mid n x) :
    ¬ InRange start k x := by
  have heq : x - start = (x - mid) + (mid - start) := by
    grind
  unfold InRange at h ⊢
  rw [heq]
  generalize x - mid = offset at h ⊢
  generalize mid - start = distance at hbehind hround ⊢
  rw [UInt64.toNat_add]
  omega

theorem copy_of_inRange (h : InRange dst n x) :
    copy source src dst n target x = source (src + (x - dst)) :=
  if_pos h

theorem copy_of_not_inRange (h : ¬ InRange dst n x) :
    copy source src dst n target x = target x :=
  if_neg h

@[simp] theorem copy_zero : copy source src dst 0 target = target := by
  funext x
  exact copy_of_not_inRange (Nat.not_lt_zero _)

/-- The byte at an offset of the target is the one at the same offset of the source. -/
theorem copy_add {offset : UInt64} (hoffset : offset.toNat < n) :
    copy source src dst n target (dst + offset) = source (src + offset) := by
  have heq : dst + offset - dst = offset := by
    grind
  rw [copy_of_inRange (inRange_add hoffset), heq]

/-- A copy is determined by the bytes that it takes. -/
theorem copy_congr (h : forall x, InRange src n x -> source x = source' x) :
    copy source src dst n target = copy source' src dst n target := by
  funext x
  by_cases hx : InRange dst n x
  · rw [copy_of_inRange hx, copy_of_inRange hx]
    exact h _ (inRange_add hx)
  · rw [copy_of_not_inRange hx, copy_of_not_inRange hx]

/-- A copy from where the bytes have just been copied to. -/
theorem copy_through :
    copy (copy source src mid n target) mid dst n target' = copy source src dst n target' := by
  funext x
  by_cases hx : InRange dst n x
  · rw [copy_of_inRange hx, copy_of_inRange hx]
    exact copy_add hx
  · rw [copy_of_not_inRange hx, copy_of_not_inRange hx]

theorem inRange_split {first : UInt64} (hfits : first.toNat + n ≤ 2 ^ 64) :
    InRange start (first.toNat + n) x <->
      InRange start first.toNat x ∨ InRange (start + first) n x := by
  have heq : x - (start + first) = x - start - first := by
    grind
  unfold InRange
  rw [heq]
  generalize x - start = offset
  have hoffset := offset.toNat_lt
  have hfirst := first.toNat_lt
  rw [UInt64.toNat_sub]
  omega

theorem not_inRange_next {first : UInt64} (hfits : first.toNat + n ≤ 2 ^ 64)
    (h : InRange start first.toNat x) : ¬ InRange (start + first) n x := by
  have heq : x - (start + first) = x - start - first := by
    grind
  unfold InRange at h ⊢
  rw [heq]
  generalize x - start = offset at h ⊢
  rw [UInt64.toNat_sub]
  omega

/-- Two copies of adjacent bytes are one. -/
theorem copy_copy {first : UInt64} (hfits : first.toNat + n ≤ 2 ^ 64) :
    copy source (src + first) (dst + first) n (copy source src dst first.toNat target) =
      copy source src dst (first.toNat + n) target := by
  funext x
  by_cases hfirst : InRange dst first.toNat x
  · rw [copy_of_not_inRange (not_inRange_next hfits hfirst), copy_of_inRange hfirst,
      copy_of_inRange (hfirst.mono (Nat.le_add_right _ n))]
  · by_cases hnext : InRange (dst + first) n x
    · have haddr : src + first + (x - (dst + first)) = src + (x - dst) := by
        grind
      rw [copy_of_inRange hnext, copy_of_inRange ((inRange_split hfits).mpr (Or.inr hnext)),
        haddr]
    · have hnone : ¬ InRange dst (first.toNat + n) x := by
        intro h
        exact ((inRange_split hfits).mp h).elim hfirst hnext
      rw [copy_of_not_inRange hnext, copy_of_not_inRange hfirst, copy_of_not_inRange hnone]

theorem AgreeOff.refl : AgreeOff start n target target :=
  fun _ _ => rfl

theorem AgreeOff.trans (h : AgreeOff start n target target')
    (h' : AgreeOff start n target' target'') : AgreeOff start n target target'' :=
  fun x hx => (h x hx).trans (h' x hx)

theorem copy_agreeOff (hle : n ≤ k) : AgreeOff dst k (copy source src dst n target) target := by
  intro x hx
  exact copy_of_not_inRange (fun h => hx (h.mono hle))

theorem AgreeOff.copy (h : AgreeOff start k target target') :
    AgreeOff start k (copy source src dst n target) (copy source src dst n target') := by
  intro x hx
  by_cases hdst : InRange dst n x
  · rw [copy_of_inRange hdst, copy_of_inRange hdst]
  · rw [copy_of_not_inRange hdst, copy_of_not_inRange hdst]
    exact h x hx

end Copies

end Bytes
end Foundation
end SpongeBob
