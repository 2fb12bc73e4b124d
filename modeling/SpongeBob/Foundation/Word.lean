import Mathlib.Algebra.Order.Ring.Int
import Mathlib.Data.List.Nodup
import Mathlib.Data.List.Range

/-!
# Machine words

Conversions between 64-bit words and C {lit}`int`, and the vectors that
{lit}`std::iota` fills.
-/

namespace SpongeBob
namespace Foundation
namespace Word

/-!
## Conversion to int

Narrowing keeps the low 32 bits and reads them as a signed number; widening an
{lit}`int` to a word extends its sign.
-/

def toInt (x : UInt64) : Int :=
  Int.bmod x.toNat (2 ^ 32)

theorem toInt_of_lt {x : UInt64} (hx : x.toNat < 2 ^ 31) :
    toInt x = x.toNat := by
  unfold toInt
  rw [Int.bmod_def]
  split <;> omega

theorem toInt_cases (x : UInt64) :
    (x.toNat % 2 ^ 32 < 2 ^ 31 ∧ toInt x = x.toNat % 2 ^ 32) ∨
      (2 ^ 31 ≤ x.toNat % 2 ^ 32 ∧ toInt x = x.toNat % 2 ^ 32 - 2 ^ 32) := by
  unfold toInt
  rw [Int.bmod_def]
  split <;> omega

theorem toNat_ofInt (z : Int) : (UInt64.ofInt z).toNat = (z % 2 ^ 64).toNat := by
  have hlt : (z % 2 ^ 64).toNat < 2 ^ 64 := by omega
  rw [UInt64.ofInt, UInt64.toNat_ofNat_of_lt' hlt]

theorem ofInt_toInt_of_lt {x : UInt64} (hx : x.toNat < 2 ^ 31) :
    UInt64.ofInt (toInt x) = x := by
  apply UInt64.toNat_inj.mp
  rw [toInt_of_lt hx, toNat_ofInt]
  omega

theorem ofInt_toNat (x : UInt64) : UInt64.ofInt x.toNat = x := by
  apply UInt64.toNat_inj.mp
  have hlt := x.toNat_lt
  rw [toNat_ofInt]
  omega

theorem toInt_ofInt_toInt (x : UInt64) :
    toInt (UInt64.ofInt (toInt x)) = toInt x := by
  unfold toInt
  rw [toNat_ofInt, Int.bmod_def, Int.bmod_def]
  split <;> split <;> omega

theorem toNat_toInt_le (x : UInt64) : (toInt x).toNat ≤ x.toNat := by
  unfold toInt
  rw [Int.bmod_def]
  split <;> omega

/-!
## Consecutive words
-/

/-- The contents of a vector of length {lit}`n` filled from {lit}`start` on. -/
def iota (n : Nat) (start : Nat) : List UInt64 :=
  (List.range n).map (fun i => UInt64.ofNat (start + i))

@[simp] theorem length_iota (n start : Nat) : (iota n start).length = n := by
  simp [iota]

theorem mem_iota {n start : Nat} {x : UInt64} (hn : start + n ≤ 2 ^ 64) :
    x ∈ iota n start <-> start ≤ x.toNat ∧ x.toNat < start + n := by
  constructor
  · intro hx
    rcases List.mem_map.mp hx with ⟨i, hi, rfl⟩
    have hi' := List.mem_range.mp hi
    rw [UInt64.toNat_ofNat_of_lt' (show start + i < 2 ^ 64 by omega)]
    omega
  · rintro ⟨hlow, hhigh⟩
    refine List.mem_map.mpr ⟨x.toNat - start, List.mem_range.mpr (by omega), ?_⟩
    rw [Nat.add_sub_cancel' hlow, UInt64.ofNat_toNat]

theorem nodup_iota {n start : Nat} (hn : start + n ≤ 2 ^ 64) :
    (iota n start).Nodup := by
  refine List.Nodup.map_on ?_ List.nodup_range
  intro i hi j hj hij
  have hi' := List.mem_range.mp hi
  have hj' := List.mem_range.mp hj
  have hnat := congrArg UInt64.toNat hij
  rw [UInt64.toNat_ofNat_of_lt' (show start + i < 2 ^ 64 by omega),
    UInt64.toNat_ofNat_of_lt' (show start + j < 2 ^ 64 by omega)] at hnat
  omega

end Word
end Foundation
end SpongeBob
