import Mathlib.Algebra.Order.Ring.Int
import Mathlib.Data.List.Nodup

/-!
# Sizes and entries of finite maps

How many keys a map has after an insertion or an erasure, told by whether it had the
key before, a function applied to all values, the values of a map as a list, and the
sum of a measure of them.
-/

namespace SpongeBob
namespace Foundation
namespace TreeMap

open Std

variable {alpha beta : Type} [Ord alpha] [TransOrd alpha]
variable {m : ExtTreeMap alpha beta} {k : alpha} {v : beta}

theorem size_insert_of_not_mem (h : k ∉ m) : (m.insert k v).size = m.size + 1 := by
  rw [ExtTreeMap.size_insert, if_neg (mt ExtTreeMap.contains_iff_mem.mp h)]

theorem size_insert_of_mem (h : k ∈ m) : (m.insert k v).size = m.size := by
  rw [ExtTreeMap.size_insert, if_pos (ExtTreeMap.contains_iff_mem.mpr h)]

theorem size_erase_of_mem (h : k ∈ m) : (m.erase k).size + 1 = m.size := by
  have hpos : m.size ≠ 0 := by
    intro hzero
    rw [ExtTreeMap.eq_empty_iff_size_eq_zero.mpr hzero] at h
    exact ExtTreeMap.not_mem_empty h
  rw [ExtTreeMap.size_erase, if_pos (ExtTreeMap.contains_iff_mem.mpr h)]
  omega

/-!
## Changing the values
-/

variable [LawfulEqOrd alpha]

theorem map_insert {gamma : Type} (f : alpha -> beta -> gamma) :
    (m.insert k v).map f = (m.map f).insert k (f k v) := by
  apply ExtTreeMap.ext_getElem?
  intro i
  rw [ExtTreeMap.getElem?_map, ExtTreeMap.getElem?_insert, ExtTreeMap.getElem?_insert,
    ExtTreeMap.getElem?_map]
  split
  · rename_i heq
    rw [LawfulEqOrd.compare_eq_iff_eq.mp heq]
    rfl
  · rfl

theorem map_erase {gamma : Type} (f : alpha -> beta -> gamma) :
    (m.erase k).map f = (m.map f).erase k := by
  apply ExtTreeMap.ext_getElem?
  intro i
  rw [ExtTreeMap.getElem?_map, ExtTreeMap.getElem?_erase, ExtTreeMap.getElem?_erase,
    ExtTreeMap.getElem?_map]
  split <;> rfl

/-- An insertion under a new key is undone by an erasure. -/
theorem erase_insert_of_absent (h : m[k]? = none) : (m.insert k v).erase k = m := by
  apply ExtTreeMap.ext_getElem?
  intro i
  rw [ExtTreeMap.getElem?_erase, ExtTreeMap.getElem?_insert]
  split
  · rename_i heq
    rw [← LawfulEqOrd.compare_eq_iff_eq.mp heq, h]
  · rfl

/-!
## Values
-/

theorem mem_values : v ∈ m.toList.map Prod.snd <-> exists k : alpha, m[k]? = some v := by
  constructor
  · intro hv
    rcases List.mem_map.mp hv with ⟨⟨k, v'⟩, hmem, rfl⟩
    exact ⟨k, ExtTreeMap.mem_toList_iff_getElem?_eq_some.mp hmem⟩
  · rintro ⟨k, hk⟩
    exact List.mem_map.mpr ⟨(k, v), ExtTreeMap.mem_toList_iff_getElem?_eq_some.mpr hk, rfl⟩

/-- A function of the values that tells the keys apart has no repetitions. -/
theorem nodup_map_values {gamma : Type} {f : beta -> gamma} (g : gamma -> alpha)
    (hkey : forall (k : alpha) (v : beta), m[k]? = some v -> g (f v) = k) :
    ((m.toList.map Prod.snd).map f).Nodup := by
  have hkeys : ((m.toList.map Prod.snd).map f).map g = m.keys := by
    rw [← ExtTreeMap.map_fst_toList_eq_keys, List.map_map, List.map_map]
    apply List.map_congr_left
    rintro ⟨k, v⟩ hmem
    exact hkey k v (ExtTreeMap.mem_toList_iff_getElem?_eq_some.mp hmem)
  apply List.Nodup.of_map g
  rw [hkeys]
  exact ExtTreeMap.nodup_keys

/-!
## Replacing a value
-/

/-- A new value for a key that is present leaves the keys as they are. -/
theorem keys_insert_of_mem (h : k ∈ m) : (m.insert k v).keys = m.keys := by
  have hmap : (m.insert k v).map (fun _ _ => ()) = m.map (fun _ _ => ()) := by
    apply ExtTreeMap.ext_getElem?
    intro i
    rw [map_insert, ExtTreeMap.getElem?_insert, ExtTreeMap.getElem?_map]
    split
    · rename_i heq
      rw [← LawfulEqOrd.compare_eq_iff_eq.mp heq]
      rcases Option.isSome_iff_exists.mp (ExtTreeMap.mem_iff_isSome_getElem?.mp h) with ⟨v', hv'⟩
      rw [hv']
      rfl
    · rfl
  calc (m.insert k v).keys
      = ((m.insert k v).map (fun _ _ => ())).keys := ExtTreeMap.keys_map.symm
    _ = (m.map (fun _ _ => ())).keys := by rw [hmap]
    _ = m.keys := ExtTreeMap.keys_map

/-- The sum of a measure over all values. -/
def sumValues (f : beta -> Nat) (m : ExtTreeMap alpha beta) : Nat :=
  (m.toList.map (fun entry => f entry.2)).sum

theorem sumValues_eq (f : beta -> Nat) :
    sumValues f m = (m.keys.map (fun k => (m[k]?).elim 0 f)).sum := by
  unfold sumValues
  rw [← ExtTreeMap.map_fst_toList_eq_keys, List.map_map]
  congr 1
  apply List.map_congr_left
  rintro ⟨k, v⟩ hmem
  show f v = (m[k]?).elim 0 f
  rw [ExtTreeMap.mem_toList_iff_getElem?_eq_some.mp hmem]
  rfl

theorem sum_map_replace {gamma : Type} (g g' : gamma -> Nat) {k : gamma} {keys : List gamma}
    (hnodup : keys.Nodup) (hk : k ∈ keys) (hsame : forall i, i ≠ k -> g' i = g i) :
    (keys.map g').sum + g k = (keys.map g).sum + g' k := by
  rcases List.append_of_mem hk with ⟨front, back, rfl⟩
  have hmid := List.nodup_middle.mp hnodup
  have hnot := (List.nodup_cons.mp hmid).left
  have hfront : front.map g' = front.map g := by
    apply List.map_congr_left
    intro i hi
    apply hsame
    rintro rfl
    exact hnot (List.mem_append_left back hi)
  have hback : back.map g' = back.map g := by
    apply List.map_congr_left
    intro i hi
    apply hsame
    rintro rfl
    exact hnot (List.mem_append_right front hi)
  simp only [List.map_append, List.map_cons, List.sum_append, List.sum_cons, hfront, hback]
  omega

/-- A new value for a key changes the sum by the difference. -/
theorem sumValues_insert (f : beta -> Nat) (v' : beta) (h : m[k]? = some v) :
    sumValues f (m.insert k v') + f v = sumValues f m + f v' := by
  have hk : k ∈ m := ExtTreeMap.mem_iff_isSome_getElem?.mpr (Option.isSome_of_eq_some h)
  have hsame : forall i, i ≠ k ->
      ((m.insert k v')[i]?).elim 0 f = (m[i]?).elim 0 f := by
    intro i hi
    have hne : compare k i ≠ Ordering.eq :=
      fun heq => hi (LawfulEqOrd.compare_eq_iff_eq.mp heq).symm
    rw [ExtTreeMap.getElem?_insert, if_neg hne]
  have hsum := sum_map_replace (fun i => (m[i]?).elim 0 f)
    (fun i => ((m.insert k v')[i]?).elim 0 f) ExtTreeMap.nodup_keys
    (ExtTreeMap.mem_keys.mpr hk) hsame
  simp only [h, ExtTreeMap.getElem?_insert_self, Option.elim_some] at hsum
  rw [sumValues_eq, sumValues_eq, keys_insert_of_mem hk]
  exact hsum

end TreeMap
end Foundation
end SpongeBob
