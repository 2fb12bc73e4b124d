import Mathlib.Data.Finset.Card
import Mathlib.Order.Bounds.Defs
import SpongeBob.Foundation.Run
import SpongeBob.Fs.InodeTable

/-!
# The table of file descriptors

The descriptors of a map of size {lit}`n` are the numbers from 4 to {lit}`n + 3`.
Between calls each of them is either open or in the free list, whatever numbers
the callers have tried to close.
-/

namespace SpongeBob
namespace Fs

open Foundation

namespace FileMap

/-!
# Calls on the map
-/

inductive Op where
  | allocateFD
  | reclaimFD (fd : UInt64)
deriving DecidableEq, Repr

inductive Result where
  | allocateFD (fd : Int)
  | reclaimFD (success : Bool)
deriving DecidableEq, Repr

/-- One call on the map. -/
def perform (m : FileMap) : Op -> Except Fault (Result × FileMap)
  | Op.allocateFD => do
      let (fd, m) ← m.allocateFD
      pure (Result.allocateFD fd, m)
  | Op.reclaimFD fd => do
      let (success, m) ← m.reclaimFD fd
      pure (Result.reclaimFD success, m)

/-- The map with the top of its free list, which is {lit}`fd`, open. -/
def opened (m : FileMap) (fd : UInt64) : FileMap :=
  { m with
    fdUsedSet := insert fd m.fdUsedSet
    fdFreeList := m.fdFreeList.pop }

/-- The map with {lit}`fd` given back. -/
def closed (m : FileMap) (fd : UInt64) : FileMap :=
  { m with
    fdUsedSet := m.fdUsedSet.erase fd
    fdFreeList := m.fdFreeList.push fd }

section Effects

variable {m : FileMap}

theorem allocateFD_of_top (hlock : m.fileMapLock = false) {fd : UInt64}
    (htop : m.fdFreeList.top? = some fd) :
    m.allocateFD = Except.ok (Word.toInt fd, m.opened fd) := by
  unfold allocateFD
  rw [lock_of_free hlock, htop]
  cases m
  cases hlock
  rfl

theorem allocateFD_of_empty (hlock : m.fileMapLock = false)
    (htop : m.fdFreeList.top? = none) : m.allocateFD = Except.ok (-1, m) := by
  unfold allocateFD
  rw [lock_of_free hlock, htop]
  cases m
  cases hlock
  rfl

theorem reclaimFD_of_mem (hlock : m.fileMapLock = false) {fd : UInt64}
    (hfd : fd ∈ m.fdUsedSet) : m.reclaimFD fd = Except.ok (true, m.closed fd) := by
  unfold reclaimFD
  rw [lock_of_free hlock, ok_bind, if_pos hfd]
  cases m
  cases hlock
  rfl

theorem reclaimFD_of_not_mem (hlock : m.fileMapLock = false) {fd : UInt64}
    (hfd : fd ∉ m.fdUsedSet) : m.reclaimFD fd = Except.ok (false, m) := by
  unfold reclaimFD
  rw [lock_of_free hlock, ok_bind, if_neg hfd]
  cases m
  cases hlock
  rfl

end Effects

/-!
# The division of the descriptors
-/

/-- The descriptors of a map of size {lit}`n`. -/
def IsDescriptor (n : Nat) (fd : UInt64) : Prop :=
  4 ≤ fd.toNat ∧ fd.toNat ≤ n + 3

/-- The descriptors are divided between the open ones and the free list. -/
structure Divided (n : Nat) (m : FileMap) : Prop where
  unlocked : m.fileMapLock = false
  freeNodup : m.fdFreeList.elems.Nodup
  disjoint : forall fd, fd ∈ m.fdFreeList -> fd ∉ m.fdUsedSet
  cover : forall fd, fd ∈ m.fdFreeList ∨ fd ∈ m.fdUsedSet <-> IsDescriptor n fd

theorem drop_iota (n : Nat) : (Word.iota (n + 3) 1).drop 3 = Word.iota n 4 := by
  apply List.ext_getElem
  · simp
  · intro i hi hi'
    simp only [Word.iota, List.getElem_drop, List.getElem_map, List.getElem_range]
    congr 1
    omega

theorem divided_make {size : UInt64} (hsize : size.toNat + 3 < 2 ^ 31) :
    Divided size.toNat (make size) := by
  have hadd : (size + 3).toNat = size.toNat + 3 := by
    rw [UInt64.toNat_add]
    exact Nat.mod_eq_of_lt (show size.toNat + 3 < 2 ^ 64 by omega)
  have hfree : (make size).fdFreeList = MinHeap.ofList (Word.iota size.toNat 4) := by
    show MinHeap.ofList _ = _
    rw [hadd, drop_iota]
  refine ⟨rfl, ?_, fun fd _ => Finset.notMem_empty fd, ?_⟩
  · rw [hfree, (MinHeap.ofList_perm _).nodup_iff]
    exact Word.nodup_iota (by omega)
  · intro fd
    rw [hfree, MinHeap.mem_ofList, Word.mem_iota (by omega)]
    show _ ∨ fd ∈ (∅ : Finset UInt64) <-> _
    simp only [Finset.notMem_empty, or_false]
    unfold IsDescriptor
    omega

section Steps

variable {n : Nat} {m : FileMap}

theorem Divided.opened (h : Divided n m) {fd : UInt64}
    (htop : m.fdFreeList.top? = some fd) : Divided n (m.opened fd) := by
  have hpop : forall x, x ∈ m.fdFreeList.pop <-> x ∈ m.fdFreeList ∧ x ≠ fd :=
    fun x => MinHeap.mem_pop_iff htop h.freeNodup
  refine ⟨h.unlocked, MinHeap.nodup_pop h.freeNodup, ?_, ?_⟩
  · intro x hx hused
    rcases (hpop x).mp hx with ⟨hfree, hne⟩
    rcases Finset.mem_insert.mp hused with heq | hold
    · exact hne heq
    · exact h.disjoint x hfree hold
  · intro x
    rw [← h.cover x]
    show x ∈ m.fdFreeList.pop ∨ x ∈ insert fd m.fdUsedSet <-> _
    rw [hpop, Finset.mem_insert]
    by_cases hx : x = fd
    · subst hx
      simp [MinHeap.top?_mem htop]
    · simp [hx]

theorem Divided.closed (h : Divided n m) {fd : UInt64} (hfd : fd ∈ m.fdUsedSet) :
    Divided n (m.closed fd) := by
  have hnot : fd ∉ m.fdFreeList := fun hfree => h.disjoint fd hfree hfd
  refine ⟨h.unlocked, MinHeap.nodup_push h.freeNodup hnot, ?_, ?_⟩
  · intro x hx hused
    rcases Finset.mem_erase.mp hused with ⟨hne, hold⟩
    rcases MinHeap.mem_push.mp hx with heq | hfree
    · exact hne heq
    · exact h.disjoint x hfree hold
  · intro x
    rw [← h.cover x]
    show x ∈ m.fdFreeList.push fd ∨ x ∈ m.fdUsedSet.erase fd <-> _
    rw [MinHeap.mem_push, Finset.mem_erase]
    by_cases hx : x = fd
    · subst hx
      simp [hfd]
    · simp [hx]

/-- As many descriptors are free as are not open. -/
theorem Divided.card (h : Divided n m) (hn : n + 3 < 2 ^ 31) :
    m.fdFreeList.elems.length + m.fdUsedSet.card = n := by
  have hfree : m.fdFreeList.elems.toFinset.card = m.fdFreeList.elems.length :=
    List.toFinset_card_of_nodup h.freeNodup
  have hall : (Word.iota n 4).toFinset.card = n := by
    rw [List.toFinset_card_of_nodup (Word.nodup_iota (by omega)), Word.length_iota]
  have hdisjoint : Disjoint m.fdFreeList.elems.toFinset m.fdUsedSet := by
    rw [Finset.disjoint_left]
    intro x hx
    exact h.disjoint x (List.mem_toFinset.mp hx)
  have hunion : m.fdFreeList.elems.toFinset ∪ m.fdUsedSet = (Word.iota n 4).toFinset := by
    ext x
    rw [Finset.mem_union, List.mem_toFinset, List.mem_toFinset, Word.mem_iota (by omega)]
    have hcover := h.cover x
    unfold IsDescriptor at hcover
    rw [← MinHeap.mem_def, hcover]
    omega
  rw [← hfree, ← Finset.card_union_of_disjoint hdisjoint, hunion, hall]

/-- The free list is empty exactly if all descriptors are open. -/
theorem Divided.top?_eq_none (h : Divided n m) (hn : n + 3 < 2 ^ 31) :
    m.fdFreeList.top? = none <-> m.fdUsedSet.card = n := by
  have hcard := h.card hn
  rw [MinHeap.top?_eq_none, ← List.length_eq_zero_iff]
  omega

/-- The top of the free list is the least descriptor that is not open. -/
theorem Divided.isLeast (h : Divided n m) {fd : UInt64}
    (htop : m.fdFreeList.top? = some fd) :
    IsLeast { x | IsDescriptor n x ∧ x ∉ m.fdUsedSet } fd := by
  have hmem := MinHeap.top?_mem htop
  constructor
  · exact ⟨(h.cover fd).mp (Or.inl hmem), h.disjoint fd hmem⟩
  · intro x hx
    have hfree : x ∈ m.fdFreeList := by
      rcases (h.cover x).mpr hx.left with hfree | hused
      · exact hfree
      · exact absurd hused hx.right
    exact MinHeap.top?_le htop hfree

/-- The only divided map without open descriptors is the one it started from. -/
theorem Divided.eq_make {size : UInt64} (h : Divided size.toNat m)
    (hsize : size.toNat + 3 < 2 ^ 31) (hnone : m.fdUsedSet = ∅) : m = make size := by
  have hmake := divided_make hsize
  have hfree : m.fdFreeList = (make size).fdFreeList := by
    apply MinHeap.eq_of_same_elems h.freeNodup hmake.freeNodup
    intro x
    have hleft := h.cover x
    have hright := hmake.cover x
    rw [hnone] at hleft
    rw [show (make size).fdUsedSet = ∅ from rfl] at hright
    simp only [Finset.notMem_empty, or_false] at hleft hright
    rw [hleft, hright]
  have hlock := h.unlocked
  cases m
  cases hlock
  cases hnone
  cases hfree
  rfl

/-!
# What the calls do
-/

/--
{lit}`AllocateFD` completes.  It gives out the least descriptor that is not open, or
-1 with the map unchanged when all are open.
-/
def AllocatesLeast (n : Nat) (m : FileMap) : Prop :=
  exists fd m', m.allocateFD = Except.ok (fd, m') ∧
    (fd = -1 <-> m.fdUsedSet.card = n) ∧ (fd = -1 -> m' = m) ∧
    (fd ≠ -1 -> exists w : UInt64, fd = w.toNat ∧
      IsLeast { x | IsDescriptor n x ∧ x ∉ m.fdUsedSet } w ∧ m' = m.opened w)

/-- {lit}`ReclaimFD` completes, and takes back exactly the descriptors that are open. -/
def ReclaimsOpen (m : FileMap) : Prop :=
  forall fd, exists success m', m.reclaimFD fd = Except.ok (success, m') ∧
    (success = true <-> fd ∈ m.fdUsedSet) ∧ (success = false -> m' = m) ∧
    (success = true -> m' = m.closed fd)

theorem IsDescriptor.toInt {fd : UInt64} (hfd : IsDescriptor n fd) (hn : n + 3 < 2 ^ 31) :
    Word.toInt fd = fd.toNat := by
  unfold IsDescriptor at hfd
  exact Word.toInt_of_lt (by omega)

theorem Divided.allocatesLeast (h : Divided n m) (hn : n + 3 < 2 ^ 31) :
    AllocatesLeast n m := by
  have hnone := h.top?_eq_none hn
  cases htop : m.fdFreeList.top? with
  | none =>
      refine ⟨-1, m, allocateFD_of_empty h.unlocked htop, ?_, fun _ => rfl, ?_⟩
      · exact ⟨fun _ => hnone.mp htop, fun _ => rfl⟩
      · intro hne
        exact absurd rfl hne
  | some w =>
      have hleast := h.isLeast htop
      have hfd := hleast.left.left.toInt hn
      have hne : ((w.toNat : Nat) : Int) ≠ -1 := by omega
      refine ⟨w.toNat, m.opened w, ?_, ?_, ?_, fun _ => ⟨w, rfl, hleast, rfl⟩⟩
      · rw [allocateFD_of_top h.unlocked htop, hfd]
      · constructor
        · intro heq
          exact absurd heq hne
        · intro hcard
          rw [hnone.mpr hcard] at htop
          cases htop
      · intro heq
        exact absurd heq hne

theorem Divided.reclaimsOpen (h : Divided n m) : ReclaimsOpen m := by
  intro fd
  by_cases hfd : fd ∈ m.fdUsedSet
  · refine ⟨true, m.closed fd, reclaimFD_of_mem h.unlocked hfd, ?_, ?_, fun _ => rfl⟩
    · simp [hfd]
    · intro hfalse
      cases hfalse
  · refine ⟨false, m, reclaimFD_of_not_mem h.unlocked hfd, ?_, fun _ => rfl, ?_⟩
    · simp [hfd]
    · intro htrue
      cases htrue

/-- The calls that complete on a divided map, one case for each way they can go. -/
theorem Divided.perform_cases (h : Divided n m) {op : Op} {result : Result} {m' : FileMap}
    (hperform : m.perform op = Except.ok (result, m')) :
    (op = Op.allocateFD ∧ result = Result.allocateFD (-1) ∧ m' = m) ∨
    (exists w, op = Op.allocateFD ∧ result = Result.allocateFD (Word.toInt w) ∧
      m.fdFreeList.top? = some w ∧ m' = m.opened w) ∨
    (exists w, op = Op.reclaimFD w ∧ result = Result.reclaimFD false ∧
      w ∉ m.fdUsedSet ∧ m' = m) ∨
    (exists w, op = Op.reclaimFD w ∧ result = Result.reclaimFD true ∧
      w ∈ m.fdUsedSet ∧ m' = m.closed w) := by
  cases op with
  | allocateFD =>
      cases htop : m.fdFreeList.top? with
      | none =>
          rw [perform, allocateFD_of_empty h.unlocked htop] at hperform
          cases hperform
          exact Or.inl ⟨rfl, rfl, rfl⟩
      | some w =>
          rw [perform, allocateFD_of_top h.unlocked htop] at hperform
          rcases Prod.mk.inj (Except.ok.inj hperform) with ⟨hresult, hnext⟩
          exact Or.inr (Or.inl ⟨w, rfl, hresult.symm, rfl, hnext.symm⟩)
  | reclaimFD w =>
      by_cases hw : w ∈ m.fdUsedSet
      · rw [perform, reclaimFD_of_mem h.unlocked hw] at hperform
        cases hperform
        exact Or.inr (Or.inr (Or.inr ⟨w, rfl, rfl, hw, rfl⟩))
      · rw [perform, reclaimFD_of_not_mem h.unlocked hw] at hperform
        cases hperform
        exact Or.inr (Or.inr (Or.inl ⟨w, rfl, rfl, hw, rfl⟩))

theorem Divided.perform (h : Divided n m) {op : Op} {result : Result} {m' : FileMap}
    (hperform : m.perform op = Except.ok (result, m')) : Divided n m' := by
  rcases h.perform_cases hperform with
    ⟨_, _, rfl⟩ | ⟨w, _, _, htop, rfl⟩ | ⟨w, _, _, _, rfl⟩ | ⟨w, _, _, hw, rfl⟩
  · exact h
  · exact h.opened htop
  · exact h
  · exact h.closed hw

theorem Divided.exists_perform (h : Divided n m) (op : Op) :
    exists result m', m.perform op = Except.ok (result, m') := by
  cases op with
  | allocateFD =>
      cases htop : m.fdFreeList.top? with
      | none => exact ⟨_, _, by rw [FileMap.perform, allocateFD_of_empty h.unlocked htop]; rfl⟩
      | some w => exact ⟨_, _, by rw [FileMap.perform, allocateFD_of_top h.unlocked htop]; rfl⟩
  | reclaimFD w =>
      rcases h.reclaimsOpen w with ⟨success, m', hreclaim, _, _, _⟩
      exact ⟨_, _, by rw [FileMap.perform, hreclaim]; rfl⟩

/-!
# Runs of calls
-/

theorem Divided.run (h : Divided n m) {ops : List Op} {results : List Result}
    {m' : FileMap} (hrun : runFrom FileMap.perform m ops = Except.ok (results, m')) :
    Divided n m' :=
  run_invariant h (fun _ _ _ _ h hperform => h.perform hperform) hrun

theorem Divided.exists_run (h : Divided n m) (ops : List Op) :
    exists results m', runFrom FileMap.perform m ops = Except.ok (results, m') :=
  Foundation.exists_run (Divided n) (fun _ _ _ _ h hperform => h.perform hperform)
    (fun _ op h => h.exists_perform op) h ops

/-- An open descriptor stays open until a close of it succeeds. -/
theorem Divided.open_or_reclaimed (h : Divided n m) {w : UInt64} (hw : w ∈ m.fdUsedSet)
    {ops : List Op} {results : List Result} {m' : FileMap}
    (hrun : runFrom FileMap.perform m ops = Except.ok (results, m')) :
    w ∈ m'.fdUsedSet ∨ (Op.reclaimFD w, Result.reclaimFD true) ∈ ops.zip results := by
  refine run_until (Divided n) (fun m => w ∈ m.fdUsedSet)
    (fun _ _ _ _ h hperform => h.perform hperform) ?_ h hw hrun
  intro m op result m1 h hw hperform
  -- The call closes the descriptor itself, or leaves it open.
  rcases h.perform_cases hperform with
    ⟨_, _, rfl⟩ | ⟨v, _, _, _, rfl⟩ | ⟨v, _, _, _, rfl⟩ | ⟨v, rfl, rfl, _, rfl⟩
  · exact Or.inl hw
  · exact Or.inl (Finset.mem_insert_of_mem hw)
  · exact Or.inl hw
  · by_cases hv : w = v
    · rw [hv]
      exact Or.inr rfl
    · exact Or.inl (Finset.mem_erase.mpr ⟨hv, hw⟩)

/-- Two opens are given the same descriptor only with a close of it in between. -/
theorem Divided.reclaimed_between (h : Divided n m) (hn : n + 3 < 2 ^ 31) {fd : Int}
    (hfd : fd ≠ -1) {m1 m2 m3 : FileMap} {ops : List Op} {results : List Result}
    (hfirst : m.allocateFD = Except.ok (fd, m1))
    (hrun : runFrom FileMap.perform m1 ops = Except.ok (results, m2))
    (hsecond : m2.allocateFD = Except.ok (fd, m3)) :
    exists w : UInt64, fd = w.toNat ∧
      (Op.reclaimFD w, Result.reclaimFD true) ∈ ops.zip results := by
  rcases h.allocatesLeast hn with ⟨fd1, m1', halloc1, _, _, hleast1⟩
  rw [hfirst] at halloc1
  cases halloc1
  rcases hleast1 hfd with ⟨w, hw, hleast, rfl⟩
  have hmem : w ∈ (m.opened w).fdUsedSet := Finset.mem_insert_self w _
  have hperform : m.perform Op.allocateFD =
      Except.ok (Result.allocateFD fd, m.opened w) := by
    rw [FileMap.perform, hfirst]
    rfl
  have hdivided1 := h.perform hperform
  have hdivided2 := hdivided1.run hrun
  rcases hdivided2.allocatesLeast hn with ⟨fd2, m3', halloc2, _, _, hleast2⟩
  rw [hsecond] at halloc2
  cases halloc2
  rcases hleast2 hfd with ⟨w2, hw2, hleast2, _⟩
  have heq : w2 = w := by
    apply UInt64.toNat_inj.mp
    omega
  rcases hdivided1.open_or_reclaimed hmem hrun with hopen | hclosed
  · rw [heq] at hleast2
    exact absurd hopen hleast2.left.right
  · exact ⟨w, hw, hclosed⟩

/-- Closing the open descriptors, in any order, leads back to the initial map. -/
theorem Divided.close_all {size : UInt64} (h : Divided size.toNat m)
    (hsize : size.toNat + 3 < 2 ^ 31) {fds : List UInt64} (hnodup : fds.Nodup)
    (hall : forall fd, fd ∈ fds <-> fd ∈ m.fdUsedSet) :
    runFrom FileMap.perform m (fds.map Op.reclaimFD) =
      Except.ok (fds.map (fun _ => Result.reclaimFD true), make size) := by
  induction fds generalizing m with
  | nil =>
      have hnone : m.fdUsedSet = ∅ := by
        apply Finset.eq_empty_of_forall_notMem
        intro fd hfd
        cases (hall fd).mpr hfd
      rw [h.eq_make hsize hnone]
      rfl
  | cons fd fds ih =>
      rcases List.nodup_cons.mp hnodup with ⟨hnot, hnodup'⟩
      have hfd : fd ∈ m.fdUsedSet := (hall fd).mp List.mem_cons_self
      have hrest := ih (h.closed hfd) hnodup' (fun x => by
        rw [show (m.closed fd).fdUsedSet = m.fdUsedSet.erase fd from rfl,
          Finset.mem_erase, ← hall x, List.mem_cons]
        constructor
        · intro hx
          refine ⟨?_, Or.inr hx⟩
          rintro rfl
          exact hnot hx
        · rintro ⟨hne, heq | hx⟩
          · exact absurd heq hne
          · exact hx)
      refine runFrom_cons.mpr ⟨_, m.closed fd, _, ?_, hrest, rfl⟩
      rw [FileMap.perform, reclaimFD_of_mem h.unlocked hfd]
      rfl

end Steps
end FileMap
end Fs
end SpongeBob
