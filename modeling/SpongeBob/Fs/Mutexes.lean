import SpongeBob.Foundation.Run
import SpongeBob.Fs.InodeTable
import SpongeBob.Fs.SpaceManager

/-!
# Mutexes

Every operation of the three classes takes the mutex of its object by hand and gives it
back by hand on each of its paths.  All paths do so but one: {lit}`GetInode` returns
with the mutex held when it does not find the number.
-/

namespace SpongeBob
namespace Fs

open Foundation

namespace Mutexes

/-!
# Calls
-/

/-- One object of each class that has a mutex. -/
structure Objects where
  table : InodeTable
  fileMap : FileMap
  manager : SpaceManager

inductive Call where
  | getInode (inum : UInt64)
  | allocateFileInode
  | allocateDirInode
  | deleteInode (inum : UInt64)
  | allocateFD
  | reclaimFD (fd : UInt64)
  | allocateSpace (length : UInt64)
  | allocateOneBlock
  | reclaimSpace (blockList : List UInt64)
  | reclaimInodeSpace (inode : Inode)

inductive Result where
  | pointer (inode : Option Inode)
  | inum (inum : UInt64)
  | fd (fd : Int)
  | blocks (blocks : List UInt64)
  | block (blockNr : UInt64)
  | success (success : Bool)

/-- A call on the table. -/
def Objects.onTable {alpha : Type} (o : Objects) (result : alpha -> Result)
    (x : Except Fault (alpha × InodeTable)) : Except Fault (Result × Objects) := do
  let (a, table) ← x
  pure (result a, { o with table := table })

/-- A call on the map of descriptors. -/
def Objects.onFileMap {alpha : Type} (o : Objects) (result : alpha -> Result)
    (x : Except Fault (alpha × FileMap)) : Except Fault (Result × Objects) := do
  let (a, fileMap) ← x
  pure (result a, { o with fileMap := fileMap })

/-- A call on the space manager. -/
def Objects.onManager {alpha : Type} (o : Objects) (result : alpha -> Result)
    (x : Except Fault (alpha × SpaceManager)) : Except Fault (Result × Objects) := do
  let (a, manager) ← x
  pure (result a, { o with manager := manager })

def step (o : Objects) : Call -> Except Fault (Result × Objects)
  | Call.getInode inum => o.onTable Result.pointer (o.table.getInode inum)
  | Call.allocateFileInode => o.onTable Result.inum o.table.allocateFileInode
  | Call.allocateDirInode => o.onTable Result.inum o.table.allocateDirInode
  | Call.deleteInode inum => o.onTable Result.success (o.table.deleteInode inum)
  | Call.allocateFD => o.onFileMap Result.fd o.fileMap.allocateFD
  | Call.reclaimFD fd => o.onFileMap Result.success (o.fileMap.reclaimFD fd)
  | Call.allocateSpace length => o.onManager Result.blocks (o.manager.allocateSpace length)
  | Call.allocateOneBlock => o.onManager Result.block o.manager.allocateOneBlock
  | Call.reclaimSpace blockList => o.onManager Result.success (o.manager.reclaimSpace blockList)
  | Call.reclaimInodeSpace inode =>
      o.onManager Result.success (o.manager.reclaimInodeSpace (some inode))

structure Unlocked (o : Objects) : Prop where
  table : o.table.tableLock = false
  fileMap : o.fileMap.fileMapLock = false
  manager : o.manager.spaceLock = false

/-- No mutex is held, and no call would wait for one. -/
structure Released (o : Objects) : Prop where
  unlocked : Unlocked o
  passes : forall call, step o call ≠ Except.error Fault.deadlock

/-- A lookup asks for a number that is in the table. -/
def FindsInode (o : Objects) (call : Call) : Prop :=
  forall inum, call = Call.getInode inum -> inum ∈ o.table.table

/-!
# What the operations leave
-/

/-- An operation comes back with its mutex given back. -/
def Releases {alpha object : Type} (held : object -> Bool)
    (x : Except Fault (alpha × object)) : Prop :=
  forall a t, x = Except.ok (a, t) -> held t = false

/-- An operation does not wait for a mutex that nobody gives back. -/
def Passes {alpha : Type} (x : Except Fault alpha) : Prop :=
  x ≠ Except.error Fault.deadlock

section Operations

variable {alpha beta object : Type} {held : object -> Bool}

theorem releases_ok {a : alpha} {t : object} (h : held t = false) :
    Releases held (Except.ok (a, t)) := by
  intro a' t' heq
  cases heq
  exact h

theorem Releases.bind {x : Except Fault beta} {f : beta -> Except Fault (alpha × object)}
    (h : forall b, Releases held (f b)) : Releases held (x >>= f) := by
  intro a t heq
  rcases bind_eq_ok.mp heq with ⟨b, _, hf⟩
  exact h b a t hf

theorem passes_ok (a : alpha) : Passes (Except.ok a) := by
  intro heq
  cases heq

theorem Passes.bind {x : Except Fault beta} {f : beta -> Except Fault alpha} (hx : Passes x)
    (hf : forall b, Passes (f b)) : Passes (x >>= f) := by
  cases x with
  | error e =>
      intro heq
      apply hx
      cases heq
      rfl
  | ok b => exact hf b

theorem passes_lock {b : Bool} (h : b = false) : Passes (lock b) := by
  rw [lock_of_free h]
  exact passes_ok true

theorem passes_top (heap : MinHeap UInt64) : Passes (top heap) := by
  intro heq
  unfold top at heq
  cases htop : heap.top? with
  | none =>
      rw [htop] at heq
      cases heq
  | some x =>
      rw [htop] at heq
      cases heq

theorem passes_divide (x y : UInt64) : Passes (divide x y) := by
  intro heq
  unfold divide at heq
  split at heq
  · cases heq
  · cases heq

end Operations

section Table

variable {t : InodeTable}

/-- The lookup gives the mutex back exactly if it finds the number. -/
theorem getInode_unlocked_iff {inum : UInt64} {inode : Option Inode} {t' : InodeTable}
    (hget : t.getInode inum = Except.ok (inode, t')) :
    t'.tableLock = false <-> inum ∈ t.table := by
  unfold InodeTable.getInode at hget
  rcases bind_eq_ok.mp hget with ⟨held, hlock, hrest⟩
  have hheld : held = true := by
    unfold lock at hlock
    split at hlock
    · cases hlock
    · cases hlock
      rfl
  rw [Std.ExtTreeMap.mem_iff_isSome_getElem?]
  cases hinum : t.table[inum]? with
  | none =>
      rw [hinum] at hrest
      cases hrest
      rw [hheld]
      simp
  | some inode =>
      rw [hinum] at hrest
      cases hrest
      simp

theorem releases_allocateFreeInode (type : FileType) :
    Releases InodeTable.tableLock (t.allocateFreeInode type) := by
  apply Releases.bind
  intro _
  split
  · exact releases_ok rfl
  · apply Releases.bind
    intro _
    exact releases_ok rfl

theorem releases_deleteInode (inum : UInt64) :
    Releases InodeTable.tableLock (t.deleteInode inum) := by
  apply Releases.bind
  intro _
  split
  · exact releases_ok rfl
  · exact releases_ok rfl

theorem passes_getInode (h : t.tableLock = false) (inum : UInt64) :
    Passes (t.getInode inum) := by
  apply (passes_lock h).bind
  intro _
  split
  · exact passes_ok _
  · exact passes_ok _

theorem passes_allocateFreeInode (h : t.tableLock = false) (type : FileType) :
    Passes (t.allocateFreeInode type) := by
  apply (passes_lock h).bind
  intro _
  split
  · exact passes_ok _
  · apply (passes_top t.freeList).bind
    intro _
    exact passes_ok _

theorem passes_deleteInode (h : t.tableLock = false) (inum : UInt64) :
    Passes (t.deleteInode inum) := by
  apply (passes_lock h).bind
  intro _
  split
  · exact passes_ok _
  · exact passes_ok _

end Table

section Descriptors

variable {m : FileMap}

theorem releases_allocateFD : Releases FileMap.fileMapLock m.allocateFD := by
  apply Releases.bind
  intro _
  split
  · exact releases_ok rfl
  · exact releases_ok rfl

theorem releases_reclaimFD (fd : UInt64) : Releases FileMap.fileMapLock (m.reclaimFD fd) := by
  apply Releases.bind
  intro _
  split
  · exact releases_ok rfl
  · exact releases_ok rfl

theorem passes_allocateFD (h : m.fileMapLock = false) : Passes m.allocateFD := by
  apply (passes_lock h).bind
  intro _
  split
  · exact passes_ok _
  · exact passes_ok _

theorem passes_reclaimFD (h : m.fileMapLock = false) (fd : UInt64) :
    Passes (m.reclaimFD fd) := by
  apply (passes_lock h).bind
  intro _
  split
  · exact passes_ok _
  · exact passes_ok _

end Descriptors

section Blocks

variable {sm : SpaceManager}

theorem releases_allocateSpace (length : UInt64) :
    Releases SpaceManager.spaceLock (sm.allocateSpace length) := by
  apply Releases.bind
  intro _
  apply Releases.bind
  intro toAllocate
  split
  · exact releases_ok rfl
  · apply Releases.bind
    intro _
    exact releases_ok rfl

theorem releases_allocateOneBlock : Releases SpaceManager.spaceLock sm.allocateOneBlock := by
  apply Releases.bind
  intro _
  apply Releases.bind
  intro _
  exact releases_ok rfl

theorem releases_reclaimSpace (blockList : List UInt64) :
    Releases SpaceManager.spaceLock (sm.reclaimSpace blockList) := by
  apply Releases.bind
  intro _
  exact releases_ok rfl

theorem releases_reclaimInodeSpace (inode : Option Inode) :
    Releases SpaceManager.spaceLock (sm.reclaimInodeSpace inode) := by
  apply Releases.bind
  intro _
  apply Releases.bind
  intro _
  exact releases_ok rfl

theorem passes_takeBlock (sm : SpaceManager) : Passes sm.takeBlock := by
  apply (passes_top sm.freeList).bind
  intro _
  exact passes_ok _

theorem passes_takeBlocks (n : Nat) (sm : SpaceManager) :
    Passes (SpaceManager.takeBlocks n sm) := by
  induction n generalizing sm with
  | zero => exact passes_ok _
  | succ n ih =>
      apply (passes_takeBlock sm).bind
      rintro ⟨blockNr, sm⟩
      apply (ih sm).bind
      intro _
      exact passes_ok _

theorem passes_allocateSpace (h : sm.spaceLock = false) (length : UInt64) :
    Passes (sm.allocateSpace length) := by
  apply (passes_lock h).bind
  intro _
  apply (passes_divide _ _).bind
  intro toAllocate
  split
  · exact passes_ok _
  · apply (passes_takeBlocks _ sm).bind
    intro _
    exact passes_ok _

theorem passes_allocateOneBlock (h : sm.spaceLock = false) : Passes sm.allocateOneBlock := by
  apply (passes_lock h).bind
  intro _
  apply (passes_takeBlock sm).bind
  intro _
  exact passes_ok _

theorem passes_reclaimSpace (h : sm.spaceLock = false) (blockList : List UInt64) :
    Passes (sm.reclaimSpace blockList) := by
  apply (passes_lock h).bind
  intro _
  exact passes_ok _

theorem passes_reclaimInodeSpace (h : sm.spaceLock = false) (inode : Inode) :
    Passes (sm.reclaimInodeSpace (some inode)) := by
  apply (passes_lock h).bind
  intro _
  exact passes_ok _

end Blocks

/-!
# One call
-/

section Steps

variable {o o' : Objects} {call : Call} {result : Result}

theorem Unlocked.onTable {alpha : Type} {f : alpha -> Result}
    {x : Except Fault (alpha × InodeTable)} (h : Unlocked o)
    (hreleases : Releases InodeTable.tableLock x)
    (hcall : o.onTable f x = Except.ok (result, o')) : Unlocked o' := by
  rcases bind_eq_ok.mp hcall with ⟨⟨a, t⟩, hx, hpure⟩
  cases hpure
  exact ⟨hreleases a t hx, h.fileMap, h.manager⟩

theorem Unlocked.onFileMap {alpha : Type} {f : alpha -> Result}
    {x : Except Fault (alpha × FileMap)} (h : Unlocked o)
    (hreleases : Releases FileMap.fileMapLock x)
    (hcall : o.onFileMap f x = Except.ok (result, o')) : Unlocked o' := by
  rcases bind_eq_ok.mp hcall with ⟨⟨a, m⟩, hx, hpure⟩
  cases hpure
  exact ⟨h.table, hreleases a m hx, h.manager⟩

theorem Unlocked.onManager {alpha : Type} {f : alpha -> Result}
    {x : Except Fault (alpha × SpaceManager)} (h : Unlocked o)
    (hreleases : Releases SpaceManager.spaceLock x)
    (hcall : o.onManager f x = Except.ok (result, o')) : Unlocked o' := by
  rcases bind_eq_ok.mp hcall with ⟨⟨a, sm⟩, hx, hpure⟩
  cases hpure
  exact ⟨h.table, h.fileMap, hreleases a sm hx⟩

/-- A call that returns leaves the mutexes free, unless it is a lookup that fails. -/
theorem Unlocked.step (h : Unlocked o) (hfinds : FindsInode o call)
    (hstep : step o call = Except.ok (result, o')) : Unlocked o' := by
  cases call with
  | getInode inum =>
      apply h.onTable ?_ hstep
      intro inode t hget
      exact (getInode_unlocked_iff hget).mpr (hfinds inum rfl)
  | allocateFileInode => exact h.onTable (releases_allocateFreeInode _) hstep
  | allocateDirInode => exact h.onTable (releases_allocateFreeInode _) hstep
  | deleteInode inum => exact h.onTable (releases_deleteInode inum) hstep
  | allocateFD => exact h.onFileMap releases_allocateFD hstep
  | reclaimFD fd => exact h.onFileMap (releases_reclaimFD fd) hstep
  | allocateSpace length => exact h.onManager (releases_allocateSpace length) hstep
  | allocateOneBlock => exact h.onManager releases_allocateOneBlock hstep
  | reclaimSpace blockList => exact h.onManager (releases_reclaimSpace blockList) hstep
  | reclaimInodeSpace inode => exact h.onManager (releases_reclaimInodeSpace _) hstep

/-- With all mutexes free no call waits. -/
theorem Unlocked.passes (h : Unlocked o) (call : Call) : Passes (Mutexes.step o call) := by
  cases call with
  | getInode inum => exact (passes_getInode h.table inum).bind (fun _ => passes_ok _)
  | allocateFileInode =>
      exact (passes_allocateFreeInode h.table _).bind (fun _ => passes_ok _)
  | allocateDirInode =>
      exact (passes_allocateFreeInode h.table _).bind (fun _ => passes_ok _)
  | deleteInode inum => exact (passes_deleteInode h.table inum).bind (fun _ => passes_ok _)
  | allocateFD => exact (passes_allocateFD h.fileMap).bind (fun _ => passes_ok _)
  | reclaimFD fd => exact (passes_reclaimFD h.fileMap fd).bind (fun _ => passes_ok _)
  | allocateSpace length =>
      exact (passes_allocateSpace h.manager length).bind (fun _ => passes_ok _)
  | allocateOneBlock => exact (passes_allocateOneBlock h.manager).bind (fun _ => passes_ok _)
  | reclaimSpace blockList =>
      exact (passes_reclaimSpace h.manager blockList).bind (fun _ => passes_ok _)
  | reclaimInodeSpace inode =>
      exact (passes_reclaimInodeSpace h.manager inode).bind (fun _ => passes_ok _)

/-- A call after which the mutexes are free was no lookup that failed. -/
theorem Unlocked.finds (h : Unlocked o') (hstep : Mutexes.step o call = Except.ok (result, o')) :
    FindsInode o call := by
  rintro inum rfl
  rcases bind_eq_ok.mp hstep with ⟨⟨inode, t⟩, hget, hpure⟩
  cases hpure
  exact (getInode_unlocked_iff hget).mp h.table

end Steps

/-!
# Sequences of calls
-/

/--
In a sequence of calls that starts with all mutexes free, every call leaves them free,
and none waits for one, exactly if every {lit}`GetInode` is for a number that is in the
table at the time.
-/
theorem released_iff_finds {o o' : Objects} (hunlocked : Unlocked o) {calls : List Call}
    {results : List Result} (hrun : runFrom step o calls = Except.ok (results, o')) :
    EveryState step o calls Released <-> EveryStep step o calls FindsInode := by
  apply everyState_iff_everyStep (fun _ => True) Unlocked trivial hunlocked
    (fun _ _ _ _ _ _ => trivial) ?_ ?_ ?_ hrun
  · intro o _ h
    exact ⟨h, h.passes⟩
  · intro o call result o' _ hstep h
    exact h.unlocked.finds hstep
  · intro o call result o' _ hstep h hfinds
    exact h.step hfinds hstep

/-- New objects: a table of size 2, descriptors for two files, a region of two blocks. -/
def fresh : Objects where
  table := InodeTable.make 2
  fileMap := FileMap.make 2
  manager := SpaceManager.make 0 2097151 fileBlockSize 1

theorem unlocked_fresh : Unlocked fresh :=
  ⟨rfl, rfl, rfl⟩

/-- An inode, a descriptor and two blocks are taken and given back. -/
def tidyCalls : List Call :=
  [Call.allocateFileInode, Call.getInode 0, Call.allocateFD, Call.allocateSpace 2097152,
    Call.reclaimSpace [0, 1], Call.reclaimFD 4, Call.deleteInode 1, Call.deleteInode 1]

theorem released_iff_finds_tidy :
    exists results o', runFrom step fresh tidyCalls = Except.ok (results, o') ∧
      EveryState step fresh tidyCalls Released := by
  have hpass : passes (runFrom step fresh tidyCalls) (fun _ => true) = true := by
    decide +kernel
  have hroot : stepsPass step (fun o => o.table.table.contains 0) fresh tidyCalls = true := by
    decide +kernel
  rcases exists_of_passes hpass with ⟨⟨results, o'⟩, hrun, _⟩
  exists results, o'
  constructor
  · exact hrun
  · apply (released_iff_finds unlocked_fresh hrun).mpr
    intro before call after outs o hsplit hbefore inum hcall
    have hmem : Call.getInode inum ∈ tidyCalls := by
      rw [hsplit, hcall]
      exact List.mem_append_right _ List.mem_cons_self
    have hzero : inum = 0 := by
      simpa [tidyCalls] using hmem
    rw [hzero]
    exact Std.ExtTreeMap.contains_iff_mem.mp
      (everyStep_of_stepsPass hroot before call after outs o hsplit hbefore)

/-- After a lookup of an unknown number every further call on the table waits for ever. -/
theorem not_released_missing :
    ¬ (forall (o : Objects) (calls : List Call) (results : List Result) (o' : Objects),
      Unlocked o -> runFrom step o calls = Except.ok (results, o') ->
      EveryState step o calls Released) := by
  intro hall
  have hpass : passes (runFrom step fresh [Call.getInode 5]) (fun result =>
      result.2.table.tableLock) = true := by
    decide +kernel
  rcases exists_of_passes hpass with ⟨⟨results, o'⟩, hrun, hlocked⟩
  have hreleased := (hall fresh _ results o' unlocked_fresh hrun).last hrun
  have hfree := hreleased.unlocked.table
  rw [hlocked] at hfree
  cases hfree

end Mutexes
end Fs
end SpongeBob
