import SpongeBob.Fs.File

/-!
# Space managers

One manager per storage node hands out the blocks of the memory region that the
node registered.  Blocks are numbered from 0; the free ones wait in a heap, the
others are recorded in a set and counted.
-/

namespace SpongeBob
namespace Fs

open Foundation

structure SpaceManager where
  inusedBlocks : Finset UInt64
  freeList : MinHeap UInt64
  spaceLock : Bool
  spaceStart : UInt64
  spaceEnd : UInt64
  totalBytes : UInt64
  blockSize : UInt64
  totalBlocks : UInt64
  curBlocks : UInt64
  serverId : UInt64

namespace SpaceManager

/-- The start of a region, moved up to the next block boundary. -/
def alignedStart (spaceStart blockSize : UInt64) : UInt64 :=
  let blockMask := blockSize - 1
  if blockMask &&& spaceStart ≠ 0 then
    (spaceStart + blockSize) &&& ~~~blockMask
  else
    spaceStart

/-- {lit}`SpaceManager::SpaceManager(space_start, space_end, block_size, server_id)` -/
def make (spaceStart spaceEnd blockSize serverId : UInt64) : SpaceManager :=
  let start := alignedStart spaceStart blockSize
  let totalBytes := spaceEnd - start + 1
  let totalBlocks := totalBytes / blockSize
  { inusedBlocks := ∅
    freeList := MinHeap.ofList (Word.iota totalBlocks.toNat 0)
    spaceLock := false
    spaceStart := start
    spaceEnd := spaceEnd
    totalBytes := totalBytes
    blockSize := blockSize
    totalBlocks := totalBlocks
    curBlocks := 0
    serverId := serverId }

/-- Move the top of the free list, which is {lit}`blockNr`, to the blocks in use. -/
def useBlock (sm : SpaceManager) (blockNr : UInt64) : SpaceManager :=
  { sm with
    freeList := sm.freeList.pop
    inusedBlocks := insert blockNr sm.inusedBlocks
    curBlocks := sm.curBlocks + 1 }

def takeBlock (sm : SpaceManager) : Except Fault (UInt64 × SpaceManager) := do
  let blockNr ← top sm.freeList
  pure (blockNr, sm.useBlock blockNr)

def allocateOneBlock (sm : SpaceManager) : Except Fault (UInt64 × SpaceManager) := do
  let _ ← lock sm.spaceLock
  let (blockNr, sm) ← sm.takeBlock
  pure (blockNr, { sm with spaceLock := false })

/-- The loop of {lit}`AllocateSpace`. -/
def takeBlocks : Nat -> SpaceManager -> Except Fault (List UInt64 × SpaceManager)
  | 0, sm => pure ([], sm)
  | n + 1, sm => do
      let (blockNr, sm) ← sm.takeBlock
      let (res, sm) ← takeBlocks n sm
      pure (blockNr :: res, sm)

def allocateSpace (sm : SpaceManager) (length : UInt64) :
    Except Fault (List UInt64 × SpaceManager) := do
  let _ ← lock sm.spaceLock
  let toAllocate ← divide (length + sm.blockSize - 1) sm.blockSize
  if toAllocate > sm.totalBlocks - sm.curBlocks then
    pure ([], { sm with spaceLock := false })
  else
    let (res, sm) ← takeBlocks toAllocate.toNat sm
    pure (res, { sm with spaceLock := false })

/-- Give one block back. -/
def returnBlock (sm : SpaceManager) (blockNr : UInt64) : SpaceManager :=
  { sm with
    freeList := sm.freeList.push blockNr
    inusedBlocks := sm.inusedBlocks.erase blockNr
    curBlocks := sm.curBlocks - 1 }

/-- Give back the blocks of a block list that this manager's node holds. -/
def returnBlocks (sm : SpaceManager) (blocks : List FileBlockInfo) : SpaceManager :=
  blocks.foldl
    (fun sm info =>
      if info.serverId ≠ sm.serverId then sm else sm.returnBlock info.blockNr)
    sm

def reclaimInodeSpace (sm : SpaceManager) (inode : Option Inode) :
    Except Fault (Bool × SpaceManager) := do
  -- A null inode is reported, but used all the same.
  let _ ← lock sm.spaceLock
  let inode ← deref inode
  let sm := sm.returnBlocks inode.blockInfoList
  pure (true, { sm with spaceLock := false })

def reclaimSpace (sm : SpaceManager) (blockList : List UInt64) :
    Except Fault (Bool × SpaceManager) := do
  let _ ← lock sm.spaceLock
  let sm := blockList.foldl returnBlock sm
  pure (true, { sm with spaceLock := false })

/-- {lit}`ResetSpaceRange`, which leaves the blocks in use and their count as they are -/
def resetSpaceRange (sm : SpaceManager) (startAddr length : UInt64) : SpaceManager :=
  let spaceEnd := startAddr + length - 1
  let start := alignedStart startAddr sm.blockSize
  let totalBytes := spaceEnd - start + 1
  let totalBlocks := totalBytes / sm.blockSize
  { sm with
    freeList := MinHeap.ofList (Word.iota totalBlocks.toNat 0)
    spaceStart := start
    spaceEnd := spaceEnd
    totalBytes := totalBytes
    totalBlocks := totalBlocks }

/-!
# Taking and giving back
-/

section Returned

variable {sm : SpaceManager} {blockNr : UInt64}

/-- Giving back the block just taken leaves the manager as it was. -/
theorem returnBlock_useBlock (htop : sm.freeList.top? = some blockNr)
    (hunused : blockNr ∉ sm.inusedBlocks) : (sm.useBlock blockNr).returnBlock blockNr = sm := by
  unfold useBlock returnBlock
  rw [MinHeap.push_pop htop, Finset.erase_insert hunused, UInt64.add_sub_cancel]

theorem returnBlock_comm (sm : SpaceManager) (n n' : UInt64) :
    (sm.returnBlock n).returnBlock n' = (sm.returnBlock n').returnBlock n := by
  unfold returnBlock
  rw [MinHeap.push_comm, Finset.erase_right_comm]

theorem returnBlocks_cons (sm : SpaceManager) (info : FileBlockInfo)
    (blocks : List FileBlockInfo) :
    sm.returnBlocks (info :: blocks) =
      if info.serverId ≠ sm.serverId then sm.returnBlocks blocks
      else (sm.returnBlock info.blockNr).returnBlocks blocks := by
  show returnBlocks (if _ then _ else _) blocks = _
  split
  · rfl
  · rfl

end Returned

end SpaceManager
end Fs
end SpongeBob
