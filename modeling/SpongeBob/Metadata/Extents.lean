import SpongeBob.Fs.SpaceManager

/-!
# Cutting a byte range into extents

A reply to a read or a write lists the extents of the requested range: an
unaligned head, whole blocks, and a tail.  The two handlers run the same three
phases, and the write also records how much of each block it covers.
-/

namespace SpongeBob
namespace Metadata

open Foundation
open Fs

/-- The message {lit}`FileBlockInfo`: one extent of a reply. -/
structure Extent where
  blockIdx : UInt64
  serverid : UInt64
  memOffset : UInt64
  length : UInt64
  buffOffset : UInt64
deriving DecidableEq, Repr

/-- The locals of the extent loops: what is left of the range and the reply so far. -/
structure Cursor where
  toTransfer : UInt64
  buffOffset : UInt64
  startBlock : UInt64
  reply : List Extent
deriving DecidableEq, Repr

/-- {lit}`InitBlockInfo` -/
def initBlockInfo (blockIdx serverId memOffset length buffOffset : UInt64) : Extent where
  blockIdx := blockIdx
  serverid := serverId
  memOffset := memOffset
  length := length
  buffOffset := buffOffset

/-- Add an extent to the reply and go on to the next block. -/
def Cursor.advance (c : Cursor) (e : Extent) : Cursor where
  toTransfer := c.toTransfer - e.length
  buffOffset := c.buffOffset + e.length
  startBlock := c.startBlock + 1
  reply := c.reply ++ [e]

/-- The extent for the part of the first block after an unaligned offset. -/
def headExtent (offset : UInt64) (c : Cursor) (info : FileBlockInfo) : Extent :=
  let innerOffset := offset &&& fileBlockMask
  initBlockInfo c.startBlock info.serverId (info.startAddr + innerOffset)
    (min (fileBlockSize - innerOffset) c.toTransfer) c.buffOffset

def blockExtent (c : Cursor) (info : FileBlockInfo) : Extent :=
  initBlockInfo c.startBlock info.serverId info.startAddr fileBlockSize c.buffOffset

def tailExtent (c : Cursor) (info : FileBlockInfo) : Extent :=
  initBlockInfo c.startBlock info.serverId info.startAddr c.toTransfer c.buffOffset

theorem fileBlockSize_toNat : fileBlockSize.toNat = 2 ^ 20 := rfl

theorem toNat_sub_fileBlockSize {x : UInt64} (hx : fileBlockSize ≤ x) :
    (x - fileBlockSize).toNat = x.toNat - 2 ^ 20 :=
  UInt64.toNat_sub_of_le x fileBlockSize hx

theorem toNat_sub_fileBlockSize_lt {x : UInt64} (hx : fileBlockSize ≤ x) :
    (x - fileBlockSize).toNat < x.toNat := by
  have hle := UInt64.le_iff_toNat_le.mp hx
  rw [fileBlockSize_toNat] at hle
  rw [toNat_sub_fileBlockSize hx]
  omega

/-!
# Reading
-/

/-- First unaligned block. -/
def readHead (inode : Inode) (startOffset : UInt64) (c : Cursor) : Except Fault Cursor :=
  if startOffset &&& fileBlockMask ≠ 0 then do
    let info ← inode.getBlockInfo c.startBlock
    pure (c.advance (headExtent startOffset c info))
  else
    pure c

def readBlocks (inode : Inode) (c : Cursor) : Except Fault Cursor :=
  if _hlen : fileBlockSize ≤ c.toTransfer then do
    let info ← inode.getBlockInfo c.startBlock
    readBlocks inode (c.advance (blockExtent c info))
  else
    pure c
termination_by c.toTransfer.toNat
decreasing_by
  exact toNat_sub_fileBlockSize_lt _hlen

def readTail (inode : Inode) (c : Cursor) : Except Fault Cursor :=
  if c.toTransfer ≠ 0 then do
    let info ← inode.getBlockInfo c.startBlock
    pure
      { toTransfer := 0
        buffOffset := c.buffOffset + fileBlockSize
        startBlock := c.startBlock
        reply := c.reply ++ [tailExtent c info] }
  else
    pure c

/-!
# Writing

The three phases record the written length of their blocks by three rules: the
head adds to it, a whole block sets it to the block size, the tail sets it to
what is left.
-/

def writeHead (inode : Inode) (startOffset : UInt64) (c : Cursor) :
    Except Fault (Inode × Cursor) :=
  if startOffset &&& fileBlockMask ≠ 0 then do
    let info ← inode.getBlockInfo c.startBlock
    let e := headExtent startOffset c info
    let inode ← inode.changeFileBlockInfoLength c.startBlock (info.length + e.length)
    pure (inode, c.advance e)
  else
    pure (inode, c)

def writeBlocks (inode : Inode) (c : Cursor) : Except Fault (Inode × Cursor) :=
  if _hlen : fileBlockSize ≤ c.toTransfer then do
    let info ← inode.getBlockInfo c.startBlock
    let inode ← inode.changeFileBlockInfoLength c.startBlock fileBlockSize
    writeBlocks inode (c.advance (blockExtent c info))
  else
    pure (inode, c)
termination_by c.toTransfer.toNat
decreasing_by
  exact toNat_sub_fileBlockSize_lt _hlen

def writeTail (inode : Inode) (c : Cursor) : Except Fault (Inode × Cursor) :=
  if c.toTransfer ≠ 0 then do
    let info ← inode.getBlockInfo c.startBlock
    let inode ← inode.changeFileBlockInfoLength c.startBlock c.toTransfer
    pure (inode, { c with toTransfer := 0, reply := c.reply ++ [tailExtent c info] })
  else
    pure (inode, c)

/-!
# The phases in sequence
-/

/-- The locals with which both handlers enter the three phases. -/
def Cursor.start (offset length : UInt64) : Cursor where
  toTransfer := length
  buffOffset := 0
  startBlock := offset / fileBlockSize
  reply := []

def readExtents (inode : Inode) (offset length : UInt64) : Except Fault Cursor := do
  let c ← readHead inode offset (Cursor.start offset length)
  let c ← readBlocks inode c
  readTail inode c

def writeExtents (inode : Inode) (offset length : UInt64) :
    Except Fault (Inode × Cursor) := do
  let (inode, c) ← writeHead inode offset (Cursor.start offset length)
  let (inode, c) ← writeBlocks inode c
  writeTail inode c

end Metadata
end SpongeBob
