import SpongeBob.Metadata.Server

/-!
# The client

A read or a write asks the metadata server for the extents of the range and then
moves the bytes of each extent between the user's buffer and the memory of its node.
A remote transfer copies as many bytes as it is told to, between a local address and
an offset into the region that the node registered.
-/

namespace SpongeBob
namespace Client

open Foundation
open Fs
open Metadata

/-- The bytes of the registered regions, by node and offset. -/
abbrev Memory := UInt16 -> Nat -> UInt8

/-- The bytes of a user's buffer. -/
abbrev Buffer := Nat -> UInt8

/-- The metadata server and the memory of the storage nodes. -/
structure Cluster where
  server : MetadataServiceImpl
  memory : Memory

/-!
# Remote transfers
-/

/-- Copy from the buffer, starting at a local address in it, to a node. -/
def remoteWrite (bufferSend : Buffer) (start : Nat) (nodeID : UInt16)
    (bufferReceive size : UInt64) (memory : Memory) : Memory :=
  fun node addr =>
    if node = nodeID ∧ bufferReceive.toNat ≤ addr ∧
        addr < bufferReceive.toNat + size.toNat then
      bufferSend (start + (addr - bufferReceive.toNat))
    else memory node addr

/-- Copy from a node to the buffer, starting at a local address in it. -/
def remoteRead (start : Nat) (nodeID : UInt16) (bufferReceive size : UInt64)
    (memory : Memory) (bufferSend : Buffer) : Buffer :=
  fun k =>
    if start ≤ k ∧ k < start + size.toNat then
      memory nodeID (bufferReceive.toNat + (k - start))
    else bufferSend k

/-!
# Reads and writes

Both loops count the bytes they have moved in {lit}`local_offset`, and both pass the
start of the user's buffer to every transfer.
-/

/-- The extents and the byte count that {lit}`MetadataClient` takes from a reply. -/
def blockInfoList : Reply -> List Extent × UInt64
  | Reply.readFile Status.ok blockInfo bytesRead => (blockInfo, bytesRead)
  | Reply.writeFile Status.ok blockInfo bytesWrite => (blockInfo, bytesWrite)
  | _ => ([], 0)

def writeLoop (userBuf : Buffer) : List Extent -> UInt64 -> Memory -> Memory
  | [], _, memory => memory
  | block :: rest, localOffset, memory =>
      writeLoop userBuf rest (localOffset + block.length)
        (remoteWrite userBuf 0 block.serverid.toUInt16 block.memOffset block.length memory)

def readLoop (memory : Memory) : List Extent -> UInt64 -> Buffer -> Buffer
  | [], _, userBuf => userBuf
  | block :: rest, localOffset, userBuf =>
      readLoop memory rest (localOffset + block.length)
        (remoteRead 0 block.serverid.toUInt16 block.memOffset block.length memory userBuf)

def write (hash : String -> UInt64) (rands : Nat -> Nat) (c : Cluster)
    (filename : String) (userBuf : Buffer) (offset length : UInt64) :
    Except Fault (Int × Cluster) := do
  let (reply, server) ← c.server.writeFile hash rands filename offset length
  let (blocks, bytesWrite) := blockInfoList reply
  pure (Word.toInt bytesWrite,
    { server := server, memory := writeLoop userBuf blocks 0 c.memory })

def read (hash : String -> UInt64) (c : Cluster) (filename : String)
    (userBuf : Buffer) (offset length : UInt64) :
    Except Fault (Int × Buffer × Cluster) := do
  let (reply, server) ← c.server.readFile hash filename offset length
  let (blocks, bytesRead) := blockInfoList reply
  pure (Word.toInt bytesRead, readLoop c.memory blocks 0 userBuf,
    { server := server, memory := c.memory })

end Client
end SpongeBob
