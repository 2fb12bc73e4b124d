import SpongeBob.Client.Blockwise
import SpongeBob.Client.TransferErrors
import SpongeBob.Net.ChunkedCopy

/-!
# The client on the network card

The loops of a read and a write copy whole extents between the user's buffer and the
nodes.  Here they run on the machine with its staging buffer and its queue pairs, and
when all operations succeed they do the same.  An extent fits the staging buffer, so
it takes one operation on the first data queue pair; the other workers are never used.
-/

namespace SpongeBob
namespace Client
namespace FullStack

open Foundation
open Foundation.Bytes (InRange)
open Fs
open Metadata
open Placement
open Net
open Net.Completion
open Net.Transfer
open Net.Shares
open TransferErrors (transferBlocks transferReply)

/-!
# Two views of the memories
-/

/-- The regions of the nodes hold these bytes. -/
def Mirrors (s : Socket) (m : Machine) (memory : Client.Memory) : Prop :=
  forall node addr, addr < 2 ^ 64 ->
    m.remote node (UInt64.ofNat addr + s.registeredMemory node) = memory node addr

/-- The extent fits the staging buffer and the buffer of the user, and does not wrap. -/
structure Fits (n : Nat) (block : Extent) : Prop where
  pool : block.length.toNat ≤ poolBytes
  buffer : block.length.toNat ≤ n
  inside : block.memOffset.toNat + block.length.toNat ≤ 2 ^ 64

section Transfers

variable {s : Socket} {device : Device} {m : Machine} {memory : Client.Memory} {buf : Buffer}
  {userBuf : UInt64} {n : Nat} {block : Extent}

/-!
# Single extents
-/

/-- Every operation on the first data queue pair of every node succeeds. -/
def AllSucceed (device : Device) : Prop :=
  forall node k, (device (node, 1) k).Succeeds

end Transfers

/-!
# Whole operations
-/

/-- {lit}`Client::read` and {lit}`Client::write` after the reply, on the machine. -/
def transfer (s : Socket) (device : Device) (direction : Direction) (userBuf : UInt64)
    (reply : Reply) (m : Machine) : Option (Int × Machine) :=
  match direction with
  | Direction.read => TransferErrors.read s device userBuf reply m
  | Direction.write => TransferErrors.write s device userBuf reply m

def Direction.opcode : Direction -> Opcode
  | Direction.read => Opcode.rdmaRead
  | Direction.write => Opcode.rdmaWrite

end FullStack
end Client
end SpongeBob
