import SpongeBob.Fuse.Spfuse

/-!
# The hosts share one store of bytes

What a mounted file system is for: the bytes that a host has written to a file are the
bytes that every host reads from it afterwards.  This goes from the upcalls through the
client and its transfers on the network card down to the memories of the storage nodes.
-/

namespace SpongeBob
namespace Fuse

open Foundation
open Foundation.Bytes (InRange)
open Foundation.Placement
open Fs
open Metadata
open Client
open Client.FullStack
open Net.Transfer

/-!
# The store and the memories
-/

/-- The buffer of an upcall is apart from the staging buffer of its host. -/
def Input.Apart (hw : Hardware) : Input -> Prop
  | Input.upcall host _ u => forall op buf, u.operation = some (op, buf) ->
      Net.Transfer.Apart (hw.socket host) 0 buf op.length
  | Input.serve _ => True

variable {hash : String -> UInt64} {hw : Hardware} {registered : UInt16 -> UInt64}
  {fs fs' : FileSystem} {store : Store}

end Fuse
end SpongeBob
