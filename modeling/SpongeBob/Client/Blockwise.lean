import SpongeBob.Client.RoundTrip
import SpongeBob.Client.Store
import SpongeBob.Metadata.Bounds

/-!
# Ranges of several blocks

Every transfer starts at the first byte of the user's buffer, so a byte of a range goes
with the byte of the buffer that is as far from its start as the byte is from the start
of its extent.  This says what a whole write does to the store of bytes, and what a
whole read brings back, for ranges of any length.
-/

namespace SpongeBob
namespace Client

open Foundation
open Fs
open Metadata
open MetadataServiceImpl
open Placement

/-- The index in the user's buffer of the byte at a position of a range. -/
def bufferIndex (offset position : Nat) : Nat :=
  position - max offset (position / 2 ^ 20 * 2 ^ 20)

/-- What a whole write adds to the store. -/
def Operation.stored (hash : String -> UInt64) (op : Operation) (userBuf : Buffer) : Store :=
  fun p =>
    if p.1 = hash op.filename ∧ op.offset.toNat ≤ p.2 ∧
        p.2 < op.offset.toNat + op.length.toNat then
      some (userBuf (bufferIndex op.offset.toNat p.2))
    else none

section Extents

variable {blocks : List FileBlockInfo} {offset pos buf len : Nat} {e : Extent}

end Extents

variable {hash : String -> UInt64} {s : MetadataServiceImpl}

end Client
end SpongeBob
