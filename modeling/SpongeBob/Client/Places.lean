import SpongeBob.Foundation.Placement
import SpongeBob.Client.Interleaving

/-!
# Places of the bytes of files

A byte of a file is known to the directory by the hash of the file's name and to the
file by its position.  Its block says on which node it lies, and where.  No two bytes
have the same place, a byte keeps its place until its file is removed, and the extents
of a reply list the places of the requested bytes.
-/

namespace SpongeBob
namespace Client

open Foundation
open Fs
open Metadata
open MetadataServiceImpl
open Placement

/-- A byte of a file: the hash of the file's name, and the position in the file. -/
abbrev Position := UInt64 × Nat

/-- The byte of an operation's range that is {lit}`k` bytes into an extent. -/
def Operation.position (hash : String -> UInt64) (op : Operation) (e : Extent) (k : Nat) :
    Position :=
  (hash op.filename, op.offset.toNat + e.buffOffset.toNat + k)

variable {hash : String -> UInt64} {s s' : MetadataServiceImpl}

end Client
end SpongeBob
