import SpongeBob.Client.Places

/-!
# The clients share one store of bytes

What the cluster is for: a store that keeps, for each file, the bytes that have been
written to it last.  However the steps of the clients interleave, each transfer of a
write puts bytes into this store, and each transfer of a read takes them from it, as
long as no file is removed while extents of it are under way.
-/

namespace SpongeBob
namespace Client

open Foundation
open Fs
open Metadata
open MetadataServiceImpl
open Placement

/-!
# The abstract store
-/

/-- The bytes of all files that are known from the writes so far. -/
abbrev Store := Known Position UInt8

/-- The bytes that the transfer of an extent writes. -/
def Operation.written (hash : String -> UInt64) (op : Operation) (userBuf : Buffer)
    (e : Extent) : Store :=
  fun p =>
    let start := op.offset.toNat + e.buffOffset.toNat
    if p.1 = hash op.filename ∧ start ≤ p.2 ∧ p.2 < start + e.length.toNat then
      some (userBuf (p.2 - start))
    else none

/-- The extents that a client has been given and not yet moved, with its operation. -/
def Session.awaits : Session -> List (Operation × Extent)
  | Session.replied op _ reply => (blockInfoList reply).1.map (fun e => (op, e))
  | Session.moving op _ blocks _ _ => blocks.map (fun e => (op, e))
  | _ => []

/-- No write of the run goes to a file removed since the server listed its extents. -/
def NoneStale (hash : String -> UInt64) (memory : Memory) (events : List Event) : Prop :=
  forall before client after outs s, events = before ++ Event.transfer client :: after ->
    runFrom (step hash) (System.start memory) before = Except.ok (outs, s) ->
    forall op e, (op, e) ∈ (s.sessions client).awaits -> op.direction = Direction.write ->
      Undisturbed hash client op.filename before

variable {hash : String -> UInt64} {s s' : System}

/-!
# Extents under way
-/

theorem NoneStale.of_concat {memory : Memory} {events : List Event} {event : Event}
    (h : NoneStale hash memory (events ++ [event])) : NoneStale hash memory events := by
  intro before client after outs s hsplit hbefore
  refine h before client (after ++ [event]) outs s ?_ hbefore
  rw [hsplit, List.append_assoc]
  rfl

end Client
end SpongeBob
