import SpongeBob.Fs.SpaceRuns
import SpongeBob.Metadata.Regions

/-!
# Starting a storage server

The size of the device is a flag in mebibytes.  It is multiplied up in {lit}`int`,
widened on the way into the pool, and registered with the metadata server, which makes
a space manager of it.
-/

namespace SpongeBob
namespace Storage

open Foundation
open Fs
open Metadata
open MetadataServiceImpl

/-!
# Arithmetic on int
-/

/-- What becomes of an {lit}`int` operation whose result does not fit. -/
inductive Overflow where
  | isError
  | wraps
deriving DecidableEq, Repr

/-- An {lit}`int` operation has overflowed. -/
inductive IntError where
  | overflow
deriving DecidableEq, Repr

def intMul (o : Overflow) (x y : Int) : Except IntError Int :=
  if -2 ^ 31 ≤ x * y ∧ x * y < 2 ^ 31 then
    Except.ok (x * y)
  else
    match o with
    | Overflow.isError => Except.error IntError.overflow
    | Overflow.wraps => Except.ok (Int.bmod (x * y) (2 ^ 32))

/-!
# From the flag to the registration
-/

/-- The pool of a device that is mapped at {lit}`memoryBaseAddress`. -/
structure Pool where
  size : UInt64
  memoryBaseAddress : UInt64
deriving DecidableEq, Repr

/-- The region that {lit}`StorageServer::StorageServer` registers for a node. -/
def storageServer (nodeID : UInt16) (pool : Pool) (s : MetadataServiceImpl) :
    Reply × MetadataServiceImpl :=
  s.registerMemoryRegion nodeID.toUInt64 pool.memoryBaseAddress pool.size

/-- {lit}`main` with the value of {lit}`dax_size`, when the device is mapped at {lit}`addr` -/
def main (o : Overflow) (daxSize : Int) (addr : UInt64) (nodeID : UInt16)
    (s : MetadataServiceImpl) : Except IntError (Reply × MetadataServiceImpl) := do
  let kibibytes ← intMul o daxSize 1024
  let bytes ← intMul o kibibytes 1024
  pure (storageServer nodeID ⟨UInt64.ofInt bytes, addr⟩ s)

/--
The metadata server has a manager for the node, made for exactly {lit}`daxSize` mebibytes
from {lit}`addr` on, that offers all their blocks, or all but one if {lit}`addr` is not
aligned.
-/
def OffersDevice (daxSize : Int) (addr : UInt64) (nodeID : UInt16) (s : MetadataServiceImpl) :
    Prop :=
  exists sm size, s.manager? (Word.toInt nodeID.toUInt64) = some sm ∧
    sm = SpaceManager.make addr (addr + size - 1) fileBlockSize nodeID.toUInt64 ∧
    (size.toNat : Int) = daxSize * 2 ^ 20 ∧
    ((sm.freeList.elems.length : Int) = daxSize ∨
      (sm.freeList.elems.length : Int) + 1 = daxSize) ∧
    (addr.toNat % 2 ^ 20 = 0 -> (sm.freeList.elems.length : Int) = daxSize)

/-- The server starts, and its device is offered. -/
def ReachesAllocator (o : Overflow) (daxSize : Int) (addr : UInt64) (nodeID : UInt16)
    (s : MetadataServiceImpl) : Prop :=
  exists reply s', main o daxSize addr nodeID s = Except.ok (reply, s') ∧
    OffersDevice daxSize addr nodeID s'

variable {o : Overflow} {daxSize : Int} {addr : UInt64} {nodeID : UInt16}
variable {s : MetadataServiceImpl}

/-!
# Devices that fit
-/

theorem intMul_of_fits {x y : Int} (hlow : -2 ^ 31 ≤ x * y) (hhigh : x * y < 2 ^ 31) :
    intMul o x y = Except.ok (x * y) :=
  if_pos ⟨hlow, hhigh⟩

/-- A product that is computed always fits. -/
theorem intMul_range {x y z : Int} (hmul : intMul o x y = Except.ok z) :
    -2 ^ 31 ≤ z ∧ z < 2 ^ 31 := by
  unfold intMul at hmul
  split at hmul
  · rename_i hfits
    cases hmul
    exact hfits
  · cases o with
    | isError => cases hmul
    | wraps =>
        cases hmul
        rw [Int.bmod_def]
        split <;> omega

/-- A size below 2 GiB is passed on as it is. -/
theorem main_of_small (hpos : 0 < daxSize) (hsmall : daxSize < 2048) :
    main o daxSize addr nodeID s =
      Except.ok (storageServer nodeID ⟨UInt64.ofInt (daxSize * 2 ^ 20), addr⟩ s) := by
  have hkib : intMul o daxSize 1024 = Except.ok (daxSize * 1024) :=
    intMul_of_fits (by omega) (by omega)
  have hbytes : intMul o (daxSize * 1024) 1024 = Except.ok (daxSize * 1024 * 1024) :=
    intMul_of_fits (by omega) (by omega)
  have hmib : daxSize * 1024 * 1024 = daxSize * 2 ^ 20 := by omega
  unfold main
  rw [hkib, ok_bind, hbytes, ok_bind, hmib]
  rfl

/-- Whatever the size, what is registered for the node is one of 32 bits. -/
theorem main_cases {reply : Reply} {s' : MetadataServiceImpl}
    (hmain : main o daxSize addr nodeID s = Except.ok (reply, s')) :
    exists bytes : Int, -2 ^ 31 ≤ bytes ∧ bytes < 2 ^ 31 ∧
      s' = (s.registerMemoryRegion nodeID.toUInt64 addr (UInt64.ofInt bytes)).2 := by
  rcases bind_eq_ok.mp hmain with ⟨kibibytes, _, hrest⟩
  rcases bind_eq_ok.mp hrest with ⟨bytes, hbytes, hpure⟩
  cases hpure
  have hrange := intMul_range hbytes
  exact ⟨bytes, hrange.left, hrange.right, rfl⟩

theorem manager?_registered (addr size : UInt64) :
    (s.registerMemoryRegion nodeID.toUInt64 addr size).2.manager?
        (Word.toInt nodeID.toUInt64) =
      some (SpaceManager.make addr (addr + size - 1) fileBlockSize nodeID.toUInt64) := by
  rw [manager?_register, if_pos rfl]

/-- A region of whole mebibytes is offered but for a block that alignment costs. -/
theorem offered_blocks {size : UInt64} (hpos : 0 < daxSize)
    (hsize : (size.toNat : Int) = daxSize * 2 ^ 20)
    (hinside : addr.toNat + size.toNat ≤ 2 ^ 64) {sm : SpaceManager}
    (hsm : sm = SpaceManager.make addr (addr + size - 1) fileBlockSize nodeID.toUInt64) :
    ((sm.freeList.elems.length : Int) = daxSize ∨
        (sm.freeList.elems.length : Int) + 1 = daxSize) ∧
      (addr.toNat % 2 ^ 20 = 0 -> (sm.freeList.elems.length : Int) = daxSize) := by
  have hbooked : sm.Booked := by
    rw [hsm]
    exact SpaceManager.booked_make _ _ _ _
  have hcount := hbooked.count
  have hunused : sm.inusedBlocks.card = 0 := by
    rw [hsm]
    rfl
  have hvalid : (Region.mk nodeID.toUInt64 addr size).Valid := by
    constructor
    · show 2 ^ 20 ≤ size.toNat
      omega
    · exact hinside
  have htotal := toNat_totalBlocks hvalid
  have hsame : (Region.mk nodeID.toUInt64 addr size).manager = sm := hsm.symm
  rw [hsame] at htotal
  dsimp only at htotal
  omega

/-!
# Every size
-/

/-- A size that reaches the allocator is one that {lit}`int` can hold in bytes. -/
theorem small_of_reaches (hpos : 0 < daxSize) (hint : daxSize < 2 ^ 31)
    (h : ReachesAllocator o daxSize addr nodeID s) : daxSize < 2048 := by
  rcases h with ⟨reply, s', hmain, sm, size, hsm, hmake, hsize, _, _⟩
  rcases main_cases hmain with ⟨bytes, hlow, hhigh, rfl⟩
  rw [manager?_registered] at hsm
  -- The manager knows the end of its region, so its size is the one registered.
  have hend : addr + UInt64.ofInt bytes - 1 = addr + size - 1 :=
    congrArg SpaceManager.spaceEnd ((Option.some.inj hsm).trans hmake)
  have hsame : UInt64.ofInt bytes = size :=
    (UInt64.add_right_inj addr).mp ((UInt64.sub_left_inj 1).mp hend)
  have hbytes := Word.toNat_ofInt bytes
  rw [hsame] at hbytes
  omega

/-- The size of a device reaches the allocator exactly if it is below 2 GiB. -/
theorem reachesAllocator_iff_small (o : Overflow) (nodeID : UInt16) (s : MetadataServiceImpl)
    (hpos : 0 < daxSize) (hint : daxSize < 2 ^ 31)
    (hinside : addr.toNat + daxSize * 2 ^ 20 ≤ 2 ^ 64) :
    ReachesAllocator o daxSize addr nodeID s <-> daxSize < 2048 := by
  constructor
  · intro h
    exact small_of_reaches hpos hint h
  · intro hsmall
    have hsize : ((UInt64.ofInt (daxSize * 2 ^ 20)).toNat : Int) = daxSize * 2 ^ 20 := by
      rw [Word.toNat_ofInt]
      omega
    have hinside' : addr.toNat + (UInt64.ofInt (daxSize * 2 ^ 20)).toNat ≤ 2 ^ 64 := by
      omega
    exact ⟨_, _, main_of_small hpos hsmall, _, UInt64.ofInt (daxSize * 2 ^ 20),
      manager?_registered _ _, rfl, hsize, offered_blocks hpos hsize hinside' rfl⟩

theorem reachesAllocator_default :
    ReachesAllocator Overflow.isError 10 4096 1 MetadataServiceImpl.init :=
  (reachesAllocator_iff_small Overflow.isError 1 MetadataServiceImpl.init (by decide)
    (by decide) (by decide)).mpr (by decide)

/-- A device of 4 GiB is an error, or registered with no bytes at all. -/
theorem not_reachesAllocator_fourGiB :
    main Overflow.isError 4096 0 1 MetadataServiceImpl.init = Except.error IntError.overflow ∧
      main Overflow.wraps 4096 0 1 MetadataServiceImpl.init =
        Except.ok (MetadataServiceImpl.init.registerMemoryRegion 1 0 0) ∧
      forall o, ¬ ReachesAllocator o 4096 0 1 MetadataServiceImpl.init := by
  refine ⟨rfl, rfl, ?_⟩
  intro o h
  have hsmall : (4096 : Int) < 2048 := small_of_reaches (by decide) (by decide) h
  exact absurd hsmall (by decide)

end Storage
end SpongeBob
