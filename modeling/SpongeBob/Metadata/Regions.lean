import SpongeBob.Metadata.Addressing
import SpongeBob.Metadata.Conservation

/-!
# Extents and registered regions

A node's blocks are counted from the block boundary at or after the start of its
region, but addressed from the start itself.  Either way every extent of a reply ends
within the length that its node registered.
-/

namespace SpongeBob
namespace Metadata

open Foundation
open Fs
open MetadataServiceImpl

variable {hash : String -> UInt64} {s s' : MetadataServiceImpl}

/-!
# The size of a region in blocks
-/

theorem toNat_and_not_mask (x : UInt64) :
    (x &&& ~~~(fileBlockSize - 1)).toNat = x.toNat / 2 ^ 20 * 2 ^ 20 := by
  have hmask : (~~~(fileBlockSize - 1)).toNat = (2 ^ 44 - 1) * 2 ^ 20 := by decide
  rw [UInt64.toNat_and, hmask]
  apply Nat.eq_of_testBit_eq
  intro i
  rw [Nat.testBit_and, Nat.testBit_mul_two_pow, Nat.testBit_mul_two_pow,
    Nat.testBit_div_two_pow, Nat.testBit_two_pow_sub_one]
  by_cases hi : 20 ≤ i
  · have hback : i - 20 + 20 = i := by omega
    by_cases hi' : i < 64
    · simp [hi, hback, show i - 20 < 44 by omega]
    · have hpow : 2 ^ 64 ≤ 2 ^ i := Nat.pow_le_pow_right (by decide) (by omega)
      have hbit : x.toNat.testBit i = false :=
        Nat.testBit_lt_two_pow (Nat.lt_of_lt_of_le x.toNat_lt hpow)
      simp [hi, hback, hbit]
  · simp [hi]

/-- The region holds at least one block and does not wrap around. -/
structure Region.Valid (r : Region) : Prop where
  block : 2 ^ 20 ≤ r.length.toNat
  inside : r.addr.toNat + r.length.toNat ≤ 2 ^ 64

instance (r : Region) : Decidable r.Valid :=
  decidable_of_iff (2 ^ 20 ≤ r.length.toNat ∧ r.addr.toNat + r.length.toNat ≤ 2 ^ 64)
    ⟨fun h => ⟨h.left, h.right⟩, fun h => ⟨h.block, h.inside⟩⟩

/-- The aligned start is the next block boundary. -/
theorem toNat_alignedStart {r : Region} (hr : r.Valid) :
    (SpaceManager.alignedStart r.addr fileBlockSize).toNat =
      (r.addr.toNat + (2 ^ 20 - 1)) / 2 ^ 20 * 2 ^ 20 := by
  have hblock := hr.block
  have hinside := hr.inside
  have hmask : (fileBlockSize - 1 &&& r.addr).toNat = r.addr.toNat % 2 ^ 20 := by
    rw [UInt64.and_comm]
    exact toNat_and_fileBlockMask r.addr
  unfold SpaceManager.alignedStart
  dsimp only
  split
  · rename_i hne
    have hpos : r.addr.toNat % 2 ^ 20 ≠ 0 := by
      intro hzero
      exact hne (UInt64.toNat_inj.mp (hmask.trans hzero))
    have hlt : r.addr.toNat + fileBlockSize.toNat < 2 ^ 64 := by
      rw [fileBlockSize_toNat]
      omega
    rw [toNat_and_not_mask, toNat_add_of_lt hlt, fileBlockSize_toNat]
    omega
  · rename_i heq
    have hzero : r.addr.toNat % 2 ^ 20 = 0 := by
      rw [← hmask, not_not.mp heq]
      rfl
    omega

theorem toNat_totalBlocks {r : Region} (hr : r.Valid) :
    r.manager.totalBlocks.toNat =
      (r.addr.toNat + r.length.toNat -
        (r.addr.toNat + (2 ^ 20 - 1)) / 2 ^ 20 * 2 ^ 20) / 2 ^ 20 := by
  have hblock := hr.block
  have hinside := hr.inside
  have haddr := r.addr.toNat_lt
  have hlength := r.length.toNat_lt
  have hstart := toNat_alignedStart hr
  have hend : (r.addr + r.length - 1).toNat = r.addr.toNat + r.length.toNat - 1 := by
    rw [UInt64.toNat_sub, UInt64.toNat_add]
    show (2 ^ 64 - 1 + (r.addr.toNat + r.length.toNat) % 2 ^ 64) % 2 ^ 64 = _
    omega
  have hbytes : (r.addr + r.length - 1 -
      SpaceManager.alignedStart r.addr fileBlockSize + 1).toNat =
        r.addr.toNat + r.length.toNat -
          (r.addr.toNat + (2 ^ 20 - 1)) / 2 ^ 20 * 2 ^ 20 := by
    rw [UInt64.toNat_add, UInt64.toNat_sub_of_le, hend, hstart]
    · show (_ - _ + 1) % 2 ^ 64 = _
      omega
    · rw [UInt64.le_iff_toNat_le, hend, hstart]
      omega
  show (_ / fileBlockSize).toNat = _
  rw [UInt64.toNat_div, fileBlockSize_toNat, hbytes]

/-- At most one block is lost to alignment. -/
theorem totalBlocks_cases {r : Region} (hr : r.Valid) :
    r.manager.totalBlocks.toNat = r.length.toNat / 2 ^ 20 ∨
      r.manager.totalBlocks.toNat + 1 = r.length.toNat / 2 ^ 20 := by
  have hblock := hr.block
  rw [toNat_totalBlocks hr]
  omega

/-!
# Extents
-/

/-- The extent lies on a registered node, within the length the node registered. -/
def InRegion (calls : List Call) (e : Extent) : Prop :=
  exists r, r ∈ registrations calls ∧ e.serverid = r.nodeid ∧
    e.memOffset.toNat + e.length.toNat ≤ r.length.toNat

/-- An extent lies within one block. -/
theorem Tiles.mem_block {blocks : List FileBlockInfo} {pos buf len : Nat}
    {es : List Extent} (htiles : Tiles blocks pos buf es len) {e : Extent} (he : e ∈ es) :
    exists info inner, info ∈ blocks ∧ e.serverid = info.serverId ∧
      e.memOffset = info.startAddr + UInt64.ofNat inner ∧ inner < 2 ^ 20 ∧
      inner + e.length.toNat ≤ 2 ^ 20 := by
  induction htiles with
  | nil => cases he
  | @cons pos buf len e' es info hinfo hidx hserver hmem hbuf hpos hfit hfull hrest ih =>
      rcases List.mem_cons.mp he with rfl | htail
      · exact ⟨info, pos % 2 ^ 20, List.mem_of_getElem? hinfo, hserver, hmem,
          Nat.mod_lt _ (by decide), hfit⟩
      · exact ih htail

theorem inRegion_of_tiles {calls : List Call} (hreach : Reaches hash calls s)
    (honce : RegistersOnce calls) (hvalid : forall r, r ∈ registrations calls -> r.Valid)
    {i : UInt64} {file : Inode} (hfile : s.inode? i = some file) {pos buf len : Nat}
    {es : List Extent} (htiles : Tiles file.blockInfoList pos buf es len) {e : Extent}
    (he : e ∈ es) : InRegion calls e := by
  rcases htiles.mem_block he with ⟨info, inner, hinfo, hserver, hmem, hinner, hfit⟩
  rcases hreach.block_placed honce hfile hinfo with
    ⟨key, sm, hsm, hconserved, hnode, hlt, hstart⟩
  rcases hreach.registered.region key sm hsm with ⟨r, hr, _, hid, htotal⟩
  have hoffset : e.memOffset.toNat = info.blockNr.toNat * 2 ^ 20 + inner := by
    have hsmall : (UInt64.ofNat inner).toNat = inner :=
      UInt64.toNat_ofNat_of_lt' (show inner < 2 ^ 64 by omega)
    have hbound := hconserved.totalBlocks
    rw [hmem, toNat_add_of_lt (by omega), hstart, hsmall]
  refine ⟨r, hr, hserver.trans (hnode.trans hid), ?_⟩
  rw [htotal] at hlt
  have hcases := totalBlocks_cases (hvalid r hr)
  omega

/-!
# Replies
-/

theorem registrations_write (calls : List Call) (name : String) (offset length : UInt64)
    (rands : Nat -> Nat) :
    registrations (calls ++ [⟨Request.writeFile name offset length, rands⟩]) =
      registrations calls := by
  rw [registrations_concat]
  exact List.append_nil _

/--
In a run in which every node registers at most once, with a valid region, each extent
of a reply to a write or a read ends within the length its node registered, and a
node has as many blocks as fit in that length, or one fewer.
-/
theorem extents_in_regions {calls : List Call} (hreach : Reaches hash calls s)
    (honce : RegistersOnce calls) (hvalid : forall r, r ∈ registrations calls -> r.Valid) :
    (forall rands name offset length extents bytes s',
      s.writeFile hash rands name offset length =
        Except.ok (Reply.writeFile Status.ok extents bytes, s') ->
      forall e, e ∈ extents -> InRegion calls e) ∧
    (forall name offset length extents bytes s',
      s.readFile hash name offset length =
        Except.ok (Reply.readFile Status.ok extents bytes, s') ->
      forall e, e ∈ extents -> InRegion calls e) ∧
    forall r, r ∈ registrations calls -> exists sm,
      s.manager? (Word.toInt r.nodeid) = some sm ∧
        (sm.totalBlocks.toNat = r.length.toNat / 2 ^ 20 ∨
          sm.totalBlocks.toNat + 1 = r.length.toNat / 2 ^ 20) := by
  refine ⟨?_, ?_, ?_⟩
  · intro rands name offset length extents bytes s' hwrite e he
    have hregistrations := registrations_write calls name offset length rands
    have hreach' : Reaches hash (calls ++ [⟨Request.writeFile name offset length, rands⟩])
        s' := hreach.concat hwrite
    rcases writeFile_cases hreach.wellFormed hwrite with
      ⟨_, _, d, _, _, _, _, hwrote, hreply⟩
    cases hreply
    rcases hwrote.readExtents with ⟨r, hr, rfl⟩
    have hin := inRegion_of_tiles hreach'
      ⟨hregistrations.symm ▸ honce.once, hregistrations.symm ▸ honce.small⟩
      (hregistrations.symm ▸ hvalid)
      ((hwrote.inode?_eq d.inum).trans (if_pos rfl)) (readExtents_tiles hr).right he
    rw [InRegion, hregistrations] at hin
    exact hin
  · intro name offset length extents bytes s' hread e he
    rcases readFile_cases hreach.wellFormed hread with
      ⟨d, file, c, _, hfile, hextents, hreply, _⟩
    cases hreply
    exact inRegion_of_tiles hreach honce hvalid hfile (readExtents_tiles hextents).right he
  · intro r hr
    rcases hreach.registered.manager r hr with ⟨sm, hsm⟩
    rcases hreach.registered.region _ sm hsm with ⟨r', hr', hkey, _, htotal⟩
    have hsame := honce.eq_of_nodeid hr hr' (honce.nodeid_inj hr hr' hkey)
    refine ⟨sm, hsm, ?_⟩
    rw [htotal, ← hsame]
    exact totalBlocks_cases (hvalid r hr)

theorem extents_in_regions_work :
    exists (s s' : MetadataServiceImpl) (extents : List Extent),
      Reaches byCodes workCalls s ∧
      s.writeFile byCodes (fun _ => 0) "a" 5 3000000 =
        Except.ok (Reply.writeFile Status.ok extents 3000000, s') ∧ extents ≠ [] ∧
      forall e, e ∈ extents -> InRegion workCalls e := by
  have hpass : runPasses byCodes workCalls (fun s =>
      passes (s.writeFile byCodes (fun _ => 0) "a" 5 3000000) (fun result =>
        match result.1 with
        | Reply.writeFile _ extents _ => decide (extents ≠ [])
        | _ => false)) = true := by
    decide +kernel
  rcases reaches_of_runPasses hpass with ⟨s, hreach, htest⟩
  rcases exists_of_passes htest with ⟨⟨reply, s'⟩, hwrite, htest⟩
  rcases writeFile_cases hreach.wellFormed hwrite with ⟨_, _, _, _, _, _, extents, _, rfl⟩
  have hin := extents_in_regions hreach ⟨by decide +kernel, by decide +kernel⟩
    (by decide +kernel)
  exact ⟨s, s', extents, hreach, hwrite, of_decide_eq_true htest,
    hin.left _ _ _ _ _ _ _ hwrite⟩

end Metadata
end SpongeBob
