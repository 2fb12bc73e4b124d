import SpongeBob.Metadata.Service

/-!
# The extents of a range

For any list of blocks and any range that the blocks cover, reading and writing
cut the range into the same extents: one for each block it touches, in order,
back to back in the buffer, each byte going to its place in its block.
-/

namespace SpongeBob
namespace Metadata

open Foundation
open Fs
open MetadataServiceImpl

/-!
# What the extents of a range are
-/

/-- The number of blocks up to the end of a range. -/
def blocksUpTo (offset length : UInt64) : Nat :=
  (offset.toNat + length.toNat + (2 ^ 20 - 1)) / 2 ^ 20

/-- The range ends below 2^64 and its blocks are in the list. -/
structure Covers (blocks : List FileBlockInfo) (offset length : UInt64) : Prop where
  fits : offset.toNat + length.toNat < 2 ^ 64
  enough : blocksUpTo offset length ≤ blocks.length
  head : offset.toNat % 2 ^ 20 ≠ 0 -> offset.toNat / 2 ^ 20 < blocks.length

/-- The reply sends byte {lit}`k` of the buffer to a word address on a node. -/
def SendsByte (extents : List Extent) (k : Nat) (server addr : UInt64) : Prop :=
  exists e, e ∈ extents ∧ e.buffOffset.toNat ≤ k ∧
    k < e.buffOffset.toNat + e.length.toNat ∧ server = e.serverid ∧
    addr = e.memOffset + UInt64.ofNat (k - e.buffOffset.toNat)

/-- The extents cut {lit}`len` bytes from position {lit}`pos` of the file along its blocks. -/
structure CutsRange (blocks : List FileBlockInfo) (pos len : Nat) (extents : List Extent) :
    Prop where
  index : forall i e, extents[i]? = some e -> e.blockIdx.toNat = pos / 2 ^ 20 + i
  first : forall e, extents[0]? = some e -> e.buffOffset.toNat = 0
  next : forall i e e', extents[i]? = some e -> extents[i + 1]? = some e' ->
    e'.buffOffset.toNat = e.buffOffset.toNat + e.length.toNat
  total : (extents.map (fun e => e.length.toNat)).sum = len
  inBlock : forall e, e ∈ extents -> exists info inner,
    blocks[e.blockIdx.toNat]? = some info ∧ e.serverid = info.serverId ∧
      e.memOffset = info.startAddr + UInt64.ofNat inner ∧ inner + e.length.toNat ≤ 2 ^ 20
  bytes : forall k, k < len -> forall server addr, SendsByte extents k server addr <->
    exists info, blocks[(pos + k) / 2 ^ 20]? = some info ∧ server = info.serverId ∧
      addr = info.startAddr + UInt64.ofNat ((pos + k) % 2 ^ 20)

/-!
# Tilings cut their range
-/

section Tiles

variable {blocks : List FileBlockInfo} {pos buf len : Nat} {es : List Extent}

theorem Tiles.index (h : Tiles blocks pos buf es len) {i : Nat} {e : Extent}
    (he : es[i]? = some e) : e.blockIdx.toNat = pos / 2 ^ 20 + i := by
  induction h generalizing i with
  | nil => simp at he
  | @cons pos buf len e0 es info hinfo hidx hserver hmem hbuf hpos hfit hfull hrest ih =>
      cases i with
      | zero =>
          cases he
          exact hidx
      | succ i =>
          rw [List.getElem?_cons_succ] at he
          rcases hfull with rfl | hend
          · simp at he
          · rw [ih he]
            omega

theorem Tiles.first (h : Tiles blocks pos buf es len) {e : Extent}
    (he : es[0]? = some e) : e.buffOffset.toNat = buf := by
  cases h with
  | nil => simp at he
  | cons info hinfo hidx hserver hmem hbuf hpos hfit hfull hrest =>
      cases he
      exact hbuf

theorem Tiles.next (h : Tiles blocks pos buf es len) {i : Nat} {e e' : Extent}
    (he : es[i]? = some e) (he' : es[i + 1]? = some e') :
    e'.buffOffset.toNat = e.buffOffset.toNat + e.length.toNat := by
  induction h generalizing i with
  | nil => simp at he
  | @cons pos buf len e0 es info hinfo hidx hserver hmem hbuf hpos hfit hfull hrest ih =>
      rw [List.getElem?_cons_succ] at he'
      cases i with
      | zero =>
          cases he
          rw [hrest.first he', hbuf]
      | succ i =>
          rw [List.getElem?_cons_succ] at he
          exact ih he he'

theorem Tiles.total (h : Tiles blocks pos buf es len) :
    (es.map (fun e => e.length.toNat)).sum = len := by
  induction h with
  | nil => rfl
  | cons info hinfo hidx hserver hmem hbuf hpos hfit hfull hrest ih =>
      rw [List.map_cons, List.sum_cons, ih]

theorem Tiles.inBlock (h : Tiles blocks pos buf es len) {e : Extent} (he : e ∈ es) :
    exists info inner, blocks[e.blockIdx.toNat]? = some info ∧
      e.serverid = info.serverId ∧ e.memOffset = info.startAddr + UInt64.ofNat inner ∧
      inner + e.length.toNat ≤ 2 ^ 20 := by
  induction h with
  | nil => cases he
  | @cons pos buf len e0 es info hinfo hidx hserver hmem hbuf hpos hfit hfull hrest ih =>
      cases List.mem_cons.mp he with
      | inl heq =>
          rw [heq, hidx]
          exact ⟨info, pos % 2 ^ 20, hinfo, hserver, hmem, hfit⟩
      | inr htail => exact ih htail

/-- In word arithmetic the address of a byte needs no assumption on where blocks start. -/
theorem Tiles.sendsByte_iff (h : Tiles blocks pos buf es len) {k : Nat} (hk : buf ≤ k)
    (hk' : k < buf + len) (server addr : UInt64) :
    SendsByte es k server addr <->
      exists info, blocks[(pos + (k - buf)) / 2 ^ 20]? = some info ∧
        server = info.serverId ∧
        addr = info.startAddr + UInt64.ofNat ((pos + (k - buf)) % 2 ^ 20) := by
  rcases h.exists_extent hk hk' with
    ⟨e, info, hunique, hinfo, hserver, inner, hmem, hinner⟩
  rw [SendsByte, exists_hasByte_iff hunique
      (fun e => server = e.serverid ∧ addr = e.memOffset + UInt64.ofNat (k - e.buffOffset.toNat)),
    hserver, hmem, UInt64.add_assoc, ← UInt64.ofNat_add, ← hinner, hinfo]
  simp

theorem Tiles.cutsRange (h : Tiles blocks pos 0 es len) : CutsRange blocks pos len es where
  index := fun _ _ he => h.index he
  first := fun _ he => h.first he
  next := fun _ _ _ he he' => h.next he he'
  total := h.total
  inBlock := fun _ he => h.inBlock he
  bytes := fun k hk server addr => by
    have hiff := h.sendsByte_iff (Nat.zero_le k) (by omega) server addr
    rw [Nat.sub_zero] at hiff
    exact hiff

end Tiles

/-- Reading and writing a covered range both complete, with the same extents. -/
theorem extents_of_covers {file : Inode} {offset length : UInt64}
    (hcovers : Covers file.blockInfoList offset length) :
    exists r written c, readExtents file offset length = Except.ok r ∧
      writeExtents file offset length = Except.ok (written, c) ∧
      r.toTransfer = 0 ∧ c.toTransfer = 0 ∧ c.reply = r.reply ∧
      CutsRange file.blockInfoList offset.toNat length.toNat r.reply := by
  rcases readExtents_complete hcovers.enough with ⟨r, hread⟩
  rcases writeExtents_of_read hread with ⟨written, c, hwrite⟩
  rcases (writeExtents_spec hwrite).left with ⟨r', hread', hreply, hleft⟩
  rw [hread] at hread'
  cases hread'
  rcases readExtents_tiles hread with ⟨hzero, htiles⟩
  exact ⟨r, written, c, hread, hwrite, hzero, hleft.symm.trans hzero, hreply.symm,
    htiles.cutsRange⟩

/-- The extents of a read depend on the block list alone. -/
theorem readExtents_of_same {file file' : Inode} {offset length : UInt64} {r : Cursor}
    (hsame : file'.blockInfoList = file.blockInfoList)
    (hread : readExtents file offset length = Except.ok r) :
    readExtents file' offset length = Except.ok r := by
  refine readExtents_continues ?_ hread
  rw [Continues, hsame]

/-!
# The handlers
-/

variable {hash : String -> UInt64} {s : MetadataServiceImpl}

/-- The lookups of a handler lead from the name to the inode {lit}`file`. -/
structure Finds (hash : String -> UInt64) (s : MetadataServiceImpl) (name : String)
    (file : Inode) : Prop where
  unlocked : s.inodeTable.tableLock = false
  entry : exists root d, s.inode? rootInum = some root ∧
    root.getDentry hash name = some d ∧ s.inode? d.inum = some file

/-- What {lit}`WriteFile` does up to the end of its allocation loop. -/
def allocationStep (hash : String -> UInt64) (rands : Nat -> Nat) (s : MetadataServiceImpl)
    (root : Inode) (name : String) (offset length : UInt64) :
    Except Fault (UInt64 × MetadataServiceImpl) := do
  let s ← s.ensureFile hash root name
  let root ← deref (s.inode? rootInum)
  let dentry ← deref (root.getDentry hash name)
  let (file, s) ← s.getInode dentry.inum
  let file ← deref file
  let s ← appendBlocks dentry.inum
    (newBlocksNum file.getBlockNum (blocksNeeded offset length)) rands s
  pure (dentry.inum, s)

theorem getInode_of_unlocked (hlock : s.inodeTable.tableLock = false) {inum : UInt64}
    {inode : Inode} (hinode : s.inode? inum = some inode) :
    s.getInode inum = Except.ok (some inode, s) := by
  unfold MetadataServiceImpl.getInode
  rw [InodeTable.getInode_of_some hlock hinode]
  rfl

/-- A write is its allocation step followed by the extents. -/
theorem writeFile_eq (hash : String -> UInt64) (rands : Nat -> Nat) (name : String)
    (offset length : UInt64)
    (hlock : s.inodeTable.tableLock = false) {root : Inode}
    (hroot : s.inode? rootInum = some root) :
    s.writeFile hash rands name offset length =
      (allocationStep hash rands s root name offset length >>= fun (inum, s) => do
        let file ← deref (s.inode? inum)
        let (file, c) ← writeExtents file offset length
        pure (Reply.writeFile Status.ok c.reply (length - c.toTransfer),
          s.putInode inum (file.setSize (offset + length - c.toTransfer)))) := by
  unfold MetadataServiceImpl.writeFile allocationStep
  rw [getInode_of_unlocked hlock hroot]
  simp only [ok_bind, bind_assoc, pure_bind]

/-- A read whose clipped range is covered. -/
theorem readFile_of_covers {name : String} {file : Inode} {offset length : UInt64}
    (hfinds : Finds hash s name file)
    (hcovers : Covers file.blockInfoList offset (clipLength file.size offset length)) :
    exists r, readExtents file offset (clipLength file.size offset length) = Except.ok r ∧
      s.readFile hash name offset length = Except.ok
        (Reply.readFile Status.ok r.reply (clipLength file.size offset length), s) ∧
      CutsRange file.blockInfoList offset.toNat
        (clipLength file.size offset length).toNat r.reply := by
  rcases extents_of_covers hcovers with ⟨r, _, _, hread, _, hzero, _, _, hcuts⟩
  rcases hfinds.entry with ⟨root, d, hroot, hd, hfile⟩
  refine ⟨r, hread, ?_, hcuts⟩
  unfold MetadataServiceImpl.readFile
  rw [getInode_of_unlocked hfinds.unlocked hroot, ok_bind]
  dsimp only
  rw [hd]
  show (s.getInode d.inum >>= _) = _
  rw [getInode_of_unlocked hfinds.unlocked hfile, ok_bind]
  dsimp only
  rw [hread, ok_bind, hzero, UInt64.sub_zero]
  rfl

/-- A write whose range is covered once its allocation step is done. -/
theorem writeFile_of_covers {rands : Nat -> Nat} {name : String} {offset length : UInt64}
    (hlock : s.inodeTable.tableLock = false) {root : Inode}
    (hroot : s.inode? rootInum = some root) {inum : UInt64} {s2 : MetadataServiceImpl}
    (halloc : allocationStep hash rands s root name offset length = Except.ok (inum, s2))
    {file : Inode} (hfile : s2.inode? inum = some file)
    (hcovers : Covers file.blockInfoList offset length) :
    exists r written, readExtents file offset length = Except.ok r ∧
      SameBlocks file written ∧
      s.writeFile hash rands name offset length =
        Except.ok (Reply.writeFile Status.ok r.reply length,
          s2.putInode inum (written.setSize (offset + length))) ∧
      CutsRange file.blockInfoList offset.toNat length.toNat r.reply := by
  rcases extents_of_covers hcovers with
    ⟨r, written, c, hread, hwrite, _, hzero, hreply, hcuts⟩
  refine ⟨r, written, hread, (writeExtents_spec hwrite).right, ?_, hcuts⟩
  rw [writeFile_eq hash rands name offset length hlock hroot, halloc, ok_bind]
  dsimp only
  rw [hfile]
  show (writeExtents file offset length >>= _) = _
  rw [hwrite, ok_bind]
  dsimp only
  rw [hzero, UInt64.sub_zero, UInt64.sub_zero, hreply]
  rfl

/--
Extents cut the requested range, for every block list that covers it.  A read cuts
the clipped range along the blocks of the file, a write cuts its range along the
blocks that the file has after the allocation step, and where the two ranges and
the two block lists are the same, so are the extents.
-/
theorem extents_cut_range (hash : String -> UInt64) (s : MetadataServiceImpl)
    (name : String) (offset length : UInt64) :
    (forall file, Finds hash s name file ->
      Covers file.blockInfoList offset (clipLength file.size offset length) ->
      exists extents, s.readFile hash name offset length = Except.ok
          (Reply.readFile Status.ok extents (clipLength file.size offset length), s) ∧
        CutsRange file.blockInfoList offset.toNat
          (clipLength file.size offset length).toNat extents) ∧
    (forall rands root inum s2 file, s.inodeTable.tableLock = false ->
      s.inode? rootInum = some root ->
      allocationStep hash rands s root name offset length = Except.ok (inum, s2) ->
      s2.inode? inum = some file -> Covers file.blockInfoList offset length ->
      exists extents s', s.writeFile hash rands name offset length =
          Except.ok (Reply.writeFile Status.ok extents length, s') ∧
        CutsRange file.blockInfoList offset.toNat length.toNat extents ∧
        forall t name' file' length', Finds hash t name' file' ->
          file'.blockInfoList = file.blockInfoList ->
          clipLength file'.size offset length' = length ->
          t.readFile hash name' offset length' =
            Except.ok (Reply.readFile Status.ok extents length, t)) := by
  constructor
  · intro file hfinds hcovers
    rcases readFile_of_covers hfinds hcovers with ⟨r, _, hread, hcuts⟩
    exact ⟨r.reply, hread, hcuts⟩
  · intro rands root inum s2 file hlock hroot halloc hfile hcovers
    rcases writeFile_of_covers hlock hroot halloc hfile hcovers with
      ⟨r, written, hextents, _, hwrite, hcuts⟩
    refine ⟨r.reply, _, hwrite, hcuts, ?_⟩
    intro t name' file' length' hfinds hsame hclip
    have hcovers' : Covers file'.blockInfoList offset (clipLength file'.size offset length') := by
      rw [hsame, hclip]
      exact hcovers
    rcases readFile_of_covers hfinds hcovers' with ⟨r', hextents', hread, _⟩
    rw [hclip] at hextents' hread
    rw [readExtents_of_same hsame hextents] at hextents'
    cases hextents'
    exact hread

/-- Twenty bytes have been written; a read past their end, and a write of three blocks. -/
theorem extents_cut_range_blocks :
    exists (s : MetadataServiceImpl) (file grown : Inode) (extents extents' : List Extent)
      (s' : MetadataServiceImpl),
      Finds byCodes s "f" file ∧ Covers file.blockInfoList 5 (clipLength file.size 5 100) ∧
      s.readFile byCodes "f" 5 100 = Except.ok
        (Reply.readFile Status.ok extents (clipLength file.size 5 100), s) ∧
      Covers grown.blockInfoList 10 3000000 ∧
      s.writeFile byCodes (fun _ => 0) "f" 10 3000000 =
        Except.ok (Reply.writeFile Status.ok extents' 3000000, s') ∧
      CutsRange grown.blockInfoList 10 3000000 extents' := by
  have hpass : runPasses byCodes [(Request.registerMemoryRegion 1 0 16777216).call,
      (Request.writeFile "f" 0 20).call] (fun s =>
        passes (deref (s.inode? rootInum)) (fun root =>
          passes (deref (root.getDentry byCodes "f")) (fun d =>
            passes (deref (s.inode? d.inum)) (fun file =>
              decide (clipLength file.size 5 100 = 15 ∧ 1 ≤ file.blockInfoList.length))) &&
          passes (allocationStep byCodes (fun _ => 0) s root "f" 10 3000000) (fun result =>
            passes (deref (result.2.inode? result.1)) (fun grown =>
              decide (3 ≤ grown.blockInfoList.length))))) = true := by
    decide +kernel
  rcases reaches_of_runPasses hpass with ⟨s, hreach, htest⟩
  rcases exists_of_passes htest with ⟨root, hroot, htest⟩
  rcases (Bool.and_eq_true _ _).mp htest with ⟨hread, hwrite⟩
  rcases exists_of_passes hread with ⟨d, hd, hread⟩
  rcases exists_of_passes hread with ⟨file, hfile, hread⟩
  rcases of_decide_eq_true hread with ⟨hclip, hone⟩
  rcases exists_of_passes hwrite with ⟨⟨inum, s2⟩, halloc, hwrite⟩
  rcases exists_of_passes hwrite with ⟨grown, hgrown, hthree⟩
  have hlock := hreach.wellFormed.unlocked.table
  have hfinds : Finds byCodes s "f" file :=
    ⟨hlock, root, d, deref_eq_ok.mp hroot, deref_eq_ok.mp hd, deref_eq_ok.mp hfile⟩
  have hcovers : Covers file.blockInfoList 5 (clipLength file.size 5 100) := by
    rw [hclip]
    exact ⟨by decide, le_trans (by decide) hone, fun _ => lt_of_lt_of_le (by decide) hone⟩
  have hthree := of_decide_eq_true hthree
  have hcovers' : Covers grown.blockInfoList 10 3000000 :=
    ⟨by decide, le_trans (by decide) hthree, fun _ => lt_of_lt_of_le (by decide) hthree⟩
  rcases (extents_cut_range byCodes s "f" 5 100).left file hfinds hcovers with
    ⟨extents, hreads, _⟩
  rcases (extents_cut_range byCodes s "f" 10 3000000).right (fun _ => 0) root inum s2 grown
    hlock (deref_eq_ok.mp hroot) halloc (deref_eq_ok.mp hgrown) hcovers' with
    ⟨extents', s', hwrites, hcuts, _⟩
  exact ⟨s, file, grown, extents, extents', s', hfinds, hcovers, hreads, hcovers', hwrites,
    hcuts⟩

end Metadata
end SpongeBob
