import SpongeBob.Foundation.Run
import SpongeBob.Metadata.Extents

/-!
# Extents tile the requested range

The phases that answer a read and a write look only at where the blocks of the
file are.  They give the same extents on any file whose block list continues the
first one, and the extents cover the range piece by piece, each piece inside one
block.
-/

namespace SpongeBob
namespace Metadata

open Foundation
open Fs

/-!
# Where blocks are
-/

/-- Where a block is: everything about it but the recorded length. -/
def place (info : FileBlockInfo) : UInt64 × UInt64 × UInt64 :=
  (info.serverId, info.startAddr, info.blockNr)

/-- The block list of the second inode continues the places of the first. -/
def Continues (file file' : Inode) : Prop :=
  file.blockInfoList.map place <+: file'.blockInfoList.map place

/-- The inodes differ at most in their size and in the recorded lengths of blocks. -/
structure SameBlocks (file file' : Inode) : Prop where
  inum : file'.inum = file.inum
  type : file'.type = file.type
  children : file'.children = file.children
  places : file'.blockInfoList.map place = file.blockInfoList.map place

theorem Continues.trans {file file' file'' : Inode} (h : Continues file file')
    (h' : Continues file' file'') : Continues file file'' :=
  List.IsPrefix.trans h h'

theorem SameBlocks.refl (file : Inode) : SameBlocks file file :=
  ⟨rfl, rfl, rfl, rfl⟩

theorem SameBlocks.trans {file file' file'' : Inode} (h : SameBlocks file file')
    (h' : SameBlocks file' file'') : SameBlocks file file'' :=
  ⟨h'.inum.trans h.inum, h'.type.trans h.type, h'.children.trans h.children,
    h'.places.trans h.places⟩

theorem SameBlocks.continues {file file' : Inode} (h : SameBlocks file file') :
    Continues file file' := by
  rw [Continues, h.places]

theorem SameBlocks.continues_back {file file' : Inode} (h : SameBlocks file file') :
    Continues file' file := by
  rw [Continues, h.places]

theorem getBlockInfo_eq_ok {file : Inode} {i : UInt64} {info : FileBlockInfo} :
    file.getBlockInfo i = Except.ok info <->
      file.blockInfoList[i.toNat]? = some info := by
  unfold Inode.getBlockInfo
  cases file.blockInfoList[i.toNat]? with
  | none => simp
  | some found => simp

theorem Continues.getElem? {file file' : Inode} (h : Continues file file') {i : Nat}
    {info : FileBlockInfo} (hinfo : file.blockInfoList[i]? = some info) :
    exists info', file'.blockInfoList[i]? = some info' ∧ place info' = place info := by
  have hplace : (file.blockInfoList.map place)[i]? = some (place info) := by
    rw [List.getElem?_map, hinfo]
    rfl
  rcases h with ⟨rest, hrest⟩
  have hlt := (List.getElem?_eq_some_iff.mp hplace).choose
  have hplace' : (file'.blockInfoList.map place)[i]? = some (place info) := by
    rw [← hrest, List.getElem?_append_left hlt, hplace]
  rw [List.getElem?_map] at hplace'
  exact Option.map_eq_some_iff.mp hplace'

/-!
# Reading depends on the places only
-/

section Monotone

variable {file file' : Inode} (h : Continues file file')

include h

theorem getBlockInfo_continues {i : UInt64} {info : FileBlockInfo}
    (hinfo : file.getBlockInfo i = Except.ok info) :
    exists info', file'.getBlockInfo i = Except.ok info' ∧
      info'.serverId = info.serverId ∧ info'.startAddr = info.startAddr := by
  rcases h.getElem? (getBlockInfo_eq_ok.mp hinfo) with ⟨info', hinfo', hplace⟩
  simp only [place, Prod.mk.injEq] at hplace
  exact ⟨info', getBlockInfo_eq_ok.mpr hinfo', hplace.left, hplace.right.left⟩

theorem readHead_continues {offset : UInt64} {c c' : Cursor}
    (hread : readHead file offset c = Except.ok c') :
    readHead file' offset c = Except.ok c' := by
  unfold readHead at hread ⊢
  split at hread
  · rename_i hcond
    rcases bind_eq_ok.mp hread with ⟨info, hinfo, hpure⟩
    rcases getBlockInfo_continues h hinfo with ⟨info', hinfo', hserver, haddr⟩
    rw [if_pos hcond, hinfo', ← hpure]
    simp only [headExtent, ← hserver, ← haddr]
    rfl
  · rename_i hcond
    rw [if_neg hcond]
    exact hread

theorem readBlocks_continues {c c' : Cursor}
    (hread : readBlocks file c = Except.ok c') :
    readBlocks file' c = Except.ok c' := by
  induction c using readBlocks.induct with
  | case1 c hlen ih =>
      rw [readBlocks, dif_pos hlen] at hread ⊢
      rcases bind_eq_ok.mp hread with ⟨info, hinfo, hrest⟩
      rcases getBlockInfo_continues h hinfo with ⟨info', hinfo', hserver, haddr⟩
      have hnext := ih info hrest
      have hext : blockExtent c info' = blockExtent c info := by
        simp only [blockExtent, hserver, haddr]
      rw [← hext] at hnext
      rw [hinfo']
      exact hnext
  | case2 c hlen =>
      rw [readBlocks, dif_neg hlen] at hread ⊢
      exact hread

theorem readTail_continues {c c' : Cursor}
    (hread : readTail file c = Except.ok c') :
    readTail file' c = Except.ok c' := by
  unfold readTail at hread ⊢
  split at hread
  · rename_i hcond
    rcases bind_eq_ok.mp hread with ⟨info, hinfo, hpure⟩
    rcases getBlockInfo_continues h hinfo with ⟨info', hinfo', hserver, haddr⟩
    rw [if_pos hcond, hinfo', ← hpure]
    simp only [tailExtent, ← hserver, ← haddr]
    rfl
  · rename_i hcond
    rw [if_neg hcond]
    exact hread

/-- A longer block list answers a read that the shorter one answered, with the same extents. -/
theorem readExtents_continues {offset length : UInt64} {c : Cursor}
    (hread : readExtents file offset length = Except.ok c) :
    readExtents file' offset length = Except.ok c := by
  unfold readExtents at hread ⊢
  rcases bind_eq_ok.mp hread with ⟨c1, hhead, hrest⟩
  rcases bind_eq_ok.mp hrest with ⟨c2, hblocks, htail⟩
  rw [readHead_continues h hhead]
  show (readBlocks file' c1 >>= readTail file') = _
  rw [readBlocks_continues h hblocks]
  exact readTail_continues h htail

end Monotone

/-!
# Writing gives the extents of reading

The write phases change recorded lengths as they go, which the later rounds do
not look at.
-/

theorem changeLength_of_getBlockInfo {file : Inode} {i : UInt64} {info : FileBlockInfo}
    (hinfo : file.getBlockInfo i = Except.ok info) (length : UInt64) :
    exists file', file.changeFileBlockInfoLength i length = Except.ok file' := by
  unfold Inode.changeFileBlockInfoLength
  rw [getBlockInfo_eq_ok.mp hinfo]
  exact ⟨_, rfl⟩

theorem sameBlocks_changeLength {file file' : Inode} {i length : UInt64}
    (hchange : file.changeFileBlockInfoLength i length = Except.ok file') :
    SameBlocks file file' := by
  unfold Inode.changeFileBlockInfoLength at hchange
  cases hinfo : file.blockInfoList[i.toNat]? with
  | none =>
      rw [hinfo] at hchange
      cases hchange
  | some info =>
      rw [hinfo] at hchange
      cases hchange
      refine ⟨rfl, rfl, rfl, ?_⟩
      apply List.ext_getElem?
      intro j
      rw [List.getElem?_map, List.getElem?_map, List.getElem?_set]
      split
      · rename_i heq
        subst heq
        rw [hinfo, if_pos (List.getElem?_eq_some_iff.mp hinfo).choose]
        rfl
      · rfl

theorem writeHead_spec {file file' : Inode} {offset : UInt64} {c c' : Cursor}
    (hwrite : writeHead file offset c = Except.ok (file', c')) :
    readHead file offset c = Except.ok c' ∧ SameBlocks file file' := by
  unfold writeHead at hwrite
  unfold readHead
  split at hwrite
  · rename_i hcond
    rcases bind_eq_ok.mp hwrite with ⟨info, hinfo, hrest⟩
    rcases bind_eq_ok.mp hrest with ⟨file1, hchange, hpure⟩
    cases hpure
    rw [if_pos hcond, hinfo]
    exact ⟨rfl, sameBlocks_changeLength hchange⟩
  · rename_i hcond
    cases hwrite
    rw [if_neg hcond]
    exact ⟨rfl, SameBlocks.refl _⟩

theorem writeBlocks_spec {file file' : Inode} {c c' : Cursor}
    (hwrite : writeBlocks file c = Except.ok (file', c')) :
    readBlocks file c = Except.ok c' ∧ SameBlocks file file' := by
  induction file, c using writeBlocks.induct with
  | case1 file c hlen ih =>
      rw [writeBlocks, dif_pos hlen] at hwrite
      rcases bind_eq_ok.mp hwrite with ⟨info, hinfo, hrest⟩
      rcases bind_eq_ok.mp hrest with ⟨file1, hchange, hnext⟩
      have hsame := sameBlocks_changeLength hchange
      rcases ih info file1 hnext with ⟨hread, hsame'⟩
      rw [readBlocks, dif_pos hlen, hinfo]
      exact ⟨readBlocks_continues hsame.continues_back hread, hsame.trans hsame'⟩
  | case2 file c hlen =>
      rw [writeBlocks, dif_neg hlen] at hwrite
      cases hwrite
      rw [readBlocks, dif_neg hlen]
      exact ⟨rfl, SameBlocks.refl _⟩

/-- The tails differ in a buffer offset that nothing uses any more. -/
theorem writeTail_spec {file file' : Inode} {c c' : Cursor}
    (hwrite : writeTail file c = Except.ok (file', c')) :
    (exists r, readTail file c = Except.ok r ∧ r.reply = c'.reply ∧
      r.toTransfer = c'.toTransfer) ∧ SameBlocks file file' := by
  unfold writeTail at hwrite
  unfold readTail
  split at hwrite
  · rename_i hcond
    rcases bind_eq_ok.mp hwrite with ⟨info, hinfo, hrest⟩
    rcases bind_eq_ok.mp hrest with ⟨file1, hchange, hpure⟩
    cases hpure
    rw [if_pos hcond, hinfo]
    exact ⟨⟨_, rfl, rfl, rfl⟩, sameBlocks_changeLength hchange⟩
  · rename_i hcond
    cases hwrite
    rw [if_neg hcond]
    exact ⟨⟨_, rfl, rfl, rfl⟩, SameBlocks.refl _⟩

/-- A write that completes lists the extents a read of the same range would list. -/
theorem writeExtents_spec {file file' : Inode} {offset length : UInt64} {c' : Cursor}
    (hwrite : writeExtents file offset length = Except.ok (file', c')) :
    (exists r, readExtents file offset length = Except.ok r ∧ r.reply = c'.reply ∧
      r.toTransfer = c'.toTransfer) ∧ SameBlocks file file' := by
  unfold writeExtents at hwrite
  rcases bind_eq_ok.mp hwrite with ⟨⟨file1, c1⟩, hhead, hrest⟩
  rcases bind_eq_ok.mp hrest with ⟨⟨file2, c2⟩, hblocks, htail⟩
  rcases writeHead_spec hhead with ⟨hreadHead, hsame1⟩
  rcases writeBlocks_spec hblocks with ⟨hreadBlocks, hsame2⟩
  rcases writeTail_spec htail with ⟨⟨r, hreadTail, hreply, hleft⟩, hsame3⟩
  refine ⟨⟨r, ?_, hreply, hleft⟩, (hsame1.trans hsame2).trans hsame3⟩
  unfold readExtents
  rw [hreadHead]
  show (readBlocks file c1 >>= readTail file) = _
  rw [readBlocks_continues hsame1.continues_back hreadBlocks]
  exact readTail_continues (hsame1.trans hsame2).continues_back hreadTail

theorem writeHead_of_read {file : Inode} {offset : UInt64} {c c' : Cursor}
    (hread : readHead file offset c = Except.ok c') :
    exists file', writeHead file offset c = Except.ok (file', c') := by
  unfold readHead at hread
  unfold writeHead
  split at hread
  · rename_i hcond
    rcases bind_eq_ok.mp hread with ⟨info, hinfo, hpure⟩
    cases hpure
    rcases changeLength_of_getBlockInfo hinfo _ with ⟨file', hchange⟩
    rw [if_pos hcond]
    exact ⟨file', bind_eq_ok.mpr ⟨info, hinfo,
      bind_eq_ok.mpr ⟨file', hchange, rfl⟩⟩⟩
  · rename_i hcond
    cases hread
    rw [if_neg hcond]
    exact ⟨file, rfl⟩

theorem writeBlocks_of_read {file : Inode} {c c' : Cursor}
    (hread : readBlocks file c = Except.ok c') :
    exists file', writeBlocks file c = Except.ok (file', c') := by
  induction file, c using writeBlocks.induct with
  | case1 file c hlen ih =>
      rw [readBlocks, dif_pos hlen] at hread
      rcases bind_eq_ok.mp hread with ⟨info, hinfo, hrest⟩
      rcases changeLength_of_getBlockInfo hinfo fileBlockSize with ⟨file1, hchange⟩
      have hsame := sameBlocks_changeLength hchange
      rcases ih info file1 (readBlocks_continues hsame.continues hrest) with
        ⟨file', hwrite⟩
      rw [writeBlocks, dif_pos hlen]
      exact ⟨file', bind_eq_ok.mpr ⟨info, hinfo,
        bind_eq_ok.mpr ⟨file1, hchange, hwrite⟩⟩⟩
  | case2 file c hlen =>
      rw [readBlocks, dif_neg hlen] at hread
      cases hread
      rw [writeBlocks, dif_neg hlen]
      exact ⟨file, rfl⟩

theorem writeTail_of_read {file : Inode} {c c' : Cursor}
    (hread : readTail file c = Except.ok c') :
    exists file' c2, writeTail file c = Except.ok (file', c2) := by
  unfold readTail at hread
  unfold writeTail
  split at hread
  · rename_i hcond
    rcases bind_eq_ok.mp hread with ⟨info, hinfo, hpure⟩
    rcases changeLength_of_getBlockInfo hinfo c.toTransfer with ⟨file', hchange⟩
    rw [if_pos hcond]
    exact ⟨file', _, bind_eq_ok.mpr ⟨info, hinfo,
      bind_eq_ok.mpr ⟨file', hchange, rfl⟩⟩⟩
  · rename_i hcond
    rw [if_neg hcond]
    exact ⟨file, c, rfl⟩

theorem writeExtents_of_read {file : Inode} {offset length : UInt64} {c : Cursor}
    (hread : readExtents file offset length = Except.ok c) :
    exists file' c', writeExtents file offset length = Except.ok (file', c') := by
  unfold readExtents at hread
  rcases bind_eq_ok.mp hread with ⟨c1, hhead, hrest⟩
  rcases bind_eq_ok.mp hrest with ⟨c2, hblocks, htail⟩
  rcases writeHead_of_read hhead with ⟨file1, hwriteHead⟩
  have hsame1 := (writeHead_spec hwriteHead).right
  rcases writeBlocks_of_read (readBlocks_continues hsame1.continues hblocks) with
    ⟨file2, hwriteBlocks⟩
  have hsame2 := (writeBlocks_spec hwriteBlocks).right
  rcases writeTail_of_read (readTail_continues (hsame1.trans hsame2).continues htail) with
    ⟨file', c', hwriteTail⟩
  exact ⟨file', c', bind_eq_ok.mpr ⟨(file1, c1), hwriteHead,
    bind_eq_ok.mpr ⟨(file2, c2), hwriteBlocks, hwriteTail⟩⟩⟩

/-!
# Tilings

Positions and lengths are natural numbers from here on: nothing in the phases
wraps around.
-/

/--
The extents cover {lit}`len` bytes from position {lit}`pos` of the file, placed
from {lit}`buf` on in the buffer.  Each lies in one block, and all but the last
reach the end of their block.
-/
inductive Tiles (blocks : List FileBlockInfo) :
    Nat -> Nat -> List Extent -> Nat -> Prop where
  | nil (pos buf : Nat) : Tiles blocks pos buf [] 0
  | cons {pos buf len : Nat} {e : Extent} {es : List Extent} (info : FileBlockInfo)
      (hinfo : blocks[pos / 2 ^ 20]? = some info)
      (hidx : e.blockIdx.toNat = pos / 2 ^ 20)
      (hserver : e.serverid = info.serverId)
      (hmem : e.memOffset = info.startAddr + UInt64.ofNat (pos % 2 ^ 20))
      (hbuf : e.buffOffset.toNat = buf)
      (hpos : 0 < pos % 2 ^ 20 + e.length.toNat)
      (hfit : pos % 2 ^ 20 + e.length.toNat ≤ 2 ^ 20)
      (hfull : es = [] ∨ pos % 2 ^ 20 + e.length.toNat = 2 ^ 20)
      (hrest : Tiles blocks (pos + e.length.toNat) (buf + e.length.toNat) es len) :
      Tiles blocks pos buf (e :: es) (e.length.toNat + len)

theorem toNat_min (a b : UInt64) : (min a b).toNat = min a.toNat b.toNat := by
  have hmin : min a b = if a ≤ b then a else b := rfl
  rw [hmin]
  split <;> rename_i h <;> rw [UInt64.le_iff_toNat_le] at h <;> omega

theorem toNat_and_fileBlockMask (x : UInt64) :
    (x &&& fileBlockMask).toNat = x.toNat % 2 ^ 20 := by
  rw [UInt64.toNat_and]
  exact Nat.and_two_pow_sub_one_eq_mod x.toNat 20

theorem toNat_add_of_lt {a b : UInt64} (h : a.toNat + b.toNat < 2 ^ 64) :
    (a + b).toNat = a.toNat + b.toNat := by
  rw [UInt64.toNat_add, Nat.mod_eq_of_lt h]

theorem toNat_pos {x : UInt64} (h : x ≠ 0) : 0 < x.toNat := by
  rw [Nat.pos_iff_ne_zero]
  intro h0
  exact h (UInt64.toNat_inj.mp h0)

/-- The offset is not at a block boundary. -/
theorem unaligned_of_mask {offset : UInt64} (h : offset &&& fileBlockMask ≠ 0) :
    0 < offset.toNat % 2 ^ 20 := by
  rw [← toNat_and_fileBlockMask]
  exact toNat_pos h

theorem aligned_of_mask {offset : UInt64} (h : ¬ offset &&& fileBlockMask ≠ 0) :
    offset.toNat % 2 ^ 20 = 0 := by
  rw [← toNat_and_fileBlockMask, not_not.mp h]
  rfl

theorem toNat_div_fileBlockSize (offset : UInt64) :
    (offset / fileBlockSize).toNat = offset.toNat / 2 ^ 20 :=
  UInt64.toNat_div _ _

theorem headExtent_length {offset : UInt64} (info : FileBlockInfo) (length : UInt64)
    (hunaligned : 0 < offset.toNat % 2 ^ 20) :
    (headExtent offset (Cursor.start offset length) info).length.toNat =
      min (2 ^ 20 - offset.toNat % 2 ^ 20) length.toNat := by
  have hinner := toNat_and_fileBlockMask offset
  show (min (fileBlockSize - (offset &&& fileBlockMask)) length).toNat = _
  rw [toNat_min, UInt64.toNat_sub_of_le, hinner]
  · rfl
  · rw [UInt64.le_iff_toNat_le, hinner, fileBlockSize_toNat]
    omega

/-- One extent from a block boundary on. -/
theorem Tiles.cons_aligned {file : Inode} {block info len : _} {e : Extent}
    {es : List Extent} {buf : Nat}
    (hinfo : file.getBlockInfo block = Except.ok info)
    (he : e = initBlockInfo block info.serverId info.startAddr e.length e.buffOffset)
    (hbuf : e.buffOffset.toNat = buf)
    (hpos : 0 < e.length.toNat) (hfit : e.length.toNat ≤ 2 ^ 20)
    (hfull : es = [] ∨ e.length.toNat = 2 ^ 20)
    (hrest : Tiles file.blockInfoList (block.toNat * 2 ^ 20 + e.length.toNat)
      (buf + e.length.toNat) es len) :
    Tiles file.blockInfoList (block.toNat * 2 ^ 20) buf (e :: es) (e.length.toNat + len) := by
  have hidx : block.toNat * 2 ^ 20 / 2 ^ 20 = block.toNat := by omega
  have hmod : block.toNat * 2 ^ 20 % 2 ^ 20 = 0 := by omega
  refine Tiles.cons info ?_ ?_ ?_ ?_ hbuf ?_ ?_ ?_ hrest
  · rw [hidx]
    exact getBlockInfo_eq_ok.mp hinfo
  · rw [hidx, he]
    rfl
  · rw [he]
    rfl
  · rw [hmod, he]
    exact (UInt64.add_zero _).symm
  · omega
  · omega
  · rw [hmod, Nat.zero_add]
    exact hfull

/-- Whole blocks and tail, from a cursor at a block boundary. -/
theorem blocks_tail_tiles {file : Inode} {c c' : Cursor}
    (hindex : c.startBlock.toNat + c.toTransfer.toNat / 2 ^ 20 + 1 < 2 ^ 64)
    (hbuffer : c.buffOffset.toNat + c.toTransfer.toNat < 2 ^ 64)
    (hread : (readBlocks file c >>= readTail file) = Except.ok c') :
    c'.toTransfer = 0 ∧ exists es, c'.reply = c.reply ++ es ∧
      Tiles file.blockInfoList (c.startBlock.toNat * 2 ^ 20) c.buffOffset.toNat es
        c.toTransfer.toNat := by
  induction c using readBlocks.induct with
  | case1 c hlen ih =>
      have hle := UInt64.le_iff_toNat_le.mp hlen
      rw [fileBlockSize_toNat] at hle
      rw [readBlocks, dif_pos hlen, bind_assoc] at hread
      rcases bind_eq_ok.mp hread with ⟨info, hinfo, hrest⟩
      have hlength : (blockExtent c info).length.toNat = 2 ^ 20 := rfl
      have hleft : (c.advance (blockExtent c info)).toTransfer.toNat =
          c.toTransfer.toNat - 2 ^ 20 := toNat_sub_fileBlockSize hlen
      have hnext : (c.advance (blockExtent c info)).startBlock.toNat =
          c.startBlock.toNat + 1 :=
        toNat_add_of_lt (show c.startBlock.toNat + 1 < 2 ^ 64 by omega)
      have hbuf : (c.advance (blockExtent c info)).buffOffset.toNat =
          c.buffOffset.toNat + 2 ^ 20 :=
        toNat_add_of_lt (show c.buffOffset.toNat + 2 ^ 20 < 2 ^ 64 by omega)
      rcases ih info (by omega) (by omega) hrest with ⟨hzero, es, hreply, htiles⟩
      refine ⟨hzero, blockExtent c info :: es, ?_, ?_⟩
      · rw [hreply]
        exact List.append_assoc _ _ _
      · rw [hleft, hnext, hbuf] at htiles
        have hsplit : c.toTransfer.toNat =
            (blockExtent c info).length.toNat + (c.toTransfer.toNat - 2 ^ 20) := by
          omega
        rw [hsplit]
        refine Tiles.cons_aligned hinfo rfl rfl (by omega) (by omega) (Or.inr hlength) ?_
        rw [hlength, ← Nat.succ_mul]
        exact htiles
  | case2 c hlen =>
      have hlt : c.toTransfer.toNat < 2 ^ 20 := by
        rw [UInt64.le_iff_toNat_le, fileBlockSize_toNat] at hlen
        omega
      rw [readBlocks, dif_neg hlen] at hread
      change readTail file c = _ at hread
      unfold readTail at hread
      split at hread
      · rename_i hne
        rcases bind_eq_ok.mp hread with ⟨info, hinfo, hpure⟩
        cases hpure
        have hpos := toNat_pos hne
        have htail : Tiles file.blockInfoList (c.startBlock.toNat * 2 ^ 20)
            c.buffOffset.toNat [tailExtent c info] (c.toTransfer.toNat + 0) :=
          Tiles.cons_aligned (e := tailExtent c info) hinfo rfl rfl hpos hlt.le (Or.inl rfl)
            (Tiles.nil _ _)
        exact ⟨rfl, [tailExtent c info], rfl, htail⟩
      · rename_i hzero
        have hzero' : c.toTransfer = 0 := not_not.mp hzero
        cases hread
        refine ⟨hzero', [], (List.append_nil _).symm, ?_⟩
        rw [hzero']
        exact Tiles.nil _ _

/-- The locals after the first extent, which starts the buffer. -/
theorem advance_start (offset : UInt64) {length : UInt64} {e : Extent}
    (hle : e.length.toNat ≤ length.toNat) :
    ((Cursor.start offset length).advance e).toTransfer.toNat =
        length.toNat - e.length.toNat ∧
      ((Cursor.start offset length).advance e).startBlock.toNat =
        offset.toNat / 2 ^ 20 + 1 ∧
      ((Cursor.start offset length).advance e).buffOffset.toNat = e.length.toNat := by
  have hoffset := offset.toNat_lt
  have hblock := toNat_div_fileBlockSize offset
  refine ⟨?_, ?_, ?_⟩
  · exact UInt64.toNat_sub_of_le _ _ (UInt64.le_iff_toNat_le.mpr hle)
  · rw [← hblock]
    exact toNat_add_of_lt (show (offset / fileBlockSize).toNat + 1 < 2 ^ 64 by omega)
  · show (0 + e.length).toNat = _
    rw [UInt64.zero_add]

/-- No extent starts at a block boundary when nothing is left. -/
theorem Tiles.eq_nil {blocks : List FileBlockInfo} {pos buf len : Nat} {es : List Extent}
    (htiles : Tiles blocks pos buf es len) (haligned : pos % 2 ^ 20 = 0) (hlen : len = 0) :
    es = [] := by
  cases htiles with
  | nil => rfl
  | cons info hinfo hidx hserver hmem hbuf hpos hfit hfull hrest => omega

/-- The head of an unaligned range goes before the tiles of the rest. -/
theorem Tiles.cons_head {file : Inode} {offset length : UInt64} {info : FileBlockInfo}
    {e : Extent} {es : List Extent} (hunaligned : 0 < offset.toNat % 2 ^ 20)
    (hinfo : file.getBlockInfo (offset / fileBlockSize) = Except.ok info)
    (he : headExtent offset (Cursor.start offset length) info = e)
    (htiles : Tiles file.blockInfoList ((offset.toNat / 2 ^ 20 + 1) * 2 ^ 20)
      e.length.toNat es (length.toNat - e.length.toNat)) :
    Tiles file.blockInfoList offset.toNat 0 (e :: es) length.toNat := by
  have hbytes := headExtent_length info length hunaligned
  rw [he] at hbytes
  have hblock := toNat_div_fileBlockSize offset
  have hsplit : length.toNat = e.length.toNat + (length.toNat - e.length.toNat) := by
    omega
  rw [hsplit]
  refine Tiles.cons info ?_ ?_ ?_ ?_ ?_ (by omega) (by omega) ?_ ?_
  · rw [← hblock]
    exact getBlockInfo_eq_ok.mp hinfo
  · rw [← hblock, ← he]
    rfl
  · rw [← he]
    rfl
  · rw [← he, ← toNat_and_fileBlockMask, UInt64.ofNat_toNat]
    rfl
  · rw [← he]
    rfl
  · by_cases hend : length.toNat - e.length.toNat = 0
    · exact Or.inl (htiles.eq_nil (by omega) hend)
    · right
      omega
  · by_cases hend : length.toNat - e.length.toNat = 0
    · rw [htiles.eq_nil (by omega) hend, hend]
      exact Tiles.nil _ _
    · rw [Nat.zero_add, show offset.toNat + e.length.toNat =
        (offset.toNat / 2 ^ 20 + 1) * 2 ^ 20 by omega]
      exact htiles

/-- The extents of a reply tile the requested range. -/
theorem readExtents_tiles {file : Inode} {offset length : UInt64} {c : Cursor}
    (hread : readExtents file offset length = Except.ok c) :
    c.toTransfer = 0 ∧
      Tiles file.blockInfoList offset.toNat 0 c.reply length.toNat := by
  have hoffset := offset.toNat_lt
  have hlength := length.toNat_lt
  have hblock := toNat_div_fileBlockSize offset
  unfold readExtents at hread
  rcases bind_eq_ok.mp hread with ⟨c1, hhead, hrest⟩
  unfold readHead at hhead
  split at hhead
  · rename_i hcond
    have hunaligned := unaligned_of_mask hcond
    rcases bind_eq_ok.mp hhead with ⟨info, hinfo, hpure⟩
    cases hpure
    have hbytes := headExtent_length info length hunaligned
    generalize he : headExtent offset (Cursor.start offset length) info = e at *
    have hle : e.length.toNat ≤ length.toNat := by omega
    rcases advance_start offset hle with ⟨hleft, hnext, hbuf⟩
    rcases blocks_tail_tiles (by omega) (by omega) hrest with ⟨hzero, es, hreply, htiles⟩
    rw [hleft, hnext, hbuf] at htiles
    rw [hreply]
    exact ⟨hzero, htiles.cons_head hunaligned hinfo he⟩
  · rename_i hcond
    cases hhead
    have haligned := aligned_of_mask hcond
    have hpos : offset.toNat / 2 ^ 20 * 2 ^ 20 = offset.toNat := by omega
    rcases blocks_tail_tiles (by simp only [Cursor.start, hblock]; omega)
      (by simpa [Cursor.start] using hlength) hrest with ⟨hzero, es, hreply, htiles⟩
    simp only [Cursor.start, hblock, hpos] at htiles
    refine ⟨hzero, ?_⟩
    rw [hreply]
    exact htiles

/-!
# A block list that is long enough is never overrun
-/

theorem getBlockInfo_of_lt (file : Inode) {i : UInt64}
    (hi : i.toNat < file.blockInfoList.length) :
    exists info, file.getBlockInfo i = Except.ok info :=
  ⟨_, getBlockInfo_eq_ok.mpr (List.getElem?_eq_getElem hi)⟩

theorem blocks_tail_complete (file : Inode) {c : Cursor}
    (hindex : c.startBlock.toNat + c.toTransfer.toNat / 2 ^ 20 + 1 < 2 ^ 64)
    (hcover : 0 < c.toTransfer.toNat ->
      c.startBlock.toNat + (c.toTransfer.toNat + (2 ^ 20 - 1)) / 2 ^ 20 ≤
        file.blockInfoList.length) :
    exists c', (readBlocks file c >>= readTail file) = Except.ok c' := by
  induction c using readBlocks.induct with
  | case1 c hlen ih =>
      have hle := UInt64.le_iff_toNat_le.mp hlen
      rw [fileBlockSize_toNat] at hle
      have hcover' := hcover (by omega)
      rcases getBlockInfo_of_lt file (i := c.startBlock) (by omega) with
        ⟨info, hinfo⟩
      have hleft : (c.advance (blockExtent c info)).toTransfer.toNat =
          c.toTransfer.toNat - 2 ^ 20 := toNat_sub_fileBlockSize hlen
      have hnext : (c.advance (blockExtent c info)).startBlock.toNat =
          c.startBlock.toNat + 1 :=
        toNat_add_of_lt (show c.startBlock.toNat + 1 < 2 ^ 64 by omega)
      rcases ih info (by omega) (by omega) with ⟨c', hrest⟩
      rw [readBlocks, dif_pos hlen, bind_assoc]
      exact ⟨c', bind_eq_ok.mpr ⟨info, hinfo, hrest⟩⟩
  | case2 c hlen =>
      rw [readBlocks, dif_neg hlen]
      show exists c', readTail file c = _
      unfold readTail
      split
      · rename_i hne
        have hpos := toNat_pos hne
        have hcover' := hcover hpos
        rcases getBlockInfo_of_lt file (i := c.startBlock) (by omega) with
          ⟨info, hinfo⟩
        exact ⟨_, bind_eq_ok.mpr ⟨info, hinfo, rfl⟩⟩
      · exact ⟨c, rfl⟩

theorem readExtents_complete {file : Inode} {offset length : UInt64}
    (hcover : (offset.toNat + length.toNat + (2 ^ 20 - 1)) / 2 ^ 20 ≤
      file.blockInfoList.length) :
    exists c, readExtents file offset length = Except.ok c := by
  have hoffset := offset.toNat_lt
  have hlength := length.toNat_lt
  have hblock := toNat_div_fileBlockSize offset
  unfold readExtents readHead
  split
  · rename_i hcond
    have hunaligned := unaligned_of_mask hcond
    rcases getBlockInfo_of_lt file (i := offset / fileBlockSize)
      (by rw [hblock]; omega) with ⟨info, hinfo⟩
    have hbytes := headExtent_length info length hunaligned
    generalize he : headExtent offset (Cursor.start offset length) info = e at *
    have hle : e.length.toNat ≤ length.toNat := by omega
    rcases advance_start offset hle with ⟨hleft, hnext, _⟩
    rcases blocks_tail_complete file
      (c := (Cursor.start offset length).advance e) (by omega) (by omega) with ⟨c', hrest⟩
    refine ⟨c', bind_eq_ok.mpr ⟨(Cursor.start offset length).advance e, ?_, hrest⟩⟩
    exact bind_eq_ok.mpr ⟨info, hinfo, by rw [he]; rfl⟩
  · rename_i hcond
    have haligned := aligned_of_mask hcond
    rcases blocks_tail_complete file (c := Cursor.start offset length)
      (by simp only [Cursor.start, hblock]; omega)
      (by simp only [Cursor.start, hblock]; omega) with ⟨c', hrest⟩
    exact ⟨c', hrest⟩

/-!
# The byte that an extent maps
-/

/-- The reply maps byte {lit}`k` of the buffer to an address on a node. -/
def MapsByte (reply : List Extent) (k : Nat) (server : UInt64) (addr : Nat) : Prop :=
  exists e, e ∈ reply ∧ e.buffOffset.toNat ≤ k ∧
    k < e.buffOffset.toNat + e.length.toNat ∧ server = e.serverid ∧
    addr = e.memOffset.toNat + (k - e.buffOffset.toNat)

theorem Tiles.buffOffset_le {blocks : List FileBlockInfo} {pos buf len : Nat}
    {es : List Extent} (htiles : Tiles blocks pos buf es len) {e : Extent} (he : e ∈ es) :
    buf ≤ e.buffOffset.toNat := by
  induction htiles with
  | nil => cases he
  | cons info hinfo hidx hserver hmem hbuf hpos hfit hfull hrest ih =>
      cases List.mem_cons.mp he with
      | inl heq =>
          subst heq
          omega
      | inr htail =>
          have := ih htail
          omega

/-- The extent holds byte {lit}`k` of the buffer. -/
def Extent.HasByte (e : Extent) (k : Nat) : Prop :=
  e.buffOffset.toNat ≤ k ∧ k < e.buffOffset.toNat + e.length.toNat

/-- The extent sends byte {lit}`k` to the place of position {lit}`pos` in a block. -/
structure Extent.Places (e : Extent) (info : FileBlockInfo) (k pos : Nat) : Prop where
  serverid : e.serverid = info.serverId
  memOffset : exists inner, e.memOffset = info.startAddr + UInt64.ofNat inner ∧
    pos % 2 ^ 20 = inner + (k - e.buffOffset.toNat)

/-- Each byte of a tiled range is held by one extent, which sends it to its block. -/
theorem Tiles.exists_extent {blocks : List FileBlockInfo} {pos buf len : Nat}
    {es : List Extent} (htiles : Tiles blocks pos buf es len) {k : Nat} (hk : buf ≤ k)
    (hk' : k < buf + len) :
    exists e info, (forall e', e' ∈ es ∧ e'.HasByte k <-> e' = e) ∧
      blocks[(pos + (k - buf)) / 2 ^ 20]? = some info ∧
      e.Places info k (pos + (k - buf)) := by
  induction htiles with
  | nil pos buf => omega
  | @cons pos buf len e es info hinfo hidx hserver hmem hbuf hpos hfit hfull hrest ih =>
      by_cases hhere : k < buf + e.length.toNat
      · have hdiv : (pos + (k - buf)) / 2 ^ 20 = pos / 2 ^ 20 := by omega
        have hmod : (pos + (k - buf)) % 2 ^ 20 = pos % 2 ^ 20 + (k - buf) := by omega
        refine ⟨e, info, ?_, ?_, hserver, pos % 2 ^ 20, hmem, ?_⟩
        · intro e'
          constructor
          · rintro ⟨he', hlow, hhigh⟩
            cases List.mem_cons.mp he' with
            | inl heq => exact heq
            | inr htail =>
                have := hrest.buffOffset_le htail
                omega
          · rintro rfl
            exact ⟨List.mem_cons_self, by omega, by omega⟩
        · rw [hdiv]
          exact hinfo
        · rw [hmod, hbuf]
      · have hsame : pos + e.length.toNat + (k - (buf + e.length.toNat)) =
            pos + (k - buf) := by omega
        have ih' := ih (by omega) (by omega)
        rw [hsame] at ih'
        rcases ih' with ⟨e0, info0, hunique, hrest0⟩
        refine ⟨e0, info0, ?_, hrest0⟩
        intro e'
        rw [← hunique e']
        constructor
        · rintro ⟨he', hlow, hhigh⟩
          cases List.mem_cons.mp he' with
          | inl heq =>
              subst heq
              omega
          | inr htail => exact ⟨htail, hlow, hhigh⟩
        · rintro ⟨he', hbyte⟩
          exact ⟨List.mem_cons_of_mem _ he', hbyte⟩

/-- Every byte of a tiled range lies in a block of the file. -/
theorem Tiles.exists_block {blocks : List FileBlockInfo} {pos buf len : Nat}
    {es : List Extent} (htiles : Tiles blocks pos buf es len) {k : Nat} (hk : k < len) :
    exists info, blocks[(pos + k) / 2 ^ 20]? = some info := by
  rcases htiles.exists_extent (Nat.le_add_right buf k) (Nat.add_lt_add_left hk buf) with
    ⟨_, info, _, hinfo, _⟩
  rw [Nat.add_sub_cancel_left] at hinfo
  exact ⟨info, hinfo⟩

/-- What holds of an extent with a byte holds of the one that the tiling gives it. -/
theorem exists_hasByte_iff {es : List Extent} {k : Nat} {e : Extent}
    (hunique : forall e', e' ∈ es ∧ e'.HasByte k <-> e' = e) (P : Extent -> Prop) :
    (exists e', e' ∈ es ∧ e'.buffOffset.toNat ≤ k ∧
      k < e'.buffOffset.toNat + e'.length.toNat ∧ P e') <-> P e := by
  constructor
  · rintro ⟨e', he', hlow, hhigh, hP⟩
    rw [← (hunique e').mp ⟨he', hlow, hhigh⟩]
    exact hP
  · intro hP
    rcases (hunique e).mpr rfl with ⟨he, hlow, hhigh⟩
    exact ⟨e, he, hlow, hhigh, hP⟩

/-- Byte {lit}`k` goes where the block of its position in the file is. -/
theorem Tiles.mapsByte_iff {blocks : List FileBlockInfo} {pos buf len : Nat}
    {es : List Extent} (htiles : Tiles blocks pos buf es len)
    (haligned : forall info, info ∈ blocks -> info.startAddr.toNat % 2 ^ 20 = 0)
    {k : Nat} (hk : buf ≤ k) (hk' : k < buf + len) {server : UInt64} {addr : Nat} :
    MapsByte es k server addr <->
      exists info, blocks[(pos + (k - buf)) / 2 ^ 20]? = some info ∧
        server = info.serverId ∧
        addr = info.startAddr.toNat + (pos + (k - buf)) % 2 ^ 20 := by
  rcases htiles.exists_extent hk hk' with
    ⟨e, info, hunique, hinfo, hserver, inner, hmem, hinner⟩
  have hstart := haligned info (List.mem_of_getElem? hinfo)
  have hlt := info.startAddr.toNat_lt
  have hoffset : e.memOffset.toNat = info.startAddr.toNat + inner := by
    have hsmall : (UInt64.ofNat inner).toNat = inner :=
      UInt64.toNat_ofNat_of_lt' (show inner < 2 ^ 64 by omega)
    rw [hmem, toNat_add_of_lt (by omega), hsmall]
  rw [MapsByte, exists_hasByte_iff hunique
      (fun e => server = e.serverid ∧ addr = e.memOffset.toNat + (k - e.buffOffset.toNat)),
    hserver, hoffset, Nat.add_assoc, ← hinner, hinfo]
  simp

end Metadata
end SpongeBob
