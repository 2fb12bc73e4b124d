import SpongeBob.Metadata.Descriptors

/-!
# Where blocks are placed does not show

Two runs of the same requests draw different random numbers, so their files have
blocks on different nodes and their nodes have different free lists.  Everything
else about the two servers stays the same, and of the replies only the places of
the extents differ.
-/

namespace SpongeBob
namespace Metadata

open Foundation
open Fs
open MetadataServiceImpl

/-!
# Replies without places
-/

def Extent.unplaced (e : Extent) : Extent :=
  { e with serverid := 0, memOffset := 0 }

/-- A reply with the nodes and addresses of its extents blanked out. -/
def Reply.unplaced : Reply -> Reply
  | Reply.readFile status extents bytes =>
      Reply.readFile status (extents.map Extent.unplaced) bytes
  | Reply.writeFile status extents bytes =>
      Reply.writeFile status (extents.map Extent.unplaced) bytes
  | reply => reply

/-- The cursors differ at most in the places of their extents. -/
structure SameCursor (c c' : Cursor) : Prop where
  toTransfer : c'.toTransfer = c.toTransfer
  buffOffset : c'.buffOffset = c.buffOffset
  startBlock : c'.startBlock = c.startBlock
  reply : c'.reply.map Extent.unplaced = c.reply.map Extent.unplaced

section Extents

variable {file file' : Inode} {c c' r r' : Cursor}

theorem SameCursor.advance (h : SameCursor c c') {e e' : Extent}
    (he : e'.unplaced = e.unplaced) : SameCursor (c.advance e) (c'.advance e') := by
  have hlength : e'.length = e.length := by
    have hunplaced := congrArg Extent.length he
    exact hunplaced
  refine ⟨?_, ?_, ?_, ?_⟩
  · simp only [Cursor.advance, h.toTransfer, hlength]
  · simp only [Cursor.advance, h.buffOffset, hlength]
  · simp only [Cursor.advance, h.startBlock]
  · simp only [Cursor.advance, List.map_append, h.reply, List.map_cons, he]

theorem readHead_sameCursor (h : SameCursor c c') {offset : UInt64}
    (hread : readHead file offset c = Except.ok r)
    (hread' : readHead file' offset c' = Except.ok r') : SameCursor r r' := by
  unfold readHead at hread hread'
  split at hread
  · rename_i hcond
    rw [if_pos hcond] at hread'
    rcases bind_eq_ok.mp hread with ⟨info, _, hpure⟩
    rcases bind_eq_ok.mp hread' with ⟨info', _, hpure'⟩
    cases hpure
    cases hpure'
    apply h.advance
    simp only [headExtent, initBlockInfo, Extent.unplaced, h.toTransfer, h.buffOffset,
      h.startBlock]
  · rename_i hcond
    rw [if_neg hcond] at hread'
    cases hread
    cases hread'
    exact h

theorem readBlocks_sameCursor (h : SameCursor c c')
    (hread : readBlocks file c = Except.ok r)
    (hread' : readBlocks file' c' = Except.ok r') : SameCursor r r' := by
  induction c using readBlocks.induct generalizing c' with
  | case1 c hlen ih =>
      rw [readBlocks, dif_pos hlen] at hread
      rw [readBlocks, dif_pos (h.toTransfer.symm ▸ hlen)] at hread'
      rcases bind_eq_ok.mp hread with ⟨info, _, hrest⟩
      rcases bind_eq_ok.mp hread' with ⟨info', _, hrest'⟩
      refine ih info (h.advance ?_) hrest hrest'
      simp only [blockExtent, initBlockInfo, Extent.unplaced, h.buffOffset, h.startBlock]
  | case2 c hlen =>
      rw [readBlocks, dif_neg hlen] at hread
      rw [readBlocks, dif_neg (h.toTransfer.symm ▸ hlen)] at hread'
      cases hread
      cases hread'
      exact h

theorem readTail_sameCursor (h : SameCursor c c')
    (hread : readTail file c = Except.ok r)
    (hread' : readTail file' c' = Except.ok r') : SameCursor r r' := by
  unfold readTail at hread hread'
  rw [h.toTransfer] at hread'
  split at hread
  · rename_i hcond
    rw [if_pos hcond] at hread'
    rcases bind_eq_ok.mp hread with ⟨info, _, hpure⟩
    rcases bind_eq_ok.mp hread' with ⟨info', _, hpure'⟩
    cases hpure
    cases hpure'
    refine ⟨rfl, ?_, h.startBlock, ?_⟩
    · simp only [h.buffOffset]
    · simp only [List.map_append, h.reply, List.map_cons, tailExtent, initBlockInfo,
        Extent.unplaced, h.toTransfer, h.buffOffset, h.startBlock]
  · rename_i hcond
    rw [if_neg hcond] at hread'
    cases hread
    cases hread'
    exact h

/-- Two files answer the same range by extents that differ at most in their places. -/
theorem readExtents_sameCursor {offset length : UInt64}
    (hread : readExtents file offset length = Except.ok r)
    (hread' : readExtents file' offset length = Except.ok r') : SameCursor r r' := by
  unfold readExtents at hread hread'
  rcases bind_eq_ok.mp hread with ⟨c1, hhead, hrest⟩
  rcases bind_eq_ok.mp hrest with ⟨c2, hblocks, htail⟩
  rcases bind_eq_ok.mp hread' with ⟨c1', hhead', hrest'⟩
  rcases bind_eq_ok.mp hrest' with ⟨c2', hblocks', htail'⟩
  have h0 : SameCursor (Cursor.start offset length) (Cursor.start offset length) :=
    ⟨rfl, rfl, rfl, rfl⟩
  have h1 := readHead_sameCursor h0 hhead hhead'
  have h2 := readBlocks_sameCursor h1 hblocks hblocks'
  exact readTail_sameCursor h2 htail htail'

end Extents

/-!
# States without places
-/

/-- An inode with its block list blanked out. -/
def unplacedInode (inode : Inode) : Inode :=
  { inode with blockInfoList := [] }

/-- The states differ at most in block lists and in the nodes' managers. -/
structure SameShape (s t : MetadataServiceImpl) : Prop where
  inodes : forall i, (t.inode? i).map unplacedInode = (s.inode? i).map unplacedInode
  curSize : t.inodeTable.curSize = s.inodeTable.curSize
  totalSize : t.inodeTable.totalSize = s.inodeTable.totalSize
  freeList : t.inodeTable.freeList = s.inodeTable.freeList
  fileMap : t.fileMap = s.fileMap

section Shape

variable {hash : String -> UInt64} {s t s' t' : MetadataServiceImpl}

theorem unplacedInode_children {file file' : Inode}
    (hsame : unplacedInode file' = unplacedInode file) : file'.children = file.children := by
  have hunplaced := congrArg Inode.children hsame
  exact hunplaced

theorem unplacedInode_size {file file' : Inode}
    (hsame : unplacedInode file' = unplacedInode file) : file'.size = file.size := by
  have hunplaced := congrArg Inode.size hsame
  exact hunplaced

theorem unplacedInode_isDir {file file' : Inode}
    (hsame : unplacedInode file' = unplacedInode file) : file'.isDir = file.isDir := by
  have hunplaced := congrArg Inode.isDir hsame
  exact hunplaced

theorem SameShape.refl (s : MetadataServiceImpl) : SameShape s s :=
  ⟨fun _ => rfl, rfl, rfl, rfl, rfl⟩

theorem SameShape.symm (h : SameShape s t) : SameShape t s :=
  ⟨fun i => (h.inodes i).symm, h.curSize.symm, h.totalSize.symm, h.freeList.symm,
    h.fileMap.symm⟩

theorem SameShape.trans {u : MetadataServiceImpl} (h : SameShape s t) (h' : SameShape t u) :
    SameShape s u :=
  ⟨fun i => (h'.inodes i).trans (h.inodes i), h'.curSize.trans h.curSize,
    h'.totalSize.trans h.totalSize, h'.freeList.trans h.freeList, h'.fileMap.trans h.fileMap⟩

theorem SameShape.inode (h : SameShape s t) {i : UInt64} {file : Inode}
    (hfile : s.inode? i = some file) :
    exists file', t.inode? i = some file' ∧ unplacedInode file' = unplacedInode file := by
  have hsame := h.inodes i
  rw [hfile] at hsame
  exact Option.map_eq_some_iff.mp hsame

theorem SameShape.inode_none (h : SameShape s t) {i : UInt64} (hfile : s.inode? i = none) :
    t.inode? i = none := by
  have hsame := h.inodes i
  rw [hfile] at hsame
  exact Option.map_eq_none_iff.mp hsame

theorem SameShape.child? (h : SameShape s t) (key : UInt64) : t.child? key = s.child? key := by
  unfold MetadataServiceImpl.child?
  cases hroot : s.inode? rootInum with
  | none => rw [h.inode_none hroot]
  | some root =>
      rcases h.inode hroot with ⟨root', hroot', hsame⟩
      rw [hroot']
      show root'.children[key]? = root.children[key]?
      rw [unplacedInode_children hsame]

/-- Writing through pointers to inodes that differ at most in their blocks. -/
theorem SameShape.putInode (h : SameShape s t) (inum : UInt64) {file file' : Inode}
    (hsame : unplacedInode file' = unplacedInode file) :
    SameShape (s.putInode inum file) (t.putInode inum file') := by
  refine ⟨?_, h.curSize, h.totalSize, h.freeList, h.fileMap⟩
  intro i
  rw [inode?_putInode, inode?_putInode]
  split
  · exact congrArg some hsame
  · exact h.inodes i

theorem SameShape.allocated (h : SameShape s t) (type : FileType) (inum : UInt64) :
    SameShape (s.allocated type inum) (t.allocated type inum) := by
  refine ⟨?_, ?_, h.totalSize, ?_, h.fileMap⟩
  · intro i
    rw [inode?_allocated, inode?_allocated]
    split
    · rfl
    · exact h.inodes i
  · exact congrArg (· + 1) h.curSize
  · exact congrArg MinHeap.pop h.freeList

theorem SameShape.removed (h : SameShape s t) {root root' : Inode} (key inum : UInt64)
    (file file' : Inode) (hsame : unplacedInode root' = unplacedInode root) :
    SameShape (s.removed root key inum file) (t.removed root' key inum file') := by
  refine ⟨?_, ?_, h.totalSize, ?_, h.fileMap⟩
  · intro i
    rw [inode?_removed, inode?_removed]
    split
    · rfl
    · split
      · refine congrArg some ?_
        exact congrArg (fun inode : Inode =>
          { inode with children := inode.children.erase key }) hsame
      · exact h.inodes i
  · exact congrArg (· - 1) h.curSize
  · exact congrArg (MinHeap.push · inum) h.freeList

theorem SameShape.inode_eq (h : SameShape s t) {i : UInt64} {file file' : Inode}
    (hfile : s.inode? i = some file) (hfile' : t.inode? i = some file') :
    unplacedInode file' = unplacedInode file := by
  rcases h.inode hfile with ⟨found, hfound, hsame⟩
  rw [hfile'] at hfound
  cases hfound
  exact hsame

/-!
# Actions on both states
-/

theorem SameShape.entered (h : SameShape s t) {root root' : Inode} (d : Dentry)
    (hsame : unplacedInode root' = unplacedInode root) :
    SameShape (s.entered root d) (t.entered root' d) :=
  h.putInode rootInum (congrArg (fun inode : Inode =>
    { inode with children := inode.children.insert d.hash d }) hsame)

/-- Both states give a new file the same number. -/
theorem SameShape.create (h : SameShape s t) {name : String} {type : FileType}
    {inum inum' : UInt64} (hact : Acts hash s (Action.create name type inum) s')
    (hact' : Acts hash t (Action.create name type inum') t') :
    inum' = inum ∧ SameShape s' t' := by
  cases hact with
  | create hroot _ _ htop =>
      cases hact' with
      | create hroot' _ _ htop' =>
          rw [h.freeList, htop] at htop'
          cases htop'
          exact ⟨rfl, (h.allocated type inum).entered _ (h.inode_eq hroot hroot')⟩

theorem SameShape.createFull (h : SameShape s t) {name : String}
    (hact : Acts hash s (Action.createFull name) s')
    (hact' : Acts hash t (Action.createFull name) t') : SameShape s' t' := by
  cases hact with
  | createFull hroot _ _ =>
      cases hact' with
      | createFull hroot' _ _ =>
          rw [h.totalSize]
          exact h.entered _ (h.inode_eq hroot hroot')

/-- Either both tables are full or none is. -/
theorem SameShape.not_create_createFull (h : SameShape s t) {name name' : String}
    {type : FileType} {inum : UInt64} (hact : Acts hash s (Action.create name type inum) s')
    (hact' : Acts hash t (Action.createFull name') t') : False := by
  cases hact with
  | create _ _ hfree _ =>
      cases hact' with
      | createFull _ _ hfull =>
          rw [h.curSize, h.totalSize] at hfull
          exact hfree hfull

theorem SameShape.remove (h : SameShape s t) {name : String}
    (hact : Acts hash s (Action.remove name) s')
    (hact' : Acts hash t (Action.remove name) t') : SameShape s' t' := by
  have hentries : forall root root' d d', s.inode? rootInum = some root ->
      t.inode? rootInum = some root' -> root.getDentry hash name = some d ->
      root'.getDentry hash name = some d' -> d' = d := by
    intro root root' d d' hroot hroot' hd hd'
    have hsame : root'.getDentry hash name = root.getDentry hash name := by
      unfold Inode.getDentry
      rw [unplacedInode_children (h.inode_eq hroot hroot')]
    rw [hsame, hd] at hd'
    exact (Option.some.inj hd').symm
  cases hact with
  | remove hroot hd hfile =>
      cases hact' with
      | remove hroot' hd' hfile' =>
          cases hentries _ _ _ _ hroot hroot' hd hd'
          exact h.removed _ _ _ _ (h.inode_eq hroot hroot')
      | unlink hroot' hd' hgone' =>
          cases hentries _ _ _ _ hroot hroot' hd hd'
          rw [h.symm.inode_none hgone'] at hfile
          cases hfile
  | unlink hroot hd hgone =>
      cases hact' with
      | remove hroot' hd' hfile' =>
          cases hentries _ _ _ _ hroot hroot' hd hd'
          rw [h.inode_none hgone] at hfile'
          cases hfile'
      | unlink hroot' hd' hgone' =>
          exact h.putInode rootInum (congrArg (fun inode : Inode =>
            { inode with children := inode.children.erase (hash name) })
            (h.inode_eq hroot hroot'))

/-- Giving a file a block does not change the shape. -/
theorem sameShape_append {inum : UInt64} (hact : Acts hash s (Action.append inum) s') :
    SameShape s s' := by
  cases hact with
  | append hsm htop hfile hroom =>
      refine ⟨?_, rfl, rfl, rfl, rfl⟩
      intro i
      rw [inode?_appended]
      split
      · rename_i heq
        rw [← heq, hfile]
        rfl
      · rfl

theorem sameShape_appends {inum : UInt64} {n : Nat}
    (htrace : Trace hash s (List.replicate n (Action.append inum)) s') : SameShape s s' := by
  induction n generalizing s with
  | zero =>
      cases htrace
      exact SameShape.refl _
  | succ n ih =>
      cases htrace with
      | cons hact hrest => exact (sameShape_append hact).trans (ih hrest)

theorem SameShape.ensured (h : SameShape s t) {name : String}
    (hensured : Ensured hash name s s') (hensured' : Ensured hash name t t') :
    SameShape s' t' := by
  have hchild := h.child? (hash name)
  cases hensured with
  | present hentry =>
      rw [hentry] at hchild
      cases hensured' with
      | present hentry' => exact h
      | created hentry' hact' =>
          rw [hchild] at hentry'
          cases hentry'
      | full hentry' hact' =>
          rw [hchild] at hentry'
          cases hentry'
  | created hentry hact =>
      rw [hentry] at hchild
      cases hensured' with
      | present hentry' =>
          rw [hchild] at hentry'
          cases hentry'
      | created hentry' hact' => exact (h.create hact hact').right
      | full hentry' hact' => exact (h.not_create_createFull hact hact').elim
  | full hentry hact =>
      rw [hentry] at hchild
      cases hensured' with
      | present hentry' =>
          rw [hchild] at hentry'
          cases hentry'
      | created hentry' hact' => exact (h.symm.not_create_createFull hact' hact).elim
      | full hentry' hact' => exact h.createFull hact hact'

/-!
# Handlers on both states
-/

section Handlers

variable (hwf : WellFormed hash s) (hwf' : WellFormed hash t) (h : SameShape s t)
variable {reply reply' : Reply} {name : String}

include hwf hwf' h

theorem readFile_sameShape {offset length : UInt64}
    (hread : s.readFile hash name offset length = Except.ok (reply, s'))
    (hread' : t.readFile hash name offset length = Except.ok (reply', t')) :
    reply'.unplaced = reply.unplaced ∧ SameShape s' t' := by
  rcases readFile_cases hwf hread with ⟨d, file, c, hentry, hfile, hextents, rfl, rfl⟩
  rcases readFile_cases hwf' hread' with
    ⟨d', file', c', hentry', hfile', hextents', rfl, rfl⟩
  rw [h.child?, hentry] at hentry'
  cases hentry'
  rw [unplacedInode_size (h.inode_eq hfile hfile')] at hextents' ⊢
  have hsame := readExtents_sameCursor hextents hextents'
  refine ⟨?_, h⟩
  simp only [Reply.unplaced, hsame.reply, hsame.toTransfer]

theorem writeFile_sameShape {rands rands' : Nat -> Nat} {offset length : UInt64}
    (hwrite : s.writeFile hash rands name offset length = Except.ok (reply, s'))
    (hwrite' : t.writeFile hash rands' name offset length = Except.ok (reply', t')) :
    reply'.unplaced = reply.unplaced ∧ SameShape s' t' := by
  rcases writeFile_cases hwf hwrite with
    ⟨s1, s2, d, file, grown, written, extents, hwrote, rfl⟩
  rcases writeFile_cases hwf' hwrite' with
    ⟨t1, t2, d', file', grown', written', extents', hwrote', rfl⟩
  have h1 : SameShape s1 t1 := h.ensured hwrote.ensured hwrote'.ensured
  have h2 : SameShape s2 t2 :=
    ((sameShape_appends hwrote.appends).symm.trans h1).trans (sameShape_appends hwrote'.appends)
  have hd : d' = d := by
    have hentry' := hwrote'.entry
    rw [h1.child?, hwrote.entry] at hentry'
    exact (Option.some.inj hentry').symm
  subst hd
  rcases hwrote.reads with ⟨r, hread, hreply⟩
  rcases hwrote'.reads with ⟨r', hread', hreply'⟩
  have hsame := readExtents_sameCursor hread hread'
  constructor
  · simp only [Reply.unplaced, ← hreply, ← hreply', hsame.reply]
  · -- The two inodes written back differ in nothing but their block lists.
    have hgrown := h2.inode_eq hwrote.grownInode hwrote'.grownInode
    rw [hwrote.next, hwrote'.next]
    apply h2.putInode
    have hinum : grown'.inum = grown.inum := by
      have hunplaced := congrArg Inode.inum hgrown
      exact hunplaced
    have htype : grown'.type = grown.type := by
      have hunplaced := congrArg Inode.type hgrown
      exact hunplaced
    simp only [unplacedInode, Inode.setSize, hwrote.rewrites.inum, hwrote'.rewrites.inum,
      hwrote.rewrites.type, hwrote'.rewrites.type, hwrote.rewrites.children,
      hwrote'.rewrites.children, hinum, htype, unplacedInode_children hgrown]

theorem createFile_sameShape {isDir : Bool}
    (hcreate : s.createFile hash name isDir = Except.ok (reply, s'))
    (hcreate' : t.createFile hash name isDir = Except.ok (reply', t')) :
    reply'.unplaced = reply.unplaced ∧ SameShape s' t' := by
  have hchild := h.child? (hash name)
  rcases createFile_cases hwf hcreate with
    ⟨d, hentry, rfl, rfl⟩ | ⟨hentry, inum, rfl, hact⟩
  · rcases createFile_cases hwf' hcreate' with
      ⟨d', hentry', rfl, rfl⟩ | ⟨hentry', inum', rfl, hact'⟩
    · rw [hentry', hentry] at hchild
      cases hchild
      exact ⟨rfl, h⟩
    · rw [hentry', hentry] at hchild
      cases hchild
  · rcases createFile_cases hwf' hcreate' with
      ⟨d', hentry', rfl, rfl⟩ | ⟨hentry', inum', rfl, hact'⟩
    · rw [hentry', hentry] at hchild
      cases hchild
    · rcases hact with hact | ⟨rfl, hfull⟩
      · rcases hact' with hact' | ⟨rfl, hfull'⟩
        · rcases h.create hact hact' with ⟨rfl, hnext⟩
          exact ⟨rfl, hnext⟩
        · exact (h.not_create_createFull hact hfull').elim
      · rcases hact' with hact' | ⟨rfl, hfull'⟩
        · exact (h.symm.not_create_createFull hact' hfull).elim
        · exact ⟨rfl, h.createFull hfull hfull'⟩

theorem openFile_sameShape
    (hopen : s.openFile hash name = Except.ok (reply, s'))
    (hopen' : t.openFile hash name = Except.ok (reply', t')) :
    reply'.unplaced = reply.unplaced ∧ SameShape s' t' := by
  rcases openFile_cases hwf hopen with ⟨s1, fd, fileMap, hensured, halloc, rfl, rfl⟩
  rcases openFile_cases hwf' hopen' with
    ⟨t1, fd', fileMap', hensured', halloc', rfl, rfl⟩
  have h1 := h.ensured hensured hensured'
  rw [h1.fileMap, halloc] at halloc'
  rcases Prod.mk.inj (Except.ok.inj halloc') with ⟨rfl, rfl⟩
  exact ⟨rfl, h1.inodes, h1.curSize, h1.totalSize, h1.freeList, rfl⟩

theorem removeFile_sameShape
    (hremove : s.removeFile hash name = Except.ok (reply, s'))
    (hremove' : t.removeFile hash name = Except.ok (reply', t')) :
    reply'.unplaced = reply.unplaced ∧ SameShape s' t' := by
  have hchild := h.child? (hash name)
  rcases removeFile_cases hwf hremove with ⟨hentry, rfl, rfl⟩ | ⟨d, hentry, rfl, hact⟩
  · rcases removeFile_cases hwf' hremove' with
      ⟨hentry', rfl, rfl⟩ | ⟨d', hentry', rfl, hact'⟩
    · exact ⟨rfl, h⟩
    · rw [hentry', hentry] at hchild
      cases hchild
  · rcases removeFile_cases hwf' hremove' with
      ⟨hentry', rfl, rfl⟩ | ⟨d', hentry', rfl, hact'⟩
    · rw [hentry', hentry] at hchild
      cases hchild
    · exact ⟨rfl, h.remove hact hact'⟩

end Handlers

theorem closeFile_sameShape (h : SameShape s t) {fd : Int64} {reply reply' : Reply}
    (hclose : s.closeFile fd = Except.ok (reply, s'))
    (hclose' : t.closeFile fd = Except.ok (reply', t')) :
    reply'.unplaced = reply.unplaced ∧ SameShape s' t' := by
  rcases closeFile_cases hclose with ⟨success, fileMap, hreclaim, rfl, rfl⟩
  rcases closeFile_cases hclose' with ⟨success', fileMap', hreclaim', rfl, rfl⟩
  rw [h.fileMap, hreclaim] at hreclaim'
  rcases Prod.mk.inj (Except.ok.inj hreclaim') with ⟨rfl, rfl⟩
  exact ⟨rfl, h.inodes, h.curSize, h.totalSize, h.freeList, rfl⟩

/-- Listings of the same entries are the same. -/
theorem SameShape.lists (h : SameShape s t) {dentries : List Dentry}
    {infos infos' : List DentryInfo} (hinfos : List.Forall₂ (Lists s) dentries infos)
    (hinfos' : List.Forall₂ (Lists t) dentries infos') : infos' = infos := by
  induction hinfos generalizing infos' with
  | nil =>
      cases hinfos'
      rfl
  | cons hinfo _ ih =>
      cases hinfos' with
      | cons hinfo' hrest' =>
          rcases hinfo with ⟨file, hfile, rfl⟩
          rcases hinfo' with ⟨file', hfile', rfl⟩
          have hsame := h.inode_eq hfile hfile'
          rw [ih hrest', unplacedInode_isDir hsame, unplacedInode_size hsame]

theorem readDirectory_sameShape (hwf : WellFormed hash s) (hwf' : WellFormed hash t)
    (h : SameShape s t) (path : String) {reply reply' : Reply}
    (hread : s.readDirectory path = Except.ok (reply, s'))
    (hread' : t.readDirectory path = Except.ok (reply', t')) :
    reply'.unplaced = reply.unplaced ∧ SameShape s' t' := by
  rcases readDirectory_cases path hwf hread with ⟨root, infos, hroot, hinfos, rfl, rfl⟩
  rcases readDirectory_cases path hwf' hread' with
    ⟨root', infos', hroot', hinfos', rfl, rfl⟩
  have hmap : root'.getDentryMap = root.getDentryMap := by
    unfold Inode.getDentryMap
    rw [unplacedInode_children (h.inode_eq hroot hroot')]
  rw [hmap] at hinfos'
  rw [h.lists hinfos hinfos']
  exact ⟨rfl, h⟩

/-- One request on two states of the same shape. -/
theorem serve_sameShape (hwf : WellFormed hash s) (hwf' : WellFormed hash t)
    (h : SameShape s t) {call call' : Call} (hrequest : call'.request = call.request)
    {reply reply' : Reply} (hserve : serve hash s call = Except.ok (reply, s'))
    (hserve' : serve hash t call' = Except.ok (reply', t')) :
    reply'.unplaced = reply.unplaced ∧ SameShape s' t' := by
  rcases call with ⟨request, rands⟩
  rcases call' with ⟨request', rands'⟩
  dsimp only at hrequest
  subst hrequest
  cases request' with
  | readFile name offset length => exact readFile_sameShape hwf hwf' h hserve hserve'
  | writeFile name offset length => exact writeFile_sameShape hwf hwf' h hserve hserve'
  | createFile name isDir => exact createFile_sameShape hwf hwf' h hserve hserve'
  | openFile name => exact openFile_sameShape hwf hwf' h hserve hserve'
  | closeFile fd => exact closeFile_sameShape h hserve hserve'
  | removeFile name => exact removeFile_sameShape hwf hwf' h hserve hserve'
  | readDirectory path => exact readDirectory_sameShape hwf hwf' h path hserve hserve'
  | registerMemoryRegion nodeid addr length =>
      cases hserve
      cases hserve'
      exact ⟨rfl, h.inodes, h.curSize, h.totalSize, h.freeList, h.fileMap⟩

end Shape

/--
Two runs of the same requests give, request by request, the same replies up to the
nodes and addresses of the extents, whatever numbers they draw.
-/
theorem replies_independent_of_placement {hash : String -> UInt64} {calls calls' : List Call}
    (hsame : calls.map Call.request = calls'.map Call.request) {replies replies' : List Reply}
    {s s' : MetadataServiceImpl}
    (hrun : runFrom (serve hash) MetadataServiceImpl.init calls = Except.ok (replies, s))
    (hrun' : runFrom (serve hash) MetadataServiceImpl.init calls' =
      Except.ok (replies', s')) :
    List.Forall₂ (fun reply reply' => reply'.unplaced = reply.unplaced) replies replies' := by
  have hinputs : List.Forall₂ (fun call call' : Call => call'.request = call.request)
      calls calls' := by
    rw [← List.forall₂_eq_eq_eq, List.forall₂_map_left_iff, List.forall₂_map_right_iff] at hsame
    exact hsame.imp (fun _ _ heq => heq.symm)
  have hkeep : forall s t call call' reply reply' s' t',
      (WellFormed hash s ∧ WellFormed hash t ∧ SameShape s t) ->
      call'.request = call.request -> serve hash s call = Except.ok (reply, s') ->
      serve hash t call' = Except.ok (reply', t') ->
      reply'.unplaced = reply.unplaced ∧
        (WellFormed hash s' ∧ WellFormed hash t' ∧ SameShape s' t') := by
    intro s t call call' reply reply' s' t' hboth hrequest hserve hserve'
    rcases hboth with ⟨hwf, hwf', h⟩
    rcases serve_sameShape hwf hwf' h hrequest hserve hserve' with ⟨hreply, hnext⟩
    exact ⟨hreply, serve_wellFormed hwf hserve, serve_wellFormed hwf' hserve', hnext⟩
  exact (runs_related hkeep hinputs ⟨wellFormed_init, wellFormed_init, SameShape.refl _⟩
    hrun hrun').left

/-- Two nodes register, three blocks are written and read back. -/
def twoNodeRequests : List Request :=
  [Request.registerMemoryRegion 1 0 16777216, Request.registerMemoryRegion 2 0 16777216,
    Request.writeFile "f" 10 3000000, Request.readFile "f" 0 4000000, Request.removeFile "f"]

/-- The calls that draw the same number throughout. -/
def callsDrawing (rand : Nat) (requests : List Request) : List Call :=
  requests.map (fun request => ⟨request, fun _ => rand⟩)

theorem request_callsDrawing (rand : Nat) (requests : List Request) :
    (callsDrawing rand requests).map Call.request = requests := by
  unfold callsDrawing
  rw [List.map_map]
  exact List.map_id requests

/-- All blocks on the first node, or all on the second. -/
theorem replies_independent_of_placement_nodes : exists replies replies' s s',
    runFrom (serve byCodes) MetadataServiceImpl.init (callsDrawing 0 twoNodeRequests) =
      Except.ok (replies, s) ∧
    runFrom (serve byCodes) MetadataServiceImpl.init (callsDrawing 1 twoNodeRequests) =
      Except.ok (replies', s') ∧ replies' ≠ replies ∧
    List.Forall₂ (fun reply reply' => reply'.unplaced = reply.unplaced) replies replies' := by
  have hpass : passes (runFrom (serve byCodes) MetadataServiceImpl.init
      (callsDrawing 0 twoNodeRequests)) (fun result =>
        passes (runFrom (serve byCodes) MetadataServiceImpl.init
          (callsDrawing 1 twoNodeRequests)) (fun result' =>
            decide (result'.1 ≠ result.1))) = true := by
    decide +kernel
  rcases exists_of_passes hpass with ⟨⟨replies, s⟩, hrun, htest⟩
  rcases exists_of_passes htest with ⟨⟨replies', s'⟩, hrun', hne⟩
  have hsame : (callsDrawing 0 twoNodeRequests).map Call.request =
      (callsDrawing 1 twoNodeRequests).map Call.request := by
    rw [request_callsDrawing, request_callsDrawing]
  exact ⟨replies, replies', s, s', hrun, hrun', of_decide_eq_true hne,
    replies_independent_of_placement hsame hrun hrun'⟩

end Metadata
end SpongeBob
