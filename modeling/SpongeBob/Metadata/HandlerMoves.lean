import SpongeBob.Metadata.HandlerSteps
import Mathlib.Data.Finset.Card

/-!
# What the calls of a handler do

Every call waits, looks the name up, allocates an inode, enters it or is past all that;
the inodes that are new since a first state are counted along the calls.
-/

namespace SpongeBob
namespace Metadata
namespace Racing

open Foundation
open Fs
open MetadataServiceImpl

/-- Whether the handler has found the name absent and has not entered it. -/
def Phase.inside : Phase -> Bool
  | absent => true
  | creating => true
  | allocated _ => true
  | _ => false

/-!
# What a call does
-/

/-- What holds of the server between the calls of the handlers. -/
structure Sound (s : MetadataServiceImpl) : Prop where
  unlocked : Unlocked s
  balanced : s.inodeTable.Balanced 100
  blocks : Blocks s
  root : exists root, s.inode? rootInum = some root

theorem sound_of_wellFormed {hash : String -> UInt64} {s : MetadataServiceImpl}
    (h : WellFormed hash s) : Sound s :=
  ⟨h.unlocked, h.balanced, h.blocks, h.directory.root⟩

/-- The second state has the inodes and the entries of the first. -/
structure Quiet (s s' : MetadataServiceImpl) : Prop where
  sound : Sound s'
  inodes : forall i, (exists file, s'.inode? i = some file) <->
    exists file, s.inode? i = some file
  entries : forall key, s'.child? key = s.child? key
  curSize : s'.inodeTable.curSize = s.inodeTable.curSize

theorem Quiet.refl {s : MetadataServiceImpl} (h : Sound s) : Quiet s s :=
  ⟨h, fun _ => Iff.rfl, fun _ => rfl, rfl⟩

theorem Quiet.trans {s s1 s2 : MetadataServiceImpl} (h : Quiet s s1) (h' : Quiet s1 s2) :
    Quiet s s2 where
  sound := h'.sound
  inodes := fun i => (h'.inodes i).trans (h.inodes i)
  entries := fun key => (h'.entries key).trans (h.entries key)
  curSize := h'.curSize.trans h.curSize

/-- The part of a handler that a phase belongs to. -/
inductive Stage where
  | checking
  | committed
  | holding (inum : UInt64)
  | settled
deriving DecidableEq, Repr

namespace Phase

def stage : Phase -> Stage
  | start => Stage.checking
  | hasRoot => Stage.checking
  | absent => Stage.committed
  | creating => Stage.committed
  | allocated inum => Stage.holding inum
  | _ => Stage.settled

/-- The number in the reply of {lit}`CreateFile`. -/
def reported : Phase -> Option UInt64
  | done (Reply.createFile _ n) => some n
  | _ => none

theorem inside_iff {phase : Phase} :
    phase.inside = true <->
      phase.stage = Stage.committed ∨ exists inum, phase.stage = Stage.holding inum := by
  cases phase <;> simp [inside, stage]

end Phase

/-- The calls by what they do to the inodes and to the entry of the name. -/
inductive Moves (hash : String -> UInt64) (name : String) (s : MetadataServiceImpl)
    (phase : Phase) : MetadataServiceImpl -> Phase -> Prop where
  | waits {phase' : Phase} (hnot : phase ≠ Phase.hasRoot) (hstage : phase'.stage = phase.stage)
      (hunsettled : phase.stage = Stage.checking ∨ phase.stage = Stage.committed) :
      Moves hash name s phase s phase'
  | misses (hphase : phase = Phase.hasRoot) (hentry : s.child? (hash name) = none) :
      Moves hash name s phase s Phase.absent
  | finds {d : Dentry} {phase' : Phase} (hphase : phase = Phase.hasRoot)
      (hentry : s.child? (hash name) = some d) (hstage : phase'.stage = Stage.settled)
      (hreported : forall n, phase'.reported = some n -> n = d.inum) :
      Moves hash name s phase s phase'
  | allocates {type : FileType} {inum : UInt64} (hstage : phase.stage = Stage.committed)
      (hroom : s.inodeTable.curSize ≠ s.inodeTable.totalSize)
      (htop : s.inodeTable.freeList.top? = some inum) :
      Moves hash name s phase (s.allocated type inum) (Phase.allocated inum)
  | refused {inum : UInt64} (hstage : phase.stage = Stage.committed)
      (hfull : s.inodeTable.curSize = s.inodeTable.totalSize) :
      Moves hash name s phase s (Phase.allocated inum)
  | enters {root : Inode} {inum : UInt64} {phase' : Phase}
      (hphase : phase.stage = Stage.holding inum) (hroot : s.inode? rootInum = some root)
      (hentry : s.child? (hash name) = none) (hstage : phase'.stage = Stage.settled)
      (hreported : forall n, phase'.reported = some n -> n = inum) :
      Moves hash name s phase (s.entered root ⟨name, hash name, inum⟩) phase'
  | collides {d : Dentry} {inum : UInt64} {s' : MetadataServiceImpl} {phase' : Phase}
      (hphase : phase.stage = Stage.holding inum) (hentry : s.child? (hash name) = some d)
      (hstage : phase'.stage = Stage.settled) (hquiet : Quiet s s') :
      Moves hash name s phase s' phase'
  | settles {s' : MetadataServiceImpl} {phase' : Phase}
      (hphase : phase.stage = Stage.settled) (hstage : phase'.stage = Stage.settled)
      (hreported : phase'.reported = phase.reported ∨ phase'.reported = none)
      (hquiet : Quiet s s') :
      Moves hash name s phase s' phase'

section Server

variable {hash : String -> UInt64} {name : String} {s s' : MetadataServiceImpl}

theorem Sound.allocated (h : Sound s) {inum : UInt64} (type : FileType)
    (hroom : s.inodeTable.curSize ≠ s.inodeTable.totalSize)
    (htop : s.inodeTable.freeList.top? = some inum) : Sound (s.allocated type inum) where
  unlocked := ⟨h.unlocked.table, h.unlocked.managers, h.unlocked.descriptors⟩
  balanced := h.balanced.allocated hroom htop type
  blocks := by
    refine ⟨?_, ?_, h.blocks.managerKey⟩
    · intro i file info hfile hinfo
      rw [inode?_allocated] at hfile
      split at hfile
      · cases hfile
        cases hinfo
      · have hblock := h.blocks.block i file info hfile hinfo
        exact ⟨hblock.startAddr, hblock.serverId, hblock.registered⟩
    · intro i file hfile
      rw [inode?_allocated] at hfile
      split at hfile
      · cases hfile
        exact Nat.two_pow_pos 44
      · exact h.blocks.room i file hfile
  root := by
    rw [inode?_allocated, if_neg (free_ne h.balanced h.root (MinHeap.top?_mem htop)).left]
    exact h.root

theorem Sound.entered (h : Sound s) {root : Inode} (hroot : s.inode? rootInum = some root)
    (d : Dentry) : Sound (s.entered root d) where
  unlocked := ⟨h.unlocked.table, h.unlocked.managers, h.unlocked.descriptors⟩
  balanced := h.balanced.putInode (mem_table_iff.mpr h.root) _
  blocks := by
    refine ⟨?_, ?_, h.blocks.managerKey⟩
    · intro i file info hfile hinfo
      rw [inode?_entered] at hfile
      split at hfile
      · cases hfile
        have hblock := h.blocks.block rootInum root info hroot hinfo
        exact ⟨hblock.startAddr, hblock.serverId, hblock.registered⟩
      · have hblock := h.blocks.block i file info hfile hinfo
        exact ⟨hblock.startAddr, hblock.serverId, hblock.registered⟩
    · intro i file hfile
      rw [inode?_entered] at hfile
      split at hfile
      · cases hfile
        exact h.blocks.room rootInum root hroot
      · exact h.blocks.room i file hfile
  root := ⟨_, by rw [inode?_entered, if_pos rfl]⟩

/-- An action that changes neither the inodes in use nor the entries. -/
theorem Sound.quiet_of_acts (h : Sound s) {a : Action} (hact : Acts hash s a s')
    (hinodes : forall i, (exists file, s'.inode? i = some file) <->
      exists file, s.inode? i = some file)
    (hentries : forall key, s'.child? key = s.child? key)
    (hcurSize : s'.inodeTable.curSize = s.inodeTable.curSize) : Quiet s s' where
  sound := ⟨hact.unlocked h.unlocked, hact.balanced h.balanced h.root, hact.blocks h.blocks,
    (hinodes rootInum).mpr h.root⟩
  inodes := hinodes
  entries := hentries
  curSize := hcurSize

/-- Replacing an inode that is in use. -/
theorem exists_replaced {inum : UInt64} {file file' : Inode} (hfile : s.inode? inum = some file)
    (i : UInt64) :
    (exists f, (if inum = i then some file' else s.inode? i) = some f) <->
      exists f, s.inode? i = some f := by
  split
  · rename_i heq
    rw [← heq, hfile]
    exact ⟨fun _ => ⟨file, rfl⟩, fun _ => ⟨file', rfl⟩⟩
  · exact Iff.rfl

theorem Sound.append (h : Sound s) {inum : UInt64}
    (hact : Acts hash s (Action.append inum) s') : Quiet s s' := by
  refine h.quiet_of_acts hact ?_ ?_ ?_
  · intro i
    cases hact with
    | append hsm htop hfile hroom =>
        rw [inode?_appended]
        exact exists_replaced hfile i
  · intro key
    cases hact with
    | append hsm htop hfile hroom => exact child?_appended hfile key
  · cases hact with
    | append hsm htop hfile hroom => rfl

theorem Sound.rewrite (h : Sound s) {inum : UInt64} {file file' : Inode}
    (hfile : s.inode? inum = some file) (hsame : SameBlocks file file') :
    Quiet s (s.putInode inum file') := by
  have hact : Acts (fun _ => 0) s (Action.rewrite inum) (s.putInode inum file') :=
    Acts.rewrite hfile hsame
  refine h.quiet_of_acts hact ?_ ?_ rfl
  · intro i
    rw [inode?_putInode]
    exact exists_replaced hfile i
  · exact child?_putInode hfile hsame.children

theorem Sound.descriptors (h : Sound s) {fileMap : FileMap}
    (hunlocked : fileMap.fileMapLock = false) : Quiet s { s with fileMap := fileMap } := by
  have hact : Acts (fun _ => 0) s Action.descriptors { s with fileMap := fileMap } :=
    Acts.descriptors hunlocked
  exact h.quiet_of_acts hact (fun _ => Iff.rfl) (fun _ => rfl) rfl

theorem quiet_of_appends {inum : UInt64} {acts : List Action} (htrace : Trace hash s acts s')
    (hacts : forall a, a ∈ acts -> a = Action.append inum) (h : Sound s) : Quiet s s' := by
  induction htrace with
  | nil s => exact Quiet.refl h
  | cons hact _ ih =>
      rw [hacts _ List.mem_cons_self] at hact
      have hquiet := h.append hact
      exact hquiet.trans
        (ih (fun a ha => hacts a (List.mem_cons_of_mem _ ha)) hquiet.sound)

/-- The rest of a write touches only blocks and sizes. -/
theorem Sound.writeBlocks (h : Sound s) {rands : Nat -> Nat} {inum offset length : UInt64}
    {reply : Reply} (hwrite : writeBlocks rands s inum offset length = Except.ok (reply, s')) :
    Quiet s s' ∧ (Phase.done reply).reported = none := by
  unfold Racing.writeBlocks at hwrite
  rcases bind_eq_ok.mp hwrite with ⟨file, hderef, hwrite⟩
  rcases bind_eq_ok.mp hwrite with ⟨s1, happend, hwrite⟩
  have hfile := deref_eq_ok.mp hderef
  have hroom := newBlocksNum_room (h.blocks.room _ _ hfile) offset length
  rcases appendBlocks_trace (fun _ => 0) _ h.unlocked hfile hroom happend with
    ⟨htrace, grown, hgrown, _⟩
  have hquiet := quiet_of_appends htrace (fun _ ha => List.eq_of_mem_replicate ha) h
  rcases bind_eq_ok.mp hwrite with ⟨grown', hderef', hwrite⟩
  rcases bind_eq_ok.mp hwrite with ⟨⟨written, c⟩, hextents, hpure⟩
  have hsame := (writeExtents_spec hextents).right
  cases hpure
  refine ⟨hquiet.trans (hquiet.sound.rewrite (deref_eq_ok.mp hderef') ?_), rfl⟩
  exact ⟨hsame.inum, hsame.type, hsame.children, hsame.places⟩

/-- The allocation of either kind of handler. -/
theorem allocate_moves {phase : Phase} (h : Sound s) (hstage : phase.stage = Stage.committed)
    {type : FileType} {inum : UInt64} {t : InodeTable}
    (halloc : s.inodeTable.allocateFreeInode type = Except.ok (inum, t)) :
    Moves hash name s phase { s with inodeTable := t } (Phase.allocated inum) := by
  rw [InodeTable.allocateFreeInode_eq h.unlocked.table] at halloc
  split at halloc
  · rename_i hfull
    cases halloc
    exact Moves.refused hstage hfull
  · rename_i hroom
    rcases bind_eq_ok.mp halloc with ⟨i, htop, hpure⟩
    cases hpure
    exact Moves.allocates hstage hroom (top_eq_ok.mp htop)

theorem afterFound_stage (job : Job) (d : Dentry) :
    (job.afterFound d).stage = Stage.settled ∧
      forall n, (job.afterFound d).reported = some n -> n = d.inum := by
  cases job with
  | createFile isDir => exact ⟨rfl, fun n hn => (Option.some.inj hn).symm⟩
  | openFile => exact ⟨rfl, fun n hn => nomatch hn⟩
  | writeFile offset length rands => exact ⟨rfl, fun n hn => nomatch hn⟩

theorem afterEntry_stage (job : Job) (inum : UInt64) :
    (job.afterEntry inum).stage = Stage.settled ∧
      forall n, (job.afterEntry inum).reported = some n -> n = inum := by
  cases job with
  | createFile isDir => exact ⟨rfl, fun n hn => (Option.some.inj hn).symm⟩
  | openFile => exact ⟨rfl, fun n hn => nomatch hn⟩
  | writeFile offset length rands => exact ⟨rfl, fun n hn => nomatch hn⟩

theorem check_moves (h : Sound s) {job : Job} {phase' : Phase}
    (hstep : advance hash name job s Phase.hasRoot = Except.ok (s', phase')) :
    Moves hash name s Phase.hasRoot s' phase' := by
  rcases h.root with ⟨root, hroot⟩
  have hentry : s.child? (hash name) = root.getDentry hash name := child?_of_root hroot _
  rw [advance, deref_eq_ok.mpr hroot, ok_bind] at hstep
  cases hdentry : root.getDentry hash name with
  | some d =>
      rw [hdentry] at hstep
      cases hstep
      have hafter := afterFound_stage job d
      exact Moves.finds rfl (hentry.trans hdentry) hafter.left hafter.right
  | none =>
      rw [hdentry] at hstep
      cases hstep
      exact Moves.misses rfl (hentry.trans hdentry)

theorem enter_moves (h : Sound s) {job : Job} {inum : UInt64} {phase' : Phase}
    (hstep : advance hash name job s (Phase.allocated inum) = Except.ok (s', phase')) :
    Moves hash name s (Phase.allocated inum) s' phase' := by
  rcases h.root with ⟨root, hroot⟩
  have hentry : s.child? (hash name) = root.children[hash name]? := child?_of_root hroot _
  have hafter := afterEntry_stage job inum
  rw [advance, deref_eq_ok.mpr hroot, ok_bind] at hstep
  unfold Inode.addDentry at hstep
  cases hchild : root.children[hash name]? with
  | some d =>
      rw [hchild] at hstep
      cases hstep
      exact Moves.collides rfl (hentry.trans hchild) hafter.left
        (h.rewrite hroot (SameBlocks.refl root))
  | none =>
      rw [hchild] at hstep
      cases hstep
      exact Moves.enters rfl hroot (hentry.trans hchild) hafter.left hafter.right

/-- Every call is one of these. -/
theorem advance_moves (h : Sound s) {job : Job} {phase phase' : Phase}
    (hstep : advance hash name job s phase = Except.ok (s', phase')) :
    Moves hash name s phase s' phase' := by
  rcases h.root with ⟨root, hroot⟩
  have hget := getInode_of_some h.unlocked hroot
  cases phase with
  | start =>
      rw [advance, hget, ok_bind] at hstep
      cases hstep
      exact Moves.waits (fun heq => by cases heq) rfl (Or.inl rfl)
  | hasRoot => exact check_moves h hstep
  | absent =>
      cases job with
      | createFile isDir =>
          rcases bind_eq_ok.mp hstep with ⟨⟨inum, t⟩, halloc, hpure⟩
          cases hpure
          exact allocate_moves h rfl halloc
      | openFile | writeFile offset length rands =>
          simp only [advance, hget, ok_bind] at hstep
          cases hstep
          exact Moves.waits (fun heq => by cases heq) rfl (Or.inr rfl)
  | creating =>
      rcases bind_eq_ok.mp hstep with ⟨⟨inum, t⟩, halloc, hpure⟩
      cases hpure
      exact allocate_moves h rfl halloc
  | allocated inum => exact enter_moves h hstep
  | created =>
      rcases bind_eq_ok.mp hstep with ⟨root', _, hstep⟩
      rcases bind_eq_ok.mp hstep with ⟨d, _, hpure⟩
      cases hpure
      exact Moves.settles rfl rfl (Or.inr rfl) (Quiet.refl h)
  | found d =>
      cases hfile : s.inode? d.inum with
      | none =>
          rw [advance, getInode_of_none h.unlocked hfile] at hstep
          cases hstep
      | some file =>
          rw [advance, getInode_of_some h.unlocked hfile] at hstep
          cases hstep
          exact Moves.settles rfl rfl (Or.inr rfl) (Quiet.refl h)
  | opened inum =>
      cases job with
      | createFile isDir | openFile =>
          cases hstep
          exact Moves.settles rfl rfl (Or.inr rfl) (Quiet.refl h)
      | writeFile offset length rands =>
          rcases bind_eq_ok.mp hstep with ⟨⟨reply, s1⟩, hwrite, hpure⟩
          cases hpure
          have hrest := h.writeBlocks hwrite
          exact Moves.settles rfl rfl (Or.inr hrest.right) hrest.left
  | ready =>
      rcases bind_eq_ok.mp hstep with ⟨⟨fd, fileMap⟩, halloc, hpure⟩
      cases hpure
      exact Moves.settles rfl rfl (Or.inr rfl)
        (h.descriptors (allocateFD_unlocked h.unlocked.descriptors halloc))
  | done reply =>
      cases hstep
      exact Moves.settles rfl rfl (Or.inl rfl) (Quiet.refl h)

end Server

/-!
# Counting the new inodes
-/

/-- The inodes of the state are those of the first one and the new ones. -/
structure Tracks (s0 s : MetadataServiceImpl) (new : Finset UInt64) : Prop where
  sound : Sound s
  inodes : forall i, (exists file, s.inode? i = some file) <->
    (exists file, s0.inode? i = some file) ∨ i ∈ new
  fresh : forall i, i ∈ new -> s0.inode? i = none
  curSize : s.inodeTable.curSize.toNat = s0.inodeTable.curSize.toNat + new.card

section Tracking

variable {s0 s s' : MetadataServiceImpl} {new : Finset UInt64}

theorem tracks_start (h : Sound s0) : Tracks s0 s0 ∅ where
  sound := h
  inodes := fun i => by simp
  fresh := fun i hi => absurd hi (Finset.notMem_empty i)
  curSize := rfl

theorem Tracks.quiet (h : Tracks s0 s new) (hquiet : Quiet s s') : Tracks s0 s' new where
  sound := hquiet.sound
  inodes := fun i => (hquiet.inodes i).trans (h.inodes i)
  fresh := h.fresh
  curSize := by
    rw [hquiet.curSize]
    exact h.curSize

theorem Tracks.entered (h : Tracks s0 s new) {root : Inode}
    (hroot : s.inode? rootInum = some root) (d : Dentry) :
    Tracks s0 (s.entered root d) new where
  sound := h.sound.entered hroot d
  inodes := by
    intro i
    rw [inode?_entered, exists_replaced hroot]
    exact h.inodes i
  fresh := h.fresh
  curSize := h.curSize

theorem Tracks.not_mem (h : Tracks s0 s new) {inum : UInt64}
    (hfree : inum ∈ s.inodeTable.freeList) : s0.inode? inum = none ∧ inum ∉ new := by
  have hnone : ¬ exists file, s.inode? inum = some file := by
    rw [inode?_eq_none_of_free h.sound.balanced hfree]
    rintro ⟨file, hfile⟩
    cases hfile
  rw [h.inodes inum] at hnone
  constructor
  · cases hfile : s0.inode? inum with
    | none => rfl
    | some file => exact absurd (Or.inl ⟨file, hfile⟩) hnone
  · intro hmem
    exact hnone (Or.inr hmem)

theorem Tracks.allocated (h : Tracks s0 s new) {inum : UInt64} (type : FileType)
    (hroom : s.inodeTable.curSize ≠ s.inodeTable.totalSize)
    (htop : s.inodeTable.freeList.top? = some inum) :
    Tracks s0 (s.allocated type inum) (insert inum new) := by
  have hnew := h.not_mem (MinHeap.top?_mem htop)
  have hsound := h.sound.allocated type hroom htop
  refine ⟨hsound, ?_, ?_, ?_⟩
  · intro i
    rw [inode?_allocated, Finset.mem_insert]
    split
    · rename_i heq
      exact ⟨fun _ => Or.inr (Or.inl heq.symm), fun _ => ⟨_, rfl⟩⟩
    · rename_i hne
      rw [h.inodes i]
      simp [Ne.symm hne]
  · intro i hi
    rcases Finset.mem_insert.mp hi with rfl | hi
    · exact hnew.left
    · exact h.fresh i hi
  · have hsize : (s.allocated type inum).inodeTable.table.size =
        s.inodeTable.table.size + 1 :=
      TreeMap.size_insert_of_not_mem (h.sound.balanced.freeFresh _ (MinHeap.top?_mem htop))
    rw [hsound.balanced.curSize, hsize, ← h.sound.balanced.curSize, h.curSize,
      Finset.card_insert_of_notMem hnew.right]
    rfl

theorem Tracks.child?_allocated (h : Tracks s0 s new) {inum : UInt64} (type : FileType)
    (htop : s.inodeTable.freeList.top? = some inum) (key : UInt64) :
    (s.allocated type inum).child? key = s.child? key := by
  have hne := (free_ne h.sound.balanced h.sound.root (MinHeap.top?_mem htop)).left
  unfold child?
  rw [inode?_allocated, if_neg hne]

/-- The counter is below the size of the table as long as few inodes are new. -/
theorem Tracks.curSize_ne (h : Tracks s0 s new)
    (hroom : s0.inodeTable.curSize.toNat + new.card < 100) :
    s.inodeTable.curSize ≠ s.inodeTable.totalSize := by
  intro heq
  have htotal := h.sound.balanced.totalSize
  rw [← heq, h.curSize] at htotal
  omega

end Tracking

end Racing
end Metadata
end SpongeBob
