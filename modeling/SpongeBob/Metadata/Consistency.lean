import SpongeBob.Metadata.Service

/-!
# The directory and the inode table

When no inode is free, the allocator reports a number outside the table, and two of
the three handlers that create files enter it in the directory all the same.  This
is the only way in which the directory and the table come to disagree.
-/

namespace SpongeBob
namespace Metadata

open Foundation
open Fs
open MetadataServiceImpl

/-- Entries and inodes other than the root's correspond one to one. -/
structure Consistent (s : MetadataServiceImpl) : Prop where
  target : forall key d, s.child? key = some d ->
    d.inum ≠ rootInum ∧ exists file, s.inode? d.inum = some file
  injective : forall key d key' d', s.child? key = some d -> s.child? key' = some d' ->
    d.inum = d'.inum -> key = key'
  named : forall i file, s.inode? i = some file -> i ≠ rootInum ->
    exists key d, s.child? key = some d ∧ d.inum = i

/-- The name that the handler of a request creates if it is absent. -/
def Request.creates? : Request -> Option String
  | Request.createFile name _ => some name
  | Request.openFile name => some name
  | Request.writeFile name _ _ => some name
  | _ => none

/-- The call attempts a creation, and no inode is free. -/
def CreatesWhenFull (hash : String -> UInt64) (s : MetadataServiceImpl) (call : Call) :
    Prop :=
  s.inodeTable.curSize = s.inodeTable.totalSize ∧
    exists name, call.request.creates? = some name ∧ s.child? (hash name) = none

/-- No entry carries the number for "no inode". -/
def NoneDangling (s : MetadataServiceImpl) : Prop :=
  forall key d, s.child? key = some d -> d.inum ≠ noInum

variable {hash : String -> UInt64} {s s' : MetadataServiceImpl}

theorem NoneDangling.consistent (hwf : WellFormed hash s) (h : NoneDangling s) :
    Consistent s where
  target := by
    intro key d hd
    exact ⟨hwf.directory.notRoot key d hd,
      (hwf.directory.target key d hd).resolve_left (h key d hd)⟩
  injective := by
    intro key d key' d' hd hd' hinum
    exact hwf.directory.injective key d key' d' hd hd' hinum (h key d hd)
  named := hwf.directory.named

theorem noneDangling_init : NoneDangling MetadataServiceImpl.init := by
  intro key d hd
  rw [child?_init] at hd
  cases hd

/-!
# Actions
-/

/-- Where an entry of the state after an action comes from. -/
theorem Acts.child?_cases {a : Action} (hact : Acts hash s a s') (hwf : WellFormed hash s)
    {key : UInt64} {d : Dentry} (hd : s'.child? key = some d) :
    s.child? key = some d ∨
      (exists name type inum, a = Action.create name type inum ∧
        d = ⟨name, hash name, inum⟩ ∧ inum ∈ s.inodeTable.freeList) ∨
      (exists name, a = Action.createFull name ∧ d = ⟨name, hash name, noInum⟩) := by
  cases hact with
  | create hroot habsent hfree htop =>
      rw [child?_entered, ← child?_of_root hroot] at hd
      split at hd
      · cases hd
        exact Or.inr (Or.inl ⟨_, _, _, rfl, rfl, MinHeap.top?_mem htop⟩)
      · exact Or.inl hd
  | createFull hroot habsent hfull =>
      rw [child?_entered, ← child?_of_root hroot] at hd
      split at hd
      · cases hd
        rw [totalSize_eq hwf.balanced]
        exact Or.inr (Or.inr ⟨_, rfl, rfl⟩)
      · exact Or.inl hd
  | append hsm htop hfile hroom => exact Or.inl ((child?_appended hfile key).symm.trans hd)
  | rewrite hfile hsame =>
      exact Or.inl ((child?_putInode hfile hsame.children key).symm.trans hd)
  | remove hroot hdentry hfile =>
      have hne := hwf.directory.notRoot _ _ ((child?_of_root hroot _).trans hdentry)
      rw [child?_removed hne, ← child?_of_root hroot] at hd
      split at hd
      · cases hd
      · exact Or.inl hd
  | unlink hroot hdentry hgone =>
      rw [child?_unlinked, ← child?_of_root hroot] at hd
      split at hd
      · cases hd
      · exact Or.inl hd
  | register => exact Or.inl hd
  | descriptors hunlocked => exact Or.inl hd

theorem Acts.noneDangling {a : Action} (hact : Acts hash s a s') (hwf : WellFormed hash s)
    (h : NoneDangling s) (hnot : forall name, a ≠ Action.createFull name) :
    NoneDangling s' := by
  intro key d hd
  rcases hact.child?_cases hwf hd with hold | ⟨_, _, _, _, rfl, hfree⟩ | ⟨name, hfull, _⟩
  · exact h key d hold
  · exact (free_ne hwf.balanced hwf.directory.root hfree).right
  · exact absurd hfull (hnot name)

/-!
# Calls
-/

theorem Acts.create_free {name : String} {type : FileType} {inum : UInt64}
    (hact : Acts hash s (Action.create name type inum) s') :
    s.inodeTable.curSize ≠ s.inodeTable.totalSize := by
  cases hact with
  | create hroot habsent hfree htop => exact hfree

theorem Acts.createFull_full {name : String}
    (hact : Acts hash s (Action.createFull name) s') :
    s.inodeTable.curSize = s.inodeTable.totalSize ∧ s.child? (hash name) = none := by
  cases hact with
  | createFull hroot habsent hfull => exact ⟨hfull, (child?_of_root hroot _).trans habsent⟩

/-- A creation without a free inode that completes leaves a dangling entry. -/
theorem dangling_of_createsWhenFull (hwf : WellFormed hash s) {call : Call} {reply : Reply}
    (hserve : serve hash s call = Except.ok (reply, s'))
    (hfull : CreatesWhenFull hash s call) :
    exists key d, s.child? key = none ∧ s'.child? key = some d ∧ d.inum = noInum := by
  rcases hfull with ⟨hsize, name, hcreates, habsent⟩
  rcases call with ⟨request, rands⟩
  cases request with
  | createFile name' isDir =>
      cases hcreates
      rcases createFile_cases hwf hserve with
        ⟨d, hd, _⟩ | ⟨_, inum, _, hact | ⟨_, hact⟩⟩
      · rw [habsent] at hd
        cases hd
      · exact absurd hsize hact.create_free
      · exact ⟨hash name, _, habsent,
          (child?_createFull hwf.balanced hact _).trans (if_pos rfl), rfl⟩
  | openFile name' =>
      cases hcreates
      rcases openFile_cases hwf hserve with ⟨s1, fd, fileMap, hensured, _, _, rfl⟩
      cases hensured with
      | present hd =>
          rw [habsent] at hd
          cases hd
      | created hd hact => exact absurd hsize hact.create_free
      | full hd hact =>
          exact ⟨hash name, _, habsent,
            (child?_createFull hwf.balanced hact _).trans (if_pos rfl), rfl⟩
  | writeFile name' offset length =>
      cases hcreates
      rcases writeFile_cases hwf hserve with
        ⟨s1, s2, d, file, grown, written, extents, hwrote, _⟩
      rcases hwrote.ensured.of_inode hwf hwrote.entry hwrote.inode with rfl | hact
      · have hentry := hwrote.entry
        rw [habsent] at hentry
        cases hentry
      · exact absurd hsize hact.create_free
  | _ => cases hcreates

/--
While an inode is free for every creation, a call performs no action that enters a
name without an inode; what all other actions keep, the call keeps.
-/
theorem serve_keeps_of_room (Inv : MetadataServiceImpl -> Prop) {call : Call}
    (keep : forall s a s', WellFormed hash s -> Inv s -> call.request.Allows a ->
      (forall name, a ≠ Action.createFull name) -> Acts hash s a s' -> Inv s')
    (hwf : WellFormed hash s) (hinv : Inv s) (hroom : ¬ CreatesWhenFull hash s call)
    {reply : Reply} (hserve : serve hash s call = Except.ok (reply, s')) : Inv s' := by
  have hother : (forall name, ¬ call.request.Allows (Action.createFull name)) ->
      Inv s' := by
    intro hnot
    refine serve_keeps Inv ?_ hwf hinv hserve
    intro s1 a s2 hwf1 h1 hallows hact
    refine keep s1 a s2 hwf1 h1 hallows ?_ hact
    rintro name rfl
    exact hnot name hallows
  rcases call with ⟨request, rands⟩
  cases request with
  | createFile name isDir =>
      rcases createFile_cases hwf hserve with
        ⟨d, _, _, rfl⟩ | ⟨_, inum, _, hact | ⟨_, hact⟩⟩
      · exact hinv
      · exact keep _ _ _ hwf hinv (Request.Allows.create name isDir inum)
          (fun _ heq => by cases heq) hact
      · exact absurd ⟨hact.createFull_full.left, name, rfl, hact.createFull_full.right⟩ hroom
  | openFile name =>
      rcases openFile_cases hwf hserve with ⟨s1, fd, fileMap, hensured, halloc, _, rfl⟩
      have hwf1 := hensured.wellFormed hwf
      have hlast : Inv s1 -> Inv { s1 with fileMap := fileMap } := fun h =>
        keep s1 _ _ hwf1 h (Request.Allows.openFile name) (fun _ heq => by cases heq)
          (Acts.descriptors (allocateFD_unlocked hwf1.unlocked.descriptors halloc))
      cases hensured with
      | present hd => exact hlast hinv
      | @created inum _ hd hact =>
          exact hlast (keep _ _ _ hwf hinv (Request.Allows.openCreate name inum)
            (fun _ heq => by cases heq) hact)
      | full hd hact =>
          exact absurd ⟨hact.createFull_full.left, name, rfl, hact.createFull_full.right⟩ hroom
  | _ =>
      refine hother ?_
      intro name hallows
      cases hallows

theorem serve_noneDangling (hwf : WellFormed hash s) (h : NoneDangling s) {call : Call}
    {reply : Reply} (hserve : serve hash s call = Except.ok (reply, s'))
    (hroom : ¬ CreatesWhenFull hash s call) : NoneDangling s' :=
  serve_keeps_of_room NoneDangling
    (fun _ _ _ hwf h _ hnot hact => Acts.noneDangling hact hwf h hnot) hwf h hroom hserve

/-!
# Runs
-/

/-- A creation attempted without a free inode leaves the directory as it was. -/
def FullCreationIdle (hash : String -> UInt64) (s : MetadataServiceImpl) (call : Call) :
    Prop :=
  forall reply s', serve hash s call = Except.ok (reply, s') ->
    CreatesWhenFull hash s call -> forall key, s'.child? key = s.child? key

/--
In a run, the directory and the table agree in every state, and creations without a
free inode change nothing, exactly if no step is such a creation.
-/
theorem consistent_iff_room {calls : List Call} (hreach : Reaches hash calls s) :
    (EveryState (serve hash) MetadataServiceImpl.init calls Consistent ∧
      EveryStep (serve hash) MetadataServiceImpl.init calls (FullCreationIdle hash)) <->
      EveryStep (serve hash) MetadataServiceImpl.init calls
        (fun s call => ¬ CreatesWhenFull hash s call) := by
  rcases hreach with ⟨replies, hrun⟩
  have hiff := everyState_iff_everyStep (WellFormed hash) NoneDangling
    (Q := Consistent) (P := fun s call => ¬ CreatesWhenFull hash s call)
    wellFormed_init noneDangling_init
    (fun _ _ _ _ hwf hstep => serve_wellFormed hwf hstep)
    (fun _ hwf h => h.consistent hwf) ?_
    (fun _ _ _ _ hwf hstep h hfull => serve_noneDangling hwf h hstep hfull) hrun
  · constructor
    · rintro ⟨hstates, _⟩
      exact hiff.mp hstates
    · intro hsteps
      refine ⟨hiff.mpr hsteps, ?_⟩
      intro before call after outs s1 hsplit hbefore reply s2 _ hfull
      exact absurd hfull (hsteps before call after outs s1 hsplit hbefore)
  · intro s call reply s' hwf hstep hconsistent hfull
    rcases dangling_of_createsWhenFull hwf hstep hfull with ⟨key, d, _, hd, hinum⟩
    rcases (hconsistent.target key d hd).right with ⟨file, hfile⟩
    rw [hinum, inode?_noInum (serve_wellFormed hwf hstep).balanced] at hfile
    cases hfile

/-- A file is created, another one opened, and the first one removed. -/
def createCalls : List Call :=
  [(Request.createFile "a" true).call, (Request.openFile "b").call,
   (Request.removeFile "a").call]

theorem consistent_iff_room_create :
    (exists s, Reaches byCodes createCalls s) ∧
      ((EveryState (serve byCodes) MetadataServiceImpl.init createCalls Consistent ∧
        EveryStep (serve byCodes) MetadataServiceImpl.init createCalls
          (FullCreationIdle byCodes)) <->
        EveryStep (serve byCodes) MetadataServiceImpl.init createCalls
          (fun s call => ¬ CreatesWhenFull byCodes s call)) := by
  have hpass : runPasses byCodes createCalls (fun _ => true) = true := by
    decide +kernel
  rcases reaches_of_runPasses hpass with ⟨s, hreach, _⟩
  exact ⟨⟨s, hreach⟩, consistent_iff_room hreach⟩

/-- A hundred names of one character each. -/
def fillNames : List String :=
  (List.range 100).map (fun n => String.singleton (Char.ofNat (33 + n)))

/-- Files of all these names are created: one more than there are free inodes. -/
def fillCalls : List Call :=
  fillNames.map (fun name => (Request.createFile name false).call)

theorem collisionFree_fill : CollisionFree byCodes (names fillCalls) := by
  have hnames : names fillCalls = fillNames := by
    rw [names, fillCalls, List.filterMap_map]
    exact List.filterMap_some
  have hcodes : fillNames.map byCodes = Word.iota 100 33 := by
    rw [fillNames, List.map_map, Word.iota]
    apply List.map_congr_left
    intro n hn
    have hlt := List.mem_range.mp hn
    have hvalid : (33 + n).isValidChar := Or.inl (by omega)
    have hcode : (Char.ofNat (33 + n)).toNat = 33 + n := by
      rw [Char.ofNat, dif_pos hvalid]
      rfl
    simp [byCodes, hcode]
  apply collisionFree_of_nodup
  rw [hnames, hcodes]
  exact Word.nodup_iota (by decide)

/-- The last of the files is entered with a number that no inode has. -/
theorem fill_leaves_dangling_entry :
    ¬ (forall (hash : String -> UInt64) (calls : List Call) (s : MetadataServiceImpl),
      CollisionFree hash (names calls) -> Reaches hash calls s -> Consistent s) := by
  intro hconsistent
  have hpass : runPasses byCodes fillCalls
      (fun s => decide ((s.child? 132).map Dentry.inum = some 101 ∧
        (s.inode? 101).isNone)) = true := by
    decide +kernel
  rcases reaches_of_runPasses hpass with ⟨s, hreach, htest⟩
  rcases of_decide_eq_true htest with ⟨hentry, hnone⟩
  rcases Option.map_eq_some_iff.mp hentry with ⟨d, hd, hinum⟩
  have hs := hconsistent byCodes fillCalls s collisionFree_fill hreach
  rcases (hs.target 132 d hd).right with ⟨file, hfile⟩
  rw [hinum] at hfile
  rw [hfile] at hnone
  cases hnone

end Metadata
end SpongeBob
