import SpongeBob.Metadata.Descriptors

/-!
# Running out of descriptors

{lit}`OpenFile` enters an absent name into the directory before it asks for a
descriptor.  When none is free it replies with -1, and the new file stays.
-/

namespace SpongeBob
namespace Metadata

open Foundation
open Fs
open MetadataServiceImpl

variable {hash : String -> UInt64} {s s' : MetadataServiceImpl}

/-- The directory, the inodes and the descriptors are the same in both states. -/
structure Untouched (s s' : MetadataServiceImpl) : Prop where
  directory : forall key, s'.child? key = s.child? key
  inodes : forall i, s'.inode? i = s.inode? i
  freeInodes : s'.inodeTable.freeList = s.inodeTable.freeList
  freeDescriptors : s'.fileMap.fdFreeList = s.fileMap.fdFreeList
  openDescriptors : s'.fileMap.fdUsedSet = s.fileMap.fdUsedSet

theorem Untouched.refl (s : MetadataServiceImpl) : Untouched s s where
  directory := fun _ => rfl
  inodes := fun _ => rfl
  freeInodes := rfl
  freeDescriptors := rfl
  openDescriptors := rfl

/-- The name has an entry when {lit}`OpenFile` asks for the descriptor. -/
theorem Ensured.entry {name : String} (h : Ensured hash name s s') :
    exists d, s'.child? (hash name) = some d := by
  cases h with
  | present hentry => exact ⟨_, hentry⟩
  | created habsent hact =>
      cases hact with
      | create hroot hnone hfree htop =>
          exact ⟨_, by rw [child?_entered, if_pos rfl]⟩
  | full habsent hact =>
      cases hact with
      | createFull hroot hnone hfull =>
          exact ⟨_, by rw [child?_entered, if_pos rfl]⟩

/-- A map of descriptors that gives out none is left as it was. -/
theorem Reaches.allocateFD_fails {calls : List Call} (hreach : Reaches hash calls s)
    {fileMap : FileMap} (halloc : s.fileMap.allocateFD = Except.ok (-1, fileMap)) :
    fileMap = s.fileMap := by
  rcases hreach with ⟨replies, hrun⟩
  have hdivided : FileMap.Divided 100 s.fileMap :=
    (FileMap.divided_make (show (100 : UInt64).toNat + 3 < 2 ^ 31 by decide)).run
      (run_descriptors hrun)
  rcases hdivided.allocatesLeast (by decide) with ⟨fd, m, halloc', _, hfail, _⟩
  cases halloc.symm.trans halloc'
  exact hfail rfl

/--
An open that replies with -1 leaves the directory, the inodes and the descriptors as
they were exactly if its name had an entry.
-/
theorem openFile_untouched_iff {calls : List Call} (hreach : Reaches hash calls s)
    {name : String} {status : Status}
    (hopen : s.openFile hash name = Except.ok (Reply.openFile status (-1), s')) :
    Untouched s s' <-> exists d, s.child? (hash name) = some d := by
  rcases openFile_cases hreach.wellFormed hopen with
    ⟨s1, fd, fileMap, hensured, halloc, hreply, rfl⟩
  cases hreply
  rw [hensured.fileMap_eq] at halloc
  have hmap := hreach.allocateFD_fails halloc
  rw [hmap]
  constructor
  · intro huntouched
    rcases hensured.entry with ⟨d, hd⟩
    exists d
    rw [← huntouched.directory]
    exact hd
  · rintro ⟨d, hd⟩
    cases hensured with
    | present hentry => exact Untouched.refl s
    | created habsent hact => cases hd.symm.trans habsent
    | full habsent hact => cases hd.symm.trans habsent

/-- One file is opened as often as there are descriptors. -/
def hundredOpens : List Call :=
  List.replicate 100 (Request.openFile "a").call

theorem openFile_untouched_present :
    exists s s', Reaches byCodes hundredOpens s ∧
      s.openFile byCodes "a" = Except.ok (Reply.openFile Status.ok (-1), s') ∧
      Untouched s s' := by
  have hpass : runPasses byCodes hundredOpens (fun s =>
      passes (s.openFile byCodes "a")
        (fun result => decide (result.1 = Reply.openFile Status.ok (-1))) &&
      (s.child? (byCodes "a")).isSome) = true := by
    decide +kernel
  rcases reaches_of_runPasses hpass with ⟨s, hreach, htest⟩
  rw [Bool.and_eq_true] at htest
  rcases exists_of_passes htest.left with ⟨⟨reply, s'⟩, hopen, hreply⟩
  rw [show reply = Reply.openFile Status.ok (-1) from of_decide_eq_true hreply] at hopen
  exact ⟨s, s', hreach, hopen, (openFile_untouched_iff hreach hopen).mpr
    (Option.isSome_iff_exists.mp htest.right)⟩

/-- The open of another name fails, but the file is there afterwards. -/
theorem openFile_creates_anyway :
    exists s s', Reaches byCodes hundredOpens s ∧
      s.openFile byCodes "b" = Except.ok (Reply.openFile Status.ok (-1), s') ∧
      s.child? (byCodes "b") = none ∧
      s'.child? (byCodes "b") = some ⟨"b", byCodes "b", 2⟩ ∧ ¬ Untouched s s' := by
  have hpass : runPasses byCodes hundredOpens (fun s =>
      decide (s.child? (byCodes "b") = none) &&
      passes (s.openFile byCodes "b") (fun result =>
        decide (result.1 = Reply.openFile Status.ok (-1) ∧
          result.2.child? (byCodes "b") = some ⟨"b", byCodes "b", 2⟩))) = true := by
    decide +kernel
  rcases reaches_of_runPasses hpass with ⟨s, hreach, htest⟩
  rw [Bool.and_eq_true] at htest
  rcases exists_of_passes htest.right with ⟨⟨reply, s'⟩, hopen, hboth⟩
  rcases of_decide_eq_true hboth with ⟨hreply, hnew⟩
  have habsent := of_decide_eq_true htest.left
  rw [show reply = Reply.openFile Status.ok (-1) from hreply] at hopen
  refine ⟨s, s', hreach, hopen, habsent, hnew, ?_⟩
  intro huntouched
  rw [huntouched.directory, habsent] at hnew
  cases hnew

end Metadata
end SpongeBob
