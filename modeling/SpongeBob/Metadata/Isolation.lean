import SpongeBob.Metadata.Service

/-!
# File names and their hashes

The directory finds an entry by the hash of a name and never looks at the name that
the entry stores.  So one name is kept apart from all others exactly in the states in
which none of the others in the directory has its hash.
-/

namespace SpongeBob
namespace Metadata

open Foundation
open Fs
open MetadataServiceImpl

/-- Operations on a name neither return nor change the entries of other names. -/
structure Isolated (hash : String -> UInt64) (s : MetadataServiceImpl) (name : String) :
    Prop where
  get : forall (root : Inode) (d : Dentry), s.inode? rootInum = some root ->
    root.getDentry hash name = some d -> d.name = name
  add : forall (root : Inode) (inum key : UInt64) (d : Dentry), s.inode? rootInum = some root ->
    root.children[key]? = some d -> d.name ≠ name ->
    (root.addDentry hash name inum).2.children[key]? = some d
  delete : forall (root : Inode) (key : UInt64) (d : Dentry), s.inode? rootInum = some root ->
    root.children[key]? = some d -> d.name ≠ name ->
    (root.deleteDentry hash name).2.children[key]? = some d
  addAbsent : forall (root : Inode) (inum : UInt64), s.inode? rootInum = some root ->
    (forall (key : UInt64) (d : Dentry), root.children[key]? = some d -> d.name ≠ name) ->
    (root.addDentry hash name inum).1 = true
  call : forall call reply s', call.request.name? = some name ->
    serve hash s call = Except.ok (reply, s') ->
    forall key d, s.child? key = some d -> d.name ≠ name -> s'.child? key = some d

/-- No other name in the directory has the hash of this one. -/
def NoTwin (hash : String -> UInt64) (s : MetadataServiceImpl) (name : String) : Prop :=
  forall key d, s.child? key = some d -> d.name ≠ name -> hash d.name ≠ hash name

variable {hash : String -> UInt64} {s s' : MetadataServiceImpl} {name : String}

/-!
# Entries under other hashes
-/

theorem getElem?_addDentry {root : Inode} {inum key : UInt64} {d : Dentry}
    (hd : root.children[key]? = some d) :
    (root.addDentry hash name inum).2.children[key]? = some d := by
  unfold Inode.addDentry
  cases hold : root.children[hash name]? with
  | some other => exact hd
  | none =>
      have hne : hash name ≠ key := by
        rintro rfl
        rw [hold] at hd
        cases hd
      simpa [Std.ExtTreeMap.getElem?_insert, hne] using hd

theorem getElem?_deleteDentry {root : Inode} {key : UInt64} {d : Dentry}
    (hd : root.children[key]? = some d) (hne : hash name ≠ key) :
    (root.deleteDentry hash name).2.children[key]? = some d := by
  unfold Inode.deleteDentry
  cases hold : root.children[hash name]? with
  | some other => simpa [Std.ExtTreeMap.getElem?_erase, hne] using hd
  | none => exact hd

/-!
# Isolation
-/

/-- In a reachable state, a name is isolated exactly if it has no twin. -/
theorem isolated_iff_noTwin {calls : List Call} (hreach : Reaches hash calls s)
    (name : String) : Isolated hash s name <-> NoTwin hash s name := by
  have hwf := hreach.wellFormed
  rcases hwf.directory.root with ⟨root, hroot⟩
  have hentry : forall key, s.child? key = root.children[key]? := child?_of_root hroot
  constructor
  · intro h key d hd hne heq
    have hkey := (hwf.directory.key key d hd).right
    refine hne (h.get root d hroot ?_)
    rw [Inode.getDentry, ← hentry, ← heq, hkey]
    exact hd
  · intro h
    -- An entry of another name is stored under another hash.
    have hother : forall key d, s.child? key = some d -> d.name ≠ name -> hash name ≠ key := by
      intro key d hd hne heq
      refine h key d hd hne ?_
      rw [heq]
      exact (hwf.directory.key key d hd).right
    have hroot' : forall root', s.inode? rootInum = some root' -> root' = root := by
      intro root' hr
      rw [hroot] at hr
      exact (Option.some.inj hr).symm
    refine ⟨?_, ?_, ?_, ?_, ?_⟩
    · intro root' d hr hget
      cases hroot' root' hr
      by_contra hne
      exact hother (hash name) d ((hentry _).trans hget) hne rfl
    · intro root' inum key d hr hd _
      exact getElem?_addDentry hd
    · intro root' key d hr hd hne
      cases hroot' root' hr
      exact getElem?_deleteDentry hd (hother key d ((hentry key).trans hd) hne)
    · intro root' inum hr habsent
      cases hroot' root' hr
      unfold Inode.addDentry
      cases hold : root.children[hash name]? with
      | none => rfl
      | some d => exact absurd rfl (hother _ d ((hentry _).trans hold) (habsent _ d hold))
    · intro call reply s' hname hserve key d hd hne
      refine serve_child?_kept hwf hserve hd ?_
      intro m hm
      rw [hm] at hname
      cases hname
      exact hother key d hd hne

/-- A file whose name has a twin under the hash that adds up characters. -/
def twinCalls : List Call :=
  [(Request.createFile "ab" false).call]

theorem isolated_iff_noTwin_other :
    exists s, Reaches byCodes twinCalls s ∧
      (Isolated byCodes s "c" <-> NoTwin byCodes s "c") := by
  have hpass : runPasses byCodes twinCalls (fun _ => true) = true := by
    decide +kernel
  rcases reaches_of_runPasses hpass with ⟨s, hreach, _⟩
  exact ⟨s, hreach, isolated_iff_noTwin hreach "c"⟩

/-- Looking up the twin finds the file's entry. -/
theorem twin_finds_other_entry :
    ¬ (forall (hash : String -> UInt64) (calls : List Call) (s : MetadataServiceImpl)
      (name : String), Reaches hash calls s -> Isolated hash s name) := by
  intro hisolated
  have hpass : runPasses byCodes twinCalls (fun s =>
      decide (((s.inode? rootInum).bind (fun root => root.getDentry byCodes "ba")).map
        Dentry.name = some "ab")) = true := by
    decide +kernel
  rcases reaches_of_runPasses hpass with ⟨s, hreach, htest⟩
  rcases Option.map_eq_some_iff.mp (of_decide_eq_true htest) with ⟨d, hbind, hname⟩
  rcases Option.bind_eq_some_iff.mp hbind with ⟨root, hroot, hget⟩
  have hsame := (hisolated byCodes twinCalls s "ba" hreach).get root d hroot hget
  rw [hname] at hsame
  exact absurd hsame (by decide)

end Metadata
end SpongeBob
