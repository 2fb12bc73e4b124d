import SpongeBob.Metadata.HandlerMoves

/-!
# Two handlers at once

Two handlers that were asked for the same name interleave, one call at a time: each
looks the name up and, if it is absent, allocates an inode and enters it, without
asking whether the other has done so in between.
-/

namespace SpongeBob
namespace Metadata
namespace Racing

open Foundation
open Fs
open MetadataServiceImpl

section Handlers

variable (hash : String -> UInt64) (name : String)

structure Race where
  server : MetadataServiceImpl
  handlers : Bool -> Phase

def Race.start (s : MetadataServiceImpl) : Race where
  server := s
  handlers := fun _ => Phase.start

/-- The race after a call of one handler. -/
def Race.put (r : Race) (h : Bool) (s : MetadataServiceImpl) (phase : Phase) : Race where
  server := s
  handlers := Function.update r.handlers h phase

/-- The next call of one of the handlers; a handler that is done makes no more. -/
def race (jobs : Bool -> Job) (r : Race) (h : Bool) : Except Fault (Unit × Race) := do
  let (s, phase) ← advance hash name (jobs h) r.server (r.handlers h)
  pure ((), r.put h s phase)

end Handlers

/-- One inode is new, the name leads to it, and every reply about the name says so. -/
def CreatedOnce (hash : String -> UInt64) (name : String) (s : MetadataServiceImpl)
    (r : Race) : Prop :=
  exists inum, s.inode? inum = none ∧
    (forall i, (exists file, r.server.inode? i = some file) <->
      (exists file, s.inode? i = some file) ∨ i = inum) ∧
    r.server.child? (hash name) = some ⟨name, hash name, inum⟩ ∧
    forall h status n, r.handlers h = Phase.done (Reply.createFile status n) -> n = inum

/-- When a handler looks the name up, the other is not about to enter it. -/
def Apart (r : Race) (h : Bool) : Prop :=
  r.handlers h = Phase.hasRoot -> (r.handlers (!h)).inside = false

/-!
# One at a time, or both
-/

/-- At most one of the handlers creates the file. -/
inductive Single (hash : String -> UInt64) (name : String) (s0 : MetadataServiceImpl)
    (r : Race) : Prop where
  | before (htracks : Tracks s0 r.server ∅) (hentry : r.server.child? (hash name) = none)
      (hstage : forall h, (r.handlers h).stage = Stage.checking ∨
        ((r.handlers h).stage = Stage.committed ∧ (r.handlers (!h)).stage = Stage.checking))
  | holding (h : Bool) (inum : UInt64) (htracks : Tracks s0 r.server {inum})
      (hentry : r.server.child? (hash name) = none)
      (hholds : (r.handlers h).stage = Stage.holding inum)
      (hother : (r.handlers (!h)).stage = Stage.checking)
  | entered (inum : UInt64) (htracks : Tracks s0 r.server {inum})
      (hentry : r.server.child? (hash name) = some ⟨name, hash name, inum⟩)
      (hstage : forall h, (r.handlers h).stage = Stage.checking ∨
        (r.handlers h).stage = Stage.settled)
      (hreported : forall h n, (r.handlers h).reported = some n -> n = inum)

/-- How many inodes a handler has still to allocate. -/
def Phase.owed (phase : Phase) : Nat :=
  if phase.stage = Stage.committed then 1 else 0

def Race.owed (r : Race) : Nat :=
  (r.handlers true).owed + (r.handlers false).owed

/-- Both handlers create the file. -/
def Twice (s0 : MetadataServiceImpl) (r : Race) : Prop :=
  exists new, Tracks s0 r.server new ∧ new.card + r.owed = 2 ∧
    forall h, (r.handlers h).stage ≠ Stage.checking

section Handlers

variable {r : Race} {s : MetadataServiceImpl} {h : Bool} {phase : Phase}

@[simp] theorem handlers_put_self : (r.put h s phase).handlers h = phase :=
  Function.update_self ..

@[simp] theorem handlers_put_other : (r.put h s phase).handlers (!h) = r.handlers (!h) :=
  Function.update_of_ne (Bool.not_ne_self h) ..

theorem forall_handlers {P : Bool -> Prop} (h : Bool) (hself : P h) (hother : P (!h)) :
    forall k, P k := by
  intro k
  by_cases hk : k = h
  · rw [hk]
    exact hself
  · rw [Bool.eq_not_of_ne hk]
    exact hother

theorem forall_put (P : Phase -> Prop) (hself : P phase) (hother : P (r.handlers (!h))) :
    forall k, P ((r.put h s phase).handlers k) := by
  refine forall_handlers h ?_ ?_
  · rw [handlers_put_self]
    exact hself
  · rw [handlers_put_other]
    exact hother

theorem owed_eq (r : Race) (h : Bool) :
    r.owed = (r.handlers h).owed + (r.handlers (!h)).owed := by
  cases h with
  | true => rfl
  | false => exact Nat.add_comm _ _

theorem owed_put : (r.put h s phase).owed = phase.owed + (r.handlers (!h)).owed := by
  rw [owed_eq _ h, handlers_put_self, handlers_put_other]

theorem reported_of_checking (hstage : phase.stage = Stage.checking) :
    phase.reported = none := by
  cases phase with
  | start => rfl
  | hasRoot => rfl
  | _ => cases hstage

end Handlers

section Stages

variable {hash : String -> UInt64} {name : String} {s s' : MetadataServiceImpl}
  {phase phase' : Phase}

theorem Moves.of_checking (hmoves : Moves hash name s phase s' phase')
    (hfrom : phase.stage = Stage.checking) :
    s' = s ∧ ((phase ≠ Phase.hasRoot ∧ phase'.stage = Stage.checking) ∨
      (phase = Phase.hasRoot ∧ s.child? (hash name) = none ∧
        phase'.stage = Stage.committed) ∨
      (exists d, s.child? (hash name) = some d ∧ phase'.stage = Stage.settled ∧
        forall n, phase'.reported = some n -> n = d.inum)) := by
  cases hmoves with
  | waits hnot hstage _ => exact ⟨rfl, Or.inl ⟨hnot, hstage.trans hfrom⟩⟩
  | misses hphase hentry => exact ⟨rfl, Or.inr (Or.inl ⟨hphase, hentry, rfl⟩)⟩
  | finds _ hentry hstage hreported =>
      exact ⟨rfl, Or.inr (Or.inr ⟨_, hentry, hstage, hreported⟩)⟩
  | allocates hstage => cases hfrom.symm.trans hstage
  | refused hstage => cases hfrom.symm.trans hstage
  | enters hstage => cases hfrom.symm.trans hstage
  | collides hstage => cases hfrom.symm.trans hstage
  | settles hstage => cases hfrom.symm.trans hstage

theorem Moves.of_committed (hmoves : Moves hash name s phase s' phase')
    (hfrom : phase.stage = Stage.committed) :
    (s' = s ∧ phase'.stage = Stage.committed) ∨
    (exists type inum, s.inodeTable.curSize ≠ s.inodeTable.totalSize ∧
      s.inodeTable.freeList.top? = some inum ∧ s' = s.allocated type inum ∧
      phase'.stage = Stage.holding inum) ∨
    s.inodeTable.curSize = s.inodeTable.totalSize := by
  cases hmoves with
  | waits _ hstage _ => exact Or.inl ⟨rfl, hstage.trans hfrom⟩
  | allocates _ hroom htop => exact Or.inr (Or.inl ⟨_, _, hroom, htop, rfl, rfl⟩)
  | refused _ hfull => exact Or.inr (Or.inr hfull)
  | misses hphase => cases hphase ▸ hfrom
  | finds hphase => cases hphase ▸ hfrom
  | enters hstage => cases hfrom.symm.trans hstage
  | collides hstage => cases hfrom.symm.trans hstage
  | settles hstage => cases hfrom.symm.trans hstage

theorem Moves.of_holding (hmoves : Moves hash name s phase s' phase') {inum : UInt64}
    (hfrom : phase.stage = Stage.holding inum) :
    phase'.stage = Stage.settled ∧
    ((exists root, s.inode? rootInum = some root ∧ s.child? (hash name) = none ∧
      s' = s.entered root ⟨name, hash name, inum⟩ ∧
      forall n, phase'.reported = some n -> n = inum) ∨
    (exists d, s.child? (hash name) = some d ∧ Quiet s s')) := by
  cases hmoves with
  | enters hstage hroot hentry hnext hreported =>
      cases hfrom.symm.trans hstage
      exact ⟨hnext, Or.inl ⟨_, hroot, hentry, rfl, hreported⟩⟩
  | collides _ hentry hnext hquiet => exact ⟨hnext, Or.inr ⟨_, hentry, hquiet⟩⟩
  | waits _ _ hunsettled =>
      rw [hfrom] at hunsettled
      rcases hunsettled with h | h <;> cases h
  | misses hphase => cases hphase ▸ hfrom
  | finds hphase => cases hphase ▸ hfrom
  | allocates hstage => cases hfrom.symm.trans hstage
  | refused hstage => cases hfrom.symm.trans hstage
  | settles hstage => cases hfrom.symm.trans hstage

theorem Moves.of_settled (hmoves : Moves hash name s phase s' phase')
    (hfrom : phase.stage = Stage.settled) :
    Quiet s s' ∧ phase'.stage = Stage.settled ∧
      (phase'.reported = phase.reported ∨ phase'.reported = none) := by
  cases hmoves with
  | settles _ hstage hreported hquiet => exact ⟨hquiet, hstage, hreported⟩
  | waits _ _ hunsettled =>
      rw [hfrom] at hunsettled
      rcases hunsettled with h | h <;> cases h
  | misses hphase => cases hphase ▸ hfrom
  | finds hphase => cases hphase ▸ hfrom
  | allocates hstage => cases hfrom.symm.trans hstage
  | refused hstage => cases hfrom.symm.trans hstage
  | enters hstage => cases hfrom.symm.trans hstage
  | collides hstage => cases hfrom.symm.trans hstage

end Stages

section Steps

variable {hash : String -> UInt64} {name : String} {s0 s' : MetadataServiceImpl}
  {r : Race} {h : Bool} {phase' : Phase}

theorem apart_of_stage (hother : (r.handlers (!h)).stage = Stage.checking ∨
    (r.handlers (!h)).stage = Stage.settled) : Apart r h := by
  intro _
  rw [Bool.eq_false_iff]
  intro hinside
  rcases Phase.inside_iff.mp hinside with hstage | ⟨inum, hstage⟩
  · rw [hstage] at hother
    rcases hother with heq | heq <;> cases heq
  · rw [hstage] at hother
    rcases hother with heq | heq <;> cases heq

theorem not_apart (hphase : r.handlers h = Phase.hasRoot)
    (hother : (r.handlers (!h)).stage = Stage.committed ∨
      exists inum, (r.handlers (!h)).stage = Stage.holding inum) : ¬ Apart r h := by
  intro hapart
  cases (hapart hphase).symm.trans (Phase.inside_iff.mpr hother)

theorem Phase.owed_of_stage {phase : Phase} (hstage : phase.stage = Stage.committed) :
    phase.owed = 1 :=
  if_pos hstage

theorem Phase.owed_of_ne {phase : Phase} (hstage : phase.stage ≠ Stage.committed) :
    phase.owed = 0 :=
  if_neg hstage

/-- Both handlers have found the name absent. -/
theorem twice_of_miss {new : Finset UInt64} (htracks : Tracks s0 r.server new)
    (hnext : phase'.stage = Stage.committed)
    (hcard : new.card + (r.handlers (!h)).owed = 1)
    (hother : (r.handlers (!h)).stage ≠ Stage.checking) :
    Twice s0 (r.put h r.server phase') := by
  have hnot : phase'.stage ≠ Stage.checking := by simp [hnext]
  refine ⟨new, htracks, ?_, forall_put (fun p => p.stage ≠ Stage.checking) hnot hother⟩
  rw [owed_put, Phase.owed_of_stage hnext]
  omega

/-- A call before any inode has been allocated. -/
theorem single_before (hroom : s0.inodeTable.curSize.toNat < 100)
    (htracks : Tracks s0 r.server ∅) (hentry : r.server.child? (hash name) = none)
    (hstage : forall h, (r.handlers h).stage = Stage.checking ∨
      ((r.handlers h).stage = Stage.committed ∧ (r.handlers (!h)).stage = Stage.checking))
    (hmoves : Moves hash name r.server (r.handlers h) s' phase') :
    (Apart r h ∧ Single hash name s0 (r.put h s' phase')) ∨
      (¬ Apart r h ∧ Twice s0 (r.put h s' phase')) := by
  have hkeep : (phase'.stage = Stage.checking ∨
      (phase'.stage = Stage.committed ∧ (r.handlers (!h)).stage = Stage.checking)) ->
      ((r.handlers (!h)).stage = Stage.checking ∨
        ((r.handlers (!h)).stage = Stage.committed ∧ phase'.stage = Stage.checking)) ->
      Single hash name s0 (r.put h r.server phase') := by
    intro hself hother
    refine Single.before htracks hentry (forall_handlers h ?_ ?_)
    · rw [handlers_put_self, handlers_put_other]
      exact hself
    · rw [Bool.not_not, handlers_put_self, handlers_put_other]
      exact hother
  rcases hstage h with hfrom | ⟨hfrom, hother⟩
  · rcases hmoves.of_checking hfrom with ⟨rfl, ⟨hnot, hnext⟩ | ⟨hphase, _, hnext⟩ | ⟨d, hd, _⟩⟩
    · refine Or.inl ⟨fun hphase => absurd hphase hnot, hkeep (Or.inl hnext) ?_⟩
      rcases hstage (!h) with hother | ⟨hother, _⟩
      · exact Or.inl hother
      · exact Or.inr ⟨hother, hnext⟩
    · rcases hstage (!h) with hother | ⟨hother, _⟩
      · exact Or.inl ⟨apart_of_stage (Or.inl hother),
          hkeep (Or.inr ⟨hnext, hother⟩) (Or.inl hother)⟩
      · refine Or.inr ⟨not_apart hphase (Or.inl hother), twice_of_miss htracks hnext ?_ ?_⟩
        · rw [Phase.owed_of_stage hother]
          rfl
        · simp [hother]
    · rw [hentry] at hd
      cases hd
  · refine Or.inl ⟨apart_of_stage (Or.inl hother), ?_⟩
    rcases hmoves.of_committed hfrom with
      ⟨rfl, hnext⟩ | ⟨type, inum, hroom', htop, rfl, hnext⟩ | hfull
    · exact hkeep (Or.inr ⟨hnext, hother⟩) (Or.inl hother)
    · refine Single.holding h inum (htracks.allocated type hroom' htop) ?_ ?_ ?_
      · exact (htracks.child?_allocated type htop _).trans hentry
      · rw [handlers_put_self]
        exact hnext
      · rw [handlers_put_other]
        exact hother
    · exact absurd hfull (htracks.curSize_ne (by simpa using hroom))

/-- A call of the handler that holds the new inode. -/
theorem single_holder {inum : UInt64} (htracks : Tracks s0 r.server {inum})
    (hentry : r.server.child? (hash name) = none)
    (hholds : (r.handlers h).stage = Stage.holding inum)
    (hother : (r.handlers (!h)).stage = Stage.checking)
    (hmoves : Moves hash name r.server (r.handlers h) s' phase') :
    Single hash name s0 (r.put h s' phase') := by
  rcases hmoves.of_holding hholds with
    ⟨hnext, ⟨root, hroot, _, rfl, hreported⟩ | ⟨d, hd, _⟩⟩
  · have hnone : forall n, (r.handlers (!h)).reported = some n -> n = inum := by
      intro n hn
      rw [reported_of_checking hother] at hn
      cases hn
    exact Single.entered inum (htracks.entered hroot _)
      ((child?_entered root _ _).trans (if_pos rfl))
      (forall_put (fun p => p.stage = _ ∨ p.stage = _) (Or.inr hnext) (Or.inl hother))
      (forall_put (fun p => forall n, p.reported = some n -> n = inum) hreported hnone)
  · rw [hentry] at hd
    cases hd

/-- A call of the other handler while the inode is held. -/
theorem single_waiter {inum : UInt64} (htracks : Tracks s0 r.server {inum})
    (hentry : r.server.child? (hash name) = none)
    (hholds : (r.handlers (!h)).stage = Stage.holding inum)
    (hfrom : (r.handlers h).stage = Stage.checking)
    (hmoves : Moves hash name r.server (r.handlers h) s' phase') :
    (Apart r h ∧ Single hash name s0 (r.put h s' phase')) ∨
      (¬ Apart r h ∧ Twice s0 (r.put h s' phase')) := by
  rcases hmoves.of_checking hfrom with ⟨rfl, ⟨hnot, hnext⟩ | ⟨hphase, _, hnext⟩ | ⟨d, hd, _⟩⟩
  · refine Or.inl ⟨fun hphase => absurd hphase hnot,
      Single.holding (!h) inum htracks hentry ?_ ?_⟩
    · rw [handlers_put_other]
      exact hholds
    · rw [Bool.not_not, handlers_put_self]
      exact hnext
  · refine Or.inr ⟨not_apart hphase (Or.inr ⟨inum, hholds⟩), twice_of_miss htracks hnext ?_ ?_⟩
    · rw [Phase.owed_of_ne (by simp [hholds])]
      rfl
    · simp [hholds]
  · rw [hentry] at hd
    cases hd

theorem single_entered {inum : UInt64} (htracks : Tracks s0 r.server {inum})
    (hentry : r.server.child? (hash name) = some ⟨name, hash name, inum⟩)
    (hstage : forall h, (r.handlers h).stage = Stage.checking ∨
      (r.handlers h).stage = Stage.settled)
    (hreported : forall h n, (r.handlers h).reported = some n -> n = inum)
    (hmoves : Moves hash name r.server (r.handlers h) s' phase') :
    Single hash name s0 (r.put h s' phase') := by
  have hkeep : forall s1, Tracks s0 s1 {inum} ->
      s1.child? (hash name) = some ⟨name, hash name, inum⟩ ->
      (phase'.stage = Stage.checking ∨ phase'.stage = Stage.settled) ->
      (forall n, phase'.reported = some n -> n = inum) ->
      Single hash name s0 (r.put h s1 phase') := by
    intro s1 htracks1 hentry1 hstage1 hreported1
    exact Single.entered inum htracks1 hentry1
      (forall_put (fun p => p.stage = _ ∨ p.stage = _) hstage1 (hstage (!h)))
      (forall_put (fun p => forall n, p.reported = some n -> n = inum) hreported1
        (hreported (!h)))
  rcases hstage h with hfrom | hfrom
  · rcases hmoves.of_checking hfrom with ⟨rfl, ⟨_, hnext⟩ | ⟨_, hnone, _⟩ | ⟨d, hd, hnext, hn⟩⟩
    · refine hkeep _ htracks hentry (Or.inl hnext) ?_
      intro n hn
      rw [reported_of_checking hnext] at hn
      cases hn
    · rw [hentry] at hnone
      cases hnone
    · rw [hentry] at hd
      cases hd
      exact hkeep _ htracks hentry (Or.inr hnext) hn
  · rcases hmoves.of_settled hfrom with ⟨hquiet, hnext, hsame⟩
    refine hkeep _ (htracks.quiet hquiet) ((hquiet.entries _).trans hentry) (Or.inr hnext) ?_
    intro n hn
    rcases hsame with hsame | hnone
    · rw [hsame] at hn
      exact hreported h n hn
    · rw [hnone] at hn
      cases hn

theorem Single.moves (hsingle : Single hash name s0 r)
    (hroom : s0.inodeTable.curSize.toNat < 100)
    (hmoves : Moves hash name r.server (r.handlers h) s' phase') :
    (Apart r h ∧ Single hash name s0 (r.put h s' phase')) ∨
      (¬ Apart r h ∧ Twice s0 (r.put h s' phase')) := by
  cases hsingle with
  | before htracks hentry hstage => exact single_before hroom htracks hentry hstage hmoves
  | holding g inum htracks hentry hholds hother =>
      by_cases hg : h = g
      · subst hg
        exact Or.inl ⟨apart_of_stage (Or.inl hother),
          single_holder htracks hentry hholds hother hmoves⟩
      · have hgh : g = !h := Bool.eq_not_of_ne (Ne.symm hg)
        subst hgh
        rw [Bool.not_not] at hother
        exact single_waiter htracks hentry hholds hother hmoves
  | entered inum htracks hentry hstage hreported =>
      exact Or.inl ⟨apart_of_stage (hstage (!h)),
        single_entered htracks hentry hstage hreported hmoves⟩

/-- Once both handlers have found the name absent, both allocate an inode. -/
theorem Twice.moves (htwice : Twice s0 r) (hroom : s0.inodeTable.curSize.toNat + 2 ≤ 100)
    (hmoves : Moves hash name r.server (r.handlers h) s' phase') :
    Twice s0 (r.put h s' phase') := by
  rcases htwice with ⟨new, htracks, hcard, hstage⟩
  rw [owed_eq r h] at hcard
  have hkeep : forall s1 new1, Tracks s0 s1 new1 -> phase'.stage ≠ Stage.checking ->
      new1.card + phase'.owed = new.card + (r.handlers h).owed ->
      Twice s0 (r.put h s1 phase') := by
    intro s1 new1 htracks1 hnext hsame
    refine ⟨new1, htracks1, ?_,
      forall_put (fun p => p.stage ≠ Stage.checking) hnext (hstage (!h))⟩
    rw [owed_put]
    omega
  cases hfrom : (r.handlers h).stage with
  | checking => exact absurd hfrom (hstage h)
  | committed =>
      have howed := Phase.owed_of_stage hfrom
      have hne : r.server.inodeTable.curSize ≠ r.server.inodeTable.totalSize :=
        htracks.curSize_ne (by omega)
      rcases hmoves.of_committed hfrom with
        ⟨rfl, hnext⟩ | ⟨type, inum, _, htop, rfl, hnext⟩ | hfull
      · refine hkeep _ new htracks (by simp [hnext]) ?_
        rw [howed, Phase.owed_of_stage hnext]
      · refine hkeep _ _ (htracks.allocated type hne htop)
          (by simp [hnext]) ?_
        have hnew := (htracks.not_mem (MinHeap.top?_mem htop)).right
        have hpaid : phase'.owed = 0 :=
          Phase.owed_of_ne (by simp [hnext])
        rw [Finset.card_insert_of_notMem hnew, hpaid, howed]
      · exact absurd hfull hne
  | holding inum =>
      have howed : (r.handlers h).owed = 0 :=
        Phase.owed_of_ne (by simp [hfrom])
      rcases hmoves.of_holding hfrom with ⟨hnext, hrest⟩
      have hnext' : phase'.owed = 0 :=
        Phase.owed_of_ne (by simp [hnext])
      have htracks' : Tracks s0 s' new := by
        rcases hrest with ⟨root, hroot, _, rfl, _⟩ | ⟨d, _, hquiet⟩
        · exact htracks.entered hroot _
        · exact htracks.quiet hquiet
      refine hkeep _ new htracks' (by simp [hnext]) ?_
      rw [howed, hnext']
  | settled =>
      rcases hmoves.of_settled hfrom with ⟨hquiet, hnext, _⟩
      refine hkeep _ new (htracks.quiet hquiet) (by simp [hnext]) ?_
      rw [Phase.owed, Phase.owed, hfrom, hnext]

end Steps

/-!
# Whole races
-/

section Runs

variable {hash : String -> UInt64} {name : String} {jobs : Bool -> Job}
  {s0 : MetadataServiceImpl} {r r' : Race} {h : Bool} {out : Unit}

theorem race_moves (hsound : Sound r.server)
    (hstep : race hash name jobs r h = Except.ok (out, r')) :
    exists s' phase', Moves hash name r.server (r.handlers h) s' phase' ∧
      r' = r.put h s' phase' := by
  rcases bind_eq_ok.mp hstep with ⟨⟨s', phase'⟩, hadvance, hpure⟩
  cases hpure
  exact ⟨s', phase', advance_moves hsound hadvance, rfl⟩

theorem single_start (hwf : WellFormed hash s0) (habsent : s0.child? (hash name) = none) :
    Single hash name s0 (Race.start s0) :=
  Single.before (tracks_start (sound_of_wellFormed hwf)) habsent (fun _ => Or.inl rfl)

theorem Single.tracks (hsingle : Single hash name s0 r) : exists new, Tracks s0 r.server new := by
  cases hsingle with
  | before htracks => exact ⟨_, htracks⟩
  | holding h inum htracks => exact ⟨_, htracks⟩
  | entered inum htracks => exact ⟨_, htracks⟩

theorem Single.step (hsingle : Single hash name s0 r)
    (hroom : s0.inodeTable.curSize.toNat < 100)
    (hstep : race hash name jobs r h = Except.ok (out, r')) :
    (Apart r h ∧ Single hash name s0 r') ∨ (¬ Apart r h ∧ Twice s0 r') := by
  rcases hsingle.tracks with ⟨new, htracks⟩
  rcases race_moves htracks.sound hstep with ⟨s', phase', hmoves, rfl⟩
  exact hsingle.moves hroom hmoves

theorem Twice.step (htwice : Twice s0 r) (hroom : s0.inodeTable.curSize.toNat + 2 ≤ 100)
    (hstep : race hash name jobs r h = Except.ok (out, r')) : Twice s0 r' := by
  have hboth := htwice
  rcases htwice with ⟨new, htracks, _⟩
  rcases race_moves htracks.sound hstep with ⟨s', phase', hmoves, rfl⟩
  exact hboth.moves hroom hmoves

/-- When both are done after at most one of them has created the file. -/
theorem Single.createdOnce (hsingle : Single hash name s0 r)
    (hdone : forall h, exists reply, r.handlers h = Phase.done reply) :
    CreatedOnce hash name s0 r := by
  have hsettled : forall h, (r.handlers h).stage = Stage.settled := by
    intro h
    rcases hdone h with ⟨reply, hphase⟩
    rw [hphase]
    rfl
  cases hsingle with
  | before _ _ hstage =>
      have hfirst := hstage true
      rw [hsettled true] at hfirst
      rcases hfirst with heq | ⟨heq, _⟩ <;> cases heq
  | holding h inum _ _ hholds _ => cases (hsettled h).symm.trans hholds
  | entered inum htracks hentry _ hreported =>
      refine ⟨inum, htracks.fresh inum (Finset.mem_singleton_self inum), ?_, hentry, ?_⟩
      · intro i
        rw [htracks.inodes i, Finset.mem_singleton]
      · intro h status n hreply
        apply hreported h n
        rw [hreply]
        rfl

theorem Twice.not_createdOnce (htwice : Twice s0 r)
    (hdone : forall h, exists reply, r.handlers h = Phase.done reply) :
    ¬ CreatedOnce hash name s0 r := by
  rcases htwice with ⟨new, htracks, hcard, _⟩
  have howed : forall h, (r.handlers h).owed = 0 := by
    intro h
    rcases hdone h with ⟨reply, hphase⟩
    rw [hphase]
    rfl
  rw [owed_eq r true, howed, howed] at hcard
  rintro ⟨inum, _, hinodes, _, _⟩
  have hsubset : new ⊆ {inum} := by
    intro i hi
    rcases (hinodes i).mp ((htracks.inodes i).mpr (Or.inr hi)) with ⟨file, hfile⟩ | heq
    · rw [htracks.fresh i hi] at hfile
      cases hfile
    · exact Finset.mem_singleton.mpr heq
  have hle := Finset.card_le_card hsubset
  rw [Finset.card_singleton] at hle
  omega

theorem createdOnce_of_apart (hwf : WellFormed hash s0)
    (habsent : s0.child? (hash name) = none) (hroom : s0.inodeTable.curSize.toNat < 100)
    {events : List Bool} {outs : List Unit}
    (hrun : runFrom (race hash name jobs) (Race.start s0) events = Except.ok (outs, r))
    (hdone : forall h, exists reply, r.handlers h = Phase.done reply)
    (hapart : EveryStep (race hash name jobs) (Race.start s0) events Apart) :
    CreatedOnce hash name s0 r := by
  have hsingle : EveryState (race hash name jobs) (Race.start s0) events
      (Single hash name s0) := by
    refine hapart.everyState (single_start hwf habsent) ?_
    intro r1 h out r2 hsingle hapart hstep
    rcases hsingle.step hroom hstep with ⟨_, hnext⟩ | ⟨hnot, _⟩
    · exact hnext
    · exact absurd hapart hnot
  exact (hsingle.last hrun).createdOnce hdone

theorem run_single_or_twice (hwf : WellFormed hash s0)
    (habsent : s0.child? (hash name) = none)
    (hroom : s0.inodeTable.curSize.toNat + 2 ≤ 100) {events : List Bool} {outs : List Unit}
    (hrun : runFrom (race hash name jobs) (Race.start s0) events = Except.ok (outs, r)) :
    Single hash name s0 r ∨ Twice s0 r := by
  refine run_induction (motive := fun _ _ r => Single hash name s0 r ∨ Twice s0 r)
    (Or.inl (single_start hwf habsent)) ?_ hrun
  intro _ _ r1 h out r2 _ hinv hstep
  rcases hinv with hsingle | htwice
  · rcases hsingle.step (by omega) hstep with ⟨_, hnext⟩ | ⟨_, hnext⟩
    · exact Or.inl hnext
    · exact Or.inr hnext
  · exact Or.inr (htwice.step hroom hstep)

theorem apart_of_createdOnce (hwf : WellFormed hash s0)
    (habsent : s0.child? (hash name) = none)
    (hroom : s0.inodeTable.curSize.toNat + 2 ≤ 100) {events : List Bool} {outs : List Unit}
    (hrun : runFrom (race hash name jobs) (Race.start s0) events = Except.ok (outs, r))
    (hdone : forall h, exists reply, r.handlers h = Phase.done reply)
    (honce : CreatedOnce hash name s0 r) :
    EveryStep (race hash name jobs) (Race.start s0) events Apart := by
  intro before h after outs1 r1 hsplit hbefore
  by_contra hnot
  rw [hsplit] at hrun
  rcases runFrom_append.mp hrun with ⟨outs1', r1', outs2, hbefore', hrest, _⟩
  rw [hbefore] at hbefore'
  cases hbefore'
  rcases runFrom_cons.mp hrest with ⟨out, r2, outs3, hstep, hafter, _⟩
  have htwice : Twice s0 r2 := by
    rcases run_single_or_twice hwf habsent hroom hbefore with hsingle | ⟨_, _, _, hstage⟩
    · rcases hsingle.step (by omega) hstep with ⟨hapart, _⟩ | ⟨_, htwice⟩
      · exact absurd hapart hnot
      · exact htwice
    · -- Both handlers have looked the name up already.
      refine absurd (fun hphase => ?_) hnot
      exact absurd (congrArg Phase.stage hphase) (hstage h)
  have hlast : Twice s0 r :=
    run_invariant htwice (fun _ _ _ _ h hstep => h.step hroom hstep) hafter
  exact hlast.not_createdOnce hdone honce

end Runs

/--
Two handlers create one file between them if neither looks the name up while the other
is about to enter it.  When there is room for two files, this is the only way.
-/
theorem createdOnce_iff_apart (hash : String -> UInt64) (name : String) (jobs : Bool -> Job)
    (s0 : MetadataServiceImpl) (hwf : WellFormed hash s0)
    (habsent : s0.child? (hash name) = none)
    (hfree : 2 ≤ s0.inodeTable.freeList.elems.length) (events : List Bool) (outs : List Unit)
    (r : Race)
    (hrun : runFrom (race hash name jobs) (Race.start s0) events = Except.ok (outs, r))
    (hdone : forall h, exists reply, r.handlers h = Phase.done reply) :
    (EveryStep (race hash name jobs) (Race.start s0) events Apart ->
      CreatedOnce hash name s0 r) ∧
    (s0.inodeTable.curSize.toNat + 2 ≤ s0.inodeTable.totalSize.toNat ->
      (CreatedOnce hash name s0 r <->
        EveryStep (race hash name jobs) (Race.start s0) events Apart)) := by
  have hcapacity := hwf.balanced.capacity
  have hcount := hwf.balanced.curSize
  have honce := createdOnce_of_apart hwf habsent (by omega) hrun hdone
  refine ⟨honce, ?_⟩
  intro hroom
  rw [hwf.balanced.totalSize] at hroom
  exact ⟨apart_of_createdOnce hwf habsent hroom hrun hdone, honce⟩

/-- The name is created, and then opened by the other handler. -/
def inTurn : List Bool :=
  [false, false, false, false, true, true, true]

def createAndOpen (h : Bool) : Job :=
  if h then Job.openFile else Job.createFile false

theorem createdOnce_iff_apart_inTurn : exists outs r,
    runFrom (race byCodes "a" createAndOpen) (Race.start MetadataServiceImpl.init) inTurn =
      Except.ok (outs, r) ∧
    EveryStep (race byCodes "a" createAndOpen) (Race.start MetadataServiceImpl.init) inTurn
      Apart ∧
    CreatedOnce byCodes "a" MetadataServiceImpl.init r := by
  have hpass : passes
      (runFrom (race byCodes "a" createAndOpen) (Race.start MetadataServiceImpl.init) inTurn)
      (fun result => result.2.handlers false == Phase.done (Reply.createFile Status.ok 1) &&
        result.2.handlers true == Phase.done (Reply.openFile Status.ok 4)) = true := by
    decide +kernel
  rcases exists_of_passes hpass with ⟨⟨outs, r⟩, hrun, htest⟩
  rw [Bool.and_eq_true, beq_iff_eq, beq_iff_eq] at htest
  have hsteps : stepsPass (race byCodes "a" createAndOpen)
      (fun r => decide (forall h, r.handlers h = Phase.hasRoot ->
        (r.handlers (!h)).inside = false))
      (Race.start MetadataServiceImpl.init) inTurn = true := by
    decide +kernel
  have hapart : EveryStep (race byCodes "a" createAndOpen)
      (Race.start MetadataServiceImpl.init) inTurn Apart := by
    intro before h after outs r hsplit hbefore
    exact of_decide_eq_true
      (everyStep_of_stepsPass hsteps before h after outs r hsplit hbefore) h
  have hdone : forall h, exists reply, r.handlers h = Phase.done reply :=
    forall_handlers false ⟨_, htest.left⟩ ⟨_, htest.right⟩
  exact ⟨outs, r, hrun, hapart,
    (createdOnce_iff_apart byCodes "a" createAndOpen MetadataServiceImpl.init wellFormed_init
      (child?_init _) (by decide +kernel) inTurn outs r hrun hdone).left hapart⟩

/-- Two handlers in step, each finding the name absent. -/
def inStep : List Bool :=
  [false, true, false, true, false, true, false, true]

theorem not_createdOnce_inStep : ¬ forall (hash : String -> UInt64) (name : String)
    (jobs : Bool -> Job) (s0 : MetadataServiceImpl) (events : List Bool) (outs : List Unit)
    (r : Race), WellFormed hash s0 -> s0.child? (hash name) = none ->
    s0.inodeTable.curSize.toNat + 2 ≤ s0.inodeTable.totalSize.toNat ->
    runFrom (race hash name jobs) (Race.start s0) events = Except.ok (outs, r) ->
    (forall h, exists reply, r.handlers h = Phase.done reply) ->
    CreatedOnce hash name s0 r := by
  intro hall
  have hpass : passes
      (runFrom (race byCodes "a" (fun _ => Job.createFile false))
        (Race.start MetadataServiceImpl.init) inStep)
      (fun result => result.2.handlers false == Phase.done (Reply.createFile Status.ok 1) &&
        result.2.handlers true == Phase.done (Reply.createFile Status.ok 2)) = true := by
    decide +kernel
  rcases exists_of_passes hpass with ⟨⟨outs, r⟩, hrun, htest⟩
  rw [Bool.and_eq_true, beq_iff_eq, beq_iff_eq] at htest
  have hdone : forall h, exists reply, r.handlers h = Phase.done reply :=
    forall_handlers false ⟨_, htest.left⟩ ⟨_, htest.right⟩
  rcases hall byCodes "a" (fun _ => Job.createFile false) MetadataServiceImpl.init inStep outs r
    wellFormed_init (child?_init _) (by decide +kernel) hrun hdone with ⟨inum, _, _, _, hreplies⟩
  have hfirst := hreplies false Status.ok 1 htest.left
  have hsecond := hreplies true Status.ok 2 htest.right
  exact absurd (hfirst.trans hsecond.symm) (by decide)

end Racing
end Metadata
end SpongeBob
