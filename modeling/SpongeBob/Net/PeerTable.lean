import SpongeBob.Net.NodeIds

/-!
# The peer table of node 1

Node 1 accepts one client after another for as long as it runs.  Every client that gets
past the first exchange uses up a number, also when its connection breaks off later, and
no number is ever given back.  The table of peers has a fixed size.
-/

namespace SpongeBob
namespace Net

open Foundation

/-- The size of the array {lit}`peers`. -/
def peersSize : Nat := 1000

/-- How far a connection gets: before it has a number, before it is up, or all the way. -/
inductive Outcome where
  | lost
  | broken
  | joined
deriving DecidableEq, Repr

/-- A client whose connection is accepted. -/
structure Arrival where
  sock : Nat
  /-- What the client takes for its number so far. -/
  nodeID : UInt16
  outcome : Outcome
deriving DecidableEq, Repr

namespace Arrival

def remoteID (a : Arrival) : ExchangeID where
  nodeID := a.nodeID
  isServer := false
  givenID := 0

def exchanged (a : Arrival) : Bool :=
  decide (a.outcome ≠ Outcome.lost)

end Arrival

/-- Accept one connection; the output is the number under which the peer is stored. -/
def rdmaAccept (s : RdmaSocket) (a : Arrival) : Except Unit (Option UInt16 × RdmaSocket) :=
  match a.outcome with
  | Outcome.lost => Except.ok (none, s)
  | Outcome.broken => Except.ok (none, (s.receiveID 0 a.remoteID).2)
  | Outcome.joined =>
      let (peerID, s) := s.receiveID 0 a.remoteID
      Except.ok (some peerID, s.storePeer a.sock peerID (s.queuePairs peerID))

def nodeOne (serverCount : Nat) : RdmaSocket :=
  RdmaSocket.make true serverCount 1

/-- The number of connections that got past the first exchange. -/
def exchanges (arrivals : List Arrival) : Nat :=
  arrivals.countP Arrival.exchanged

/-- A number that a peer can be stored under without harm. -/
structure FreeSlot (serverCount : Nat) (s : RdmaSocket) (i : UInt16) : Prop where
  inside : i.toNat < peersSize
  notServer : forall v, 1 <= v -> v <= serverCount -> i.toNat ≠ v
  empty : s.peers i = none

/-- Every peer that is stored in a run of node 1 goes into a free slot. -/
def StoresFree (serverCount : Nat) (arrivals : List Arrival) : Prop :=
  EveryStep rdmaAccept (nodeOne serverCount) arrivals (fun s a =>
    forall i s', rdmaAccept s a = Except.ok (some i, s') -> FreeSlot serverCount s i)

/-- Whenever a client joins, few enough have come before it. -/
def FewEnough (serverCount : Nat) (arrivals : List Arrival) : Prop :=
  forall before a after, arrivals = before ++ a :: after -> a.outcome = Outcome.joined ->
    serverCount + 1 + exchanges before < peersSize

/-!
# What node 1 knows
-/

/-- Node 1 after {lit}`k` exchanges: every peer has one of the numbers given out. -/
structure Numbered (serverCount k : Nat) (s : RdmaSocket) : Prop where
  isServer : s.isServer = true
  myNodeID : s.myNodeID = 1
  maxNodeID : s.maxNodeID = UInt16.ofNat (serverCount + 1 + k)
  stored : forall i, s.peers i ≠ none ->
    exists j, j < k ∧ i = UInt16.ofNat (serverCount + 1 + j)

theorem numbered_nodeOne (serverCount : Nat) : Numbered serverCount 0 (nodeOne serverCount) where
  isServer := rfl
  myNodeID := rfl
  maxNodeID := rfl
  stored := by
    intro i hi
    exact absurd rfl hi

theorem exchanges_concat (before : List Arrival) (a : Arrival) :
    exchanges (before ++ [a]) = exchanges before + if a.outcome = Outcome.lost then 0 else 1 := by
  simp [exchanges, Arrival.exchanged, List.countP_append, List.countP_cons]

section Steps

variable {serverCount k : Nat} {s s' : RdmaSocket} {a : Arrival} {out : Option UInt16}

theorem Numbered.receiveID (h : Numbered serverCount k s) :
    s.receiveID 0 a.remoteID = (s.maxNodeID, { s with maxNodeID := s.maxNodeID + 1 }) :=
  RdmaSocket.receiveID_server_one h.isServer h.myNodeID rfl

theorem Numbered.next (h : Numbered serverCount k s) :
    Numbered serverCount (k + 1) { s with maxNodeID := s.maxNodeID + 1 } where
  isServer := h.isServer
  myNodeID := h.myNodeID
  maxNodeID := by
    show s.maxNodeID + 1 = _
    rw [h.maxNodeID]
    exact (UInt16.ofNat_add (serverCount + 1 + k) 1).symm
  stored := by
    intro i hi
    rcases h.stored i hi with ⟨j, hj, heq⟩
    exact ⟨j, Nat.lt_succ_of_lt hj, heq⟩

theorem Numbered.storePeer (h : Numbered serverCount k s) {j : Nat} (hj : j < k)
    (sock created : Nat) :
    Numbered serverCount k
      (s.storePeer sock (UInt16.ofNat (serverCount + 1 + j)) created) where
  isServer := h.isServer
  myNodeID := h.myNodeID
  maxNodeID := h.maxNodeID
  stored := by
    intro i hi
    by_cases heq : i = UInt16.ofNat (serverCount + 1 + j)
    · exact ⟨j, hj, heq⟩
    · apply h.stored i
      simp only [RdmaSocket.storePeer, if_neg heq] at hi
      exact hi

/-- What one arrival does to node 1. -/
theorem rdmaAccept_cases (h : Numbered serverCount k s)
    (hstep : rdmaAccept s a = Except.ok (out, s')) :
    (a.outcome = Outcome.lost ∧ out = none ∧ s' = s) ∨
    (a.outcome = Outcome.broken ∧ out = none ∧ Numbered serverCount (k + 1) s') ∨
    (a.outcome = Outcome.joined ∧ out = some (UInt16.ofNat (serverCount + 1 + k)) ∧
      Numbered serverCount (k + 1) s') := by
  unfold rdmaAccept at hstep
  rw [h.receiveID] at hstep
  cases houtcome : a.outcome with
  | lost =>
      rw [houtcome] at hstep
      cases hstep
      exact Or.inl ⟨rfl, rfl, rfl⟩
  | broken =>
      rw [houtcome] at hstep
      cases hstep
      exact Or.inr (Or.inl ⟨rfl, rfl, h.next⟩)
  | joined =>
      rw [houtcome] at hstep
      cases hstep
      refine Or.inr (Or.inr ⟨rfl, congrArg some h.maxNodeID, ?_⟩)
      have hstore := h.next.storePeer (Nat.lt_succ_self k) a.sock
        (RdmaSocket.queuePairs { s with maxNodeID := s.maxNodeID + 1 } s.maxNodeID)
      rw [← h.maxNodeID] at hstore
      exact hstore

end Steps

/-- The state of node 1 along a run. -/
theorem run_numbered {serverCount : Nat} {arrivals : List Arrival}
    {outs : List (Option UInt16)} {s : RdmaSocket}
    (hrun : runFrom rdmaAccept (nodeOne serverCount) arrivals = Except.ok (outs, s)) :
    Numbered serverCount (exchanges arrivals) s := by
  refine run_induction
    (motive := fun arrivals _ s => Numbered serverCount (exchanges arrivals) s)
    (numbered_nodeOne serverCount) ?_ hrun
  intro before outs s a out s' _ h hstep
  rw [exchanges_concat]
  rcases rdmaAccept_cases h hstep with ⟨hlost, _, rfl⟩ | ⟨hbroken, _, hnext⟩ |
    ⟨hjoined, _, hnext⟩
  · simpa [hlost] using h
  · simpa [hbroken] using hnext
  · simpa [hjoined] using hnext

/-!
# When the table is large enough
-/

theorem toNat_number {m : Nat} (hm : m < 65536) : (UInt16.ofNat m).toNat = m :=
  UInt16.toNat_ofNat_of_lt' hm

theorem storesFree_of_fewEnough {serverCount : Nat} {arrivals : List Arrival}
    (hfew : FewEnough serverCount arrivals) : StoresFree serverCount arrivals := by
  intro before a after outs s hsplit hrun i s' hstep
  have h := run_numbered hrun
  rcases rdmaAccept_cases h hstep with ⟨_, hnone, _⟩ | ⟨_, hnone, _⟩ | ⟨hjoined, hsome, _⟩
  · cases hnone
  · cases hnone
  · cases hsome
    have hlt : serverCount + 1 + exchanges before < 1000 := hfew before a after hsplit hjoined
    have hnumber : (UInt16.ofNat (serverCount + 1 + exchanges before)).toNat =
        serverCount + 1 + exchanges before :=
      toNat_number (by omega)
    refine ⟨by rw [hnumber]; exact hlt, ?_, ?_⟩
    · intro v _ hv
      omega
    · -- Numbers below the size of the table have not wrapped around, so each was given once.
      by_contra hstored
      rcases h.stored _ hstored with ⟨j, hj, heq⟩
      have hsame := congrArg UInt16.toNat heq
      rw [hnumber, toNat_number (by omega)] at hsame
      omega

theorem exists_accepted (serverCount : Nat) (arrivals : List Arrival) :
    exists outs s, runFrom rdmaAccept (nodeOne serverCount) arrivals = Except.ok (outs, s) := by
  refine exists_run (fun _ => True) (fun _ _ _ _ _ _ => trivial) ?_ trivial arrivals
  intro s a _
  unfold rdmaAccept
  cases a.outcome with
  | lost => exact ⟨_, _, rfl⟩
  | broken => exact ⟨_, _, rfl⟩
  | joined => exact ⟨_, _, rfl⟩

theorem fewEnough_of_storesFree {serverCount : Nat} {arrivals : List Arrival}
    (hcount : serverCount + exchanges arrivals < 65536)
    (hfree : StoresFree serverCount arrivals) : FewEnough serverCount arrivals := by
  intro before a after hsplit hjoined
  rcases exists_accepted serverCount (before ++ [a]) with ⟨_, s', hrun⟩
  rcases runFrom_concat.mp hrun with ⟨outs, s, out, hbefore, hstep, _⟩
  have h := run_numbered hbefore
  have hlt : serverCount + 1 + exchanges before < 65536 := by
    have hmore : exchanges (before ++ [a]) ≤ exchanges arrivals := by
      rw [hsplit, List.append_cons before a after]
      exact (List.sublist_append_left (before ++ [a]) after).countP_le
    rw [exchanges_concat, hjoined] at hmore
    simp at hmore
    omega
  rcases rdmaAccept_cases h hstep with ⟨hlost, _, _⟩ | ⟨hbroken, _, _⟩ | ⟨_, rfl, _⟩
  · rw [hjoined] at hlost
    cases hlost
  · rw [hjoined] at hbroken
    cases hbroken
  · have hinside := (hfree before a after outs s hsplit hbefore _ s' hstep).inside
    rwa [toNat_number hlt] at hinside

/--
Node 1 stores its peers in free slots if it runs out of clients before it runs out of
slots, and as long as its counter has not wrapped around, only then.
-/
theorem storesFree_iff_fewEnough (serverCount : Nat) (arrivals : List Arrival) :
    (FewEnough serverCount arrivals -> StoresFree serverCount arrivals) ∧
    (serverCount + exchanges arrivals < 65536 ->
      (StoresFree serverCount arrivals <-> FewEnough serverCount arrivals)) :=
  ⟨storesFree_of_fewEnough, fun hcount =>
    ⟨fewEnough_of_storesFree hcount, storesFree_of_fewEnough⟩⟩

def newcomer : Arrival where
  sock := 4
  nodeID := 0
  outcome := Outcome.joined

theorem exchanges_newcomers (k : Nat) : exchanges (List.replicate k newcomer) = k := by
  rw [exchanges, List.countP_replicate]
  rfl

/-- With one server there is room for 998 clients. -/
theorem storesFree_iff_fewEnough_newcomers :
    FewEnough 1 (List.replicate 998 newcomer) ∧ StoresFree 1 (List.replicate 998 newcomer) := by
  have hfew : FewEnough 1 (List.replicate 998 newcomer) := by
    intro before a after hsplit _
    have hlength := congrArg List.length hsplit
    rw [List.length_replicate, List.length_append, List.length_cons] at hlength
    have hle : exchanges before ≤ before.length := List.countP_le_length
    show 1 + 1 + exchanges before < 1000
    omega
  exact ⟨hfew, (storesFree_iff_fewEnough 1 _).left hfew⟩

/-- The client after these is stored outside of the table. -/
theorem not_storesFree_newcomers : ¬ forall serverCount arrivals,
    StoresFree serverCount arrivals := by
  intro hall
  have hcount : 1 + exchanges (List.replicate 999 newcomer) < 65536 := by
    rw [exchanges_newcomers]
    decide
  have hfew := fewEnough_of_storesFree hcount (hall 1 (List.replicate 999 newcomer))
  have hlast := hfew (List.replicate 998 newcomer) newcomer [] List.replicate_succ' rfl
  rw [exchanges_newcomers] at hlast
  exact absurd hlast (by decide)

end Net
end SpongeBob
