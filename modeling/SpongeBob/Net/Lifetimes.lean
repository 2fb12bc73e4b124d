import SpongeBob.Net.Cleanup
import SpongeBob.Net.Completion
import SpongeBob.Net.PeerTable

/-!
# The life of a socket

A socket is constructed, connects to others, and is destroyed.  {lit}`ConnectQueuePair`
creates queue pairs for a peer that is stored only when everything after that succeeds,
and a later peer can take the number of an earlier one.  {lit}`ResourcesDestroy` gives
back the queue pairs of the peers stored under the numbers of servers, and then the
region, the domain and the device.
-/

namespace SpongeBob
namespace Net
namespace Resources

open Foundation

/-!
# Connecting
-/

structure Life where
  held : Held
  socket : RdmaSocket
  choice : Completion.QueueChoice
  /-- The connections so far: each has a socket of its own. -/
  next : Nat

/-- An attempt to connect. -/
structure Attempt where
  /-- The number in the peer before the exchange. -/
  nodeID : UInt16
  /-- The identity of the other end, unless the exchange fails. -/
  remoteID : Option ExchangeID
  /-- Everything after the creation of the queue pairs succeeds. -/
  up : Bool
deriving DecidableEq, Repr

/-- What is known about an attempt: the number of the peer, and whether it is stored. -/
abbrev Notice := Option (UInt16 × Bool)

/-- The number of a queue pair is read before it is checked that it is there. -/
def createPair (driver : Driver) (sock offset : Nat)
    (m : Held × Completion.QueueChoice × Completion.PeerQueues) :
    Except Unit (Held × Completion.QueueChoice × Completion.PeerQueues) := do
  let (choice, peer) := Completion.createQueuePair m.2.1 m.2.2 offset
  let _ ← (m.1.member (Handle.queue peer.cq)).use m.1.live
  let _ ← (m.1.member Handle.domain).use m.1.live
  let (ok, held) := create (driver.createsPair sock offset) (Handle.pair sock offset) m.1
  if ok then pure (held, choice, peer) else Except.error ()

/-- Create the queue pairs {lit}`0` to {lit}`count - 1` of a connection. -/
def createPairs (driver : Driver) (sock : Nat) : Nat ->
    Held × Completion.QueueChoice × Completion.PeerQueues ->
    Except Unit (Held × Completion.QueueChoice × Completion.PeerQueues)
  | 0, m => Except.ok m
  | count + 1, m => do
      let m ← createPairs driver sock count m
      createPair driver sock count m

/-- A peer that knows its number only. -/
def peerQueues (nodeID : UInt16) : Completion.PeerQueues where
  nodeID := nodeID
  registeredMemory := 0
  sendCQ := fun _ => 0
  recvCQ := fun _ => 0
  cq := 0

def connect (driver : Driver) (s : Life) (a : Attempt) : Except Unit (Notice × Life) :=
  match a.remoteID with
  | none => Except.ok (none, { s with next := s.next + 1 })
  | some remoteID => do
      let (nodeID, socket) := s.socket.receiveID a.nodeID remoteID
      let count := socket.queuePairs nodeID
      let m ← createPairs driver s.next count (s.held, s.choice, peerQueues nodeID)
      if a.up then
        -- The array of the peers has no bounds check.
        if nodeID.toNat < peersSize then
          pure (some (nodeID, true),
            { held := m.1
              socket := socket.storePeer s.next nodeID count
              choice := m.2.1
              next := s.next + 1 })
        else Except.error ()
      else
        pure (some (nodeID, false),
          { held := m.1, socket := socket, choice := m.2.1, next := s.next + 1 })

/-- The socket as the constructor leaves it. -/
def Life.start (held : Held) (isServer : Bool) (serverCount : Nat) (myNodeID : UInt16)
    (cqNum : Nat) : Life where
  held := held
  socket := RdmaSocket.make isServer serverCount myNodeID
  choice := { isServer := isServer, serverCount := serverCount, cqNum := cqNum, cqPtr := 0 }
  next := 0

/-!
# Destroying
-/

/-- The attempt {lit}`k` is the last one that is stored under a number. -/
def Filed (outs : List Notice) (k : Nat) (i : UInt16) : Prop :=
  outs[k]? = some (some (i, true)) ∧
    forall k', k < k' -> outs[k']? ≠ some (some (i, true))

/-- A queue pair has been created. -/
def Made (first : RdmaSocket) (outs : List Notice) (sock j : Nat) : Prop :=
  exists nodeID stored, outs[sock]? = some (some (nodeID, stored)) ∧ j < first.queuePairs nodeID

/-- What a socket has done in a run of attempts, in terms of their outcomes. -/
structure Lives (first : RdmaSocket) (memory : Memory) (cqNum : Nat) (outs : List Notice)
    (s : Life) : Prop where
  next : s.next = outs.length
  isServer : s.socket.isServer = first.isServer
  serverCount : s.socket.serverCount = first.serverCount
  held : exists deviceName, s.held = keeping s.held.live (memory.zero cqNum) deviceName
  live : forall h, h ∈ s.held.live <-> h ∈ everything cqNum ∨
    exists sock j, h = Handle.pair sock j ∧ Made first outs sock j
  stored : forall i p, s.socket.peers i = some p -> Filed outs p.sock i
  empty : forall i, s.socket.peers i = none -> forall k : Nat, outs[k]? ≠ some (some (i, true))

section Steps

variable {driver : Driver} {memory : Memory} {cqNum : Nat} {live : Finset Handle}
  {zero : Handle -> Bool} {deviceName : Option String} {first : RdmaSocket}
  {outs : List Notice} {out : Notice} {s s' : Life} {a : Attempt}

theorem filed_concat {k : Nat} {i : UInt16} (hk : k < outs.length) (hout : out ≠ some (i, true)) :
    Filed (outs ++ [out]) k i <-> Filed outs k i := by
  unfold Filed
  rw [List.getElem?_append_left hk]
  constructor
  · intro h
    refine ⟨h.left, fun k' hlt hk' => ?_⟩
    have hlen : k' < outs.length := (List.getElem?_eq_some_iff.mp hk').1
    apply h.right k' hlt
    rw [List.getElem?_append_left hlen]
    exact hk'
  · intro h
    refine ⟨h.left, fun k' hlt hk' => ?_⟩
    by_cases hlen : k' < outs.length
    · rw [List.getElem?_append_left hlen] at hk'
      exact h.right k' hlt hk'
    · rw [List.getElem?_append_right (by omega)] at hk'
      cases hsub : k' - outs.length with
      | zero =>
          rw [hsub] at hk'
          exact hout (Option.some.inj hk')
      | succ n =>
          rw [hsub] at hk'
          cases hk'

theorem filed_last {i : UInt16} : Filed (outs ++ [some (i, true)]) outs.length i := by
  constructor
  · simp
  · intro k' hlt hk'
    have hlen := (List.getElem?_eq_some_iff.mp hk').1
    simp at hlen
    omega

theorem filed_lt {k : Nat} {i : UInt16} (h : Filed outs k i) : k < outs.length :=
  (List.getElem?_eq_some_iff.mp h.left).1

theorem made_concat {sock j : Nat} :
    Made first (outs ++ [out]) sock j <->
      Made first outs sock j ∨ (sock = outs.length ∧
        exists nodeID stored, out = some (nodeID, stored) ∧ j < first.queuePairs nodeID) := by
  unfold Made
  by_cases hlt : sock < outs.length
  · rw [List.getElem?_append_left hlt]
    constructor
    · intro h
      exact Or.inl h
    · intro h
      exact h.resolve_right (fun hlast => Nat.ne_of_lt hlt hlast.left)
  · have hnone : outs[sock]? = none := List.getElem?_eq_none_iff.mpr (by omega)
    rw [hnone, List.getElem?_append_right (by omega)]
    by_cases heq : sock = outs.length
    · subst heq
      simp
    · have hnone' : ([out] : List Notice)[sock - outs.length]? = none :=
        List.getElem?_eq_none_iff.mpr (by simp; omega)
      rw [hnone']
      simp [heq]

/-!
# One attempt
-/

theorem receiveID_same (s : RdmaSocket) (peerID : UInt16) (remoteID : ExchangeID) :
    (s.receiveID peerID remoteID).2.isServer = s.isServer ∧
      (s.receiveID peerID remoteID).2.serverCount = s.serverCount := by
  unfold RdmaSocket.receiveID
  split
  · exact ⟨rfl, rfl⟩
  · split
    · exact ⟨rfl, rfl⟩
    · split
      · exact ⟨rfl, rfl⟩
      · split
        · exact ⟨rfl, rfl⟩
        · exact ⟨rfl, rfl⟩

theorem queuePairs_congr {s first : RdmaSocket} (hserver : s.isServer = first.isServer)
    (hcount : s.serverCount = first.serverCount) (peerID : UInt16) :
    s.queuePairs peerID = first.queuePairs peerID := by
  unfold RdmaSocket.queuePairs RdmaSocket.doubleQP
  rw [hserver, hcount]

/-- A queue pair that is created is live, and everything else is as before. -/
theorem createPair_keeping {sock offset : Nat} {choice : Completion.QueueChoice}
    {peer : Completion.PeerQueues} {m : Held × Completion.QueueChoice × Completion.PeerQueues}
    (hnew : Handle.pair sock offset ∉ live)
    (hpair : createPair driver sock offset (keeping live zero deviceName, choice, peer) =
      Except.ok m) :
    m.1 = keeping (insert (Handle.pair sock offset) live) zero deviceName := by
  unfold createPair at hpair
  rcases bind_eq_ok.mp hpair with ⟨queueHandle, _, hpair⟩
  rcases bind_eq_ok.mp hpair with ⟨domainHandle, _, hpair⟩
  rw [create_keeping hnew] at hpair
  cases hcreates : driver.createsPair sock offset with
  | false =>
      rw [hcreates] at hpair
      cases hpair
  | true =>
      rw [hcreates] at hpair
      cases hpair
      rfl

/-- The queue pairs of one connection. -/
def pairsOf (sock count : Nat) : Finset Handle :=
  (Finset.range count).image (Handle.pair sock)

theorem mem_pairsOf {sock count : Nat} {h : Handle} :
    h ∈ pairsOf sock count <-> exists j, h = Handle.pair sock j ∧ j < count := by
  simp only [pairsOf, Finset.mem_image, Finset.mem_range]
  constructor
  · intro hmem
    rcases hmem with ⟨j, hj, rfl⟩
    exact ⟨j, rfl, hj⟩
  · intro hmem
    rcases hmem with ⟨j, rfl, hj⟩
    exact ⟨j, hj, rfl⟩

theorem createPairs_keeping {sock : Nat} {choice : Completion.QueueChoice}
    {peer : Completion.PeerQueues} (hnew : forall j, Handle.pair sock j ∉ live) {count : Nat}
    {m : Held × Completion.QueueChoice × Completion.PeerQueues}
    (hpairs : createPairs driver sock count (keeping live zero deviceName, choice, peer) =
      Except.ok m) :
    m.1 = keeping (pairsOf sock count ∪ live) zero deviceName := by
  induction count generalizing m with
  | zero =>
      cases hpairs
      simp [pairsOf]
  | succ count ih =>
      unfold createPairs at hpairs
      rcases bind_eq_ok.mp hpairs with ⟨⟨held, choice', peer'⟩, hbefore, hpair⟩
      have hheld := ih hbefore
      dsimp only at hheld
      rw [hheld] at hpair
      have hfresh : Handle.pair sock count ∉ pairsOf sock count ∪ live := by
        intro hmem
        cases Finset.mem_union.mp hmem with
        | inl hpairs =>
            rcases mem_pairsOf.mp hpairs with ⟨j, heq, hj⟩
            cases heq
            exact Nat.lt_irrefl _ hj
        | inr hlive => exact hnew count hlive
      rw [createPair_keeping hfresh hpair, pairsOf, pairsOf, Finset.range_add_one,
        Finset.image_insert, Finset.insert_union]

/-- The outcomes of an attempt. -/
theorem connect_cases (hstep : connect driver s a = Except.ok (out, s')) :
    (a.remoteID = none ∧ out = none ∧ s' = { s with next := s.next + 1 }) ∨
    exists remoteID nodeID socket m, a.remoteID = some remoteID ∧
      s.socket.receiveID a.nodeID remoteID = (nodeID, socket) ∧
      createPairs driver s.next (socket.queuePairs nodeID)
        (s.held, s.choice, peerQueues nodeID) = Except.ok m ∧
      out = some (nodeID, a.up) ∧
      ((a.up = true ∧ nodeID.toNat < peersSize ∧
        s' = { held := m.1
               socket := socket.storePeer s.next nodeID (socket.queuePairs nodeID)
               choice := m.2.1
               next := s.next + 1 }) ∨
      (a.up = false ∧
        s' = { held := m.1, socket := socket, choice := m.2.1, next := s.next + 1 })) := by
  unfold connect at hstep
  cases hremote : a.remoteID with
  | none =>
      rw [hremote] at hstep
      cases hstep
      exact Or.inl ⟨rfl, rfl, rfl⟩
  | some remoteID =>
      rw [hremote] at hstep
      dsimp only at hstep
      cases hreceive : s.socket.receiveID a.nodeID remoteID with
      | mk nodeID socket =>
      rw [hreceive] at hstep
      rcases bind_eq_ok.mp hstep with ⟨m, hpairs, hrest⟩
      refine Or.inr ⟨remoteID, nodeID, socket, m, rfl, hreceive, hpairs, ?_⟩
      cases hup : a.up with
      | false =>
          rw [hup] at hrest
          cases hrest
          exact ⟨rfl, Or.inr ⟨rfl, rfl⟩⟩
      | true =>
          rw [hup] at hrest
          simp only [if_true] at hrest
          by_cases hsize : nodeID.toNat < peersSize
          · rw [if_pos hsize] at hrest
            cases hrest
            exact ⟨rfl, Or.inl ⟨rfl, hsize, rfl⟩⟩
          · rw [if_neg hsize] at hrest
            cases hrest

/-!
# A run of attempts
-/

theorem not_made_length {j : Nat} : ¬ Made first outs outs.length j := by
  intro hmade
  rcases hmade with ⟨nodeID, stored, hout, _⟩
  have hlt := (List.getElem?_eq_some_iff.mp hout).1
  exact Nat.lt_irrefl _ hlt

theorem Lives.new (h : Lives first memory cqNum outs s) (j : Nat) :
    Handle.pair s.next j ∉ s.held.live := by
  intro hmem
  rw [h.next] at hmem
  cases (h.live _).mp hmem with
  | inl hbase => simp [everything, withQueues] at hbase
  | inr hmade =>
      rcases hmade with ⟨sock, j', heq, hmade⟩
      cases heq
      exact not_made_length hmade

/-- What the creation of the queue pairs of an attempt leaves. -/
theorem Lives.createPairs (h : Lives first memory cqNum outs s) {count : Nat}
    {peer : Completion.PeerQueues}
    {m : Held × Completion.QueueChoice × Completion.PeerQueues}
    (hpairs : createPairs driver s.next count (s.held, s.choice, peer) = Except.ok m) :
    (exists deviceName, m.1 = keeping m.1.live (memory.zero cqNum) deviceName) ∧
      forall h, h ∈ m.1.live <-> h ∈ pairsOf outs.length count ∨ h ∈ s.held.live := by
  rcases h.held with ⟨deviceName, hheld⟩
  rw [hheld] at hpairs
  have hm := createPairs_keeping h.new hpairs
  rw [h.next] at hm
  constructor
  · exact ⟨deviceName, by rw [hm]; rfl⟩
  · intro h'
    rw [hm]
    exact Finset.mem_union

theorem Lives.live_concat (h : Lives first memory cqNum outs s) {nodeID : UInt16}
    (stored : Bool) {live : Finset Handle}
    (hlive : forall h, h ∈ live <->
      h ∈ pairsOf outs.length (first.queuePairs nodeID) ∨ h ∈ s.held.live) :
    forall h', h' ∈ live <-> h' ∈ everything cqNum ∨
      exists sock j, h' = Handle.pair sock j ∧
        Made first (outs ++ [some (nodeID, stored)]) sock j := by
  intro h'
  rw [hlive, h.live, mem_pairsOf]
  constructor
  · rintro (⟨j, rfl, hj⟩ | hbase | ⟨sock, j, rfl, hmade⟩)
    · exact Or.inr ⟨outs.length, j, rfl,
        made_concat.mpr (Or.inr ⟨rfl, nodeID, stored, rfl, hj⟩)⟩
    · exact Or.inl hbase
    · exact Or.inr ⟨sock, j, rfl, made_concat.mpr (Or.inl hmade)⟩
  · rintro (hbase | ⟨sock, j, rfl, hmade⟩)
    · exact Or.inr (Or.inl hbase)
    · rcases made_concat.mp hmade with hmade | ⟨rfl, nodeID', stored', heq, hj⟩
      · exact Or.inr (Or.inr ⟨sock, j, rfl, hmade⟩)
      · cases heq
        exact Or.inl ⟨j, rfl, hj⟩

theorem Lives.filed_concat (h : Lives first memory cqNum outs s) {i : UInt16}
    {p : PeerSockData} (hp : s.socket.peers i = some p) (hout : out ≠ some (i, true)) :
    Filed (outs ++ [out]) p.sock i :=
  (Resources.filed_concat (filed_lt (h.stored i p hp)) hout).mpr (h.stored i p hp)

theorem Lives.empty_concat (h : Lives first memory cqNum outs s) {i : UInt16}
    (hempty : s.socket.peers i = none) (hout : out ≠ some (i, true)) :
    forall k : Nat, (outs ++ [out])[k]? ≠ some (some (i, true)) := by
  intro k hk
  by_cases hlen : k < outs.length
  · rw [List.getElem?_append_left hlen] at hk
    exact h.empty i hempty k hk
  · rw [List.getElem?_append_right (by omega)] at hk
    cases hsub : k - outs.length with
    | zero =>
        rw [hsub] at hk
        exact hout (Option.some.inj hk)
    | succ n =>
        rw [hsub] at hk
        cases hk

/-- Every attempt keeps what is known about the socket. -/
theorem Lives.step (h : Lives first memory cqNum outs s)
    (hstep : connect driver s a = Except.ok (out, s')) :
    Lives first memory cqNum (outs ++ [out]) s' := by
  have hlength : s.next + 1 = (outs ++ [out]).length := by
    rw [h.next, List.length_append]
    rfl
  rcases connect_cases hstep with ⟨_, rfl, rfl⟩ |
    ⟨remoteID, nodeID, socket, m, _, hreceive, hpairs, rfl, hrest⟩
  · have hmade : forall sock j, Made first (outs ++ [none]) sock j <-> Made first outs sock j := by
      intro sock j
      rw [made_concat]
      simp
    refine ⟨hlength, h.isServer, h.serverCount, h.held, ?_, ?_, ?_⟩
    · intro h'
      simp only [hmade]
      exact h.live h'
    · intro i p hp
      exact h.filed_concat hp (by simp)
    · intro i hempty
      exact h.empty_concat hempty (by simp)
  · have hsame := receiveID_same s.socket a.nodeID remoteID
    have hpeers := RdmaSocket.receiveID_peers s.socket a.nodeID remoteID
    rw [hreceive] at hsame hpeers
    dsimp only at hsame hpeers
    have hserver : socket.isServer = first.isServer := hsame.left.trans h.isServer
    have hcount : socket.serverCount = first.serverCount := hsame.right.trans h.serverCount
    rw [queuePairs_congr hserver hcount] at hpairs
    have hm := h.createPairs hpairs
    have hlive := h.live_concat a.up hm.right
    rcases hrest with ⟨hup, _, rfl⟩ | ⟨hup, rfl⟩
    · refine ⟨hlength, hserver, hcount, hm.left, hlive, ?_, ?_⟩
      · intro i p hp
        by_cases heq : i = nodeID
        · subst heq
          simp only [RdmaSocket.storePeer, if_true] at hp
          cases hp
          rw [hup, h.next]
          exact filed_last
        · simp only [RdmaSocket.storePeer, if_neg heq, hpeers] at hp
          exact h.filed_concat hp (by simp [Ne.symm heq])
      · intro i hempty
        by_cases heq : i = nodeID
        · subst heq
          simp [RdmaSocket.storePeer] at hempty
        · simp only [RdmaSocket.storePeer, if_neg heq, hpeers] at hempty
          exact h.empty_concat hempty (by simp [Ne.symm heq])
    · refine ⟨hlength, hserver, hcount, hm.left, hlive, ?_, ?_⟩
      · intro i p hp
        dsimp only at hp
        rw [hpeers] at hp
        exact h.filed_concat hp (by simp [hup])
      · intro i hempty
        dsimp only at hempty
        rw [hpeers] at hempty
        exact h.empty_concat hempty (by simp [hup])

end Steps

end Resources
end Net
end SpongeBob
