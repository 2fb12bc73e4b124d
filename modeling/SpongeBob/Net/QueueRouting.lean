import SpongeBob.Net.Completion

/-!
# Choosing completion queues

A socket has {lit}`cqNum` completion queues and chooses one for each queue pair that it
creates.  A peer remembers one queue only, and that one is polled: the choice is of
use if all queue pairs of a peer are given the same queue.
-/

namespace SpongeBob
namespace Net
namespace QueueRouting

open Completion

/-!
# Connections
-/

/-- The socket when it has been constructed. -/
def newChoice (isServer : Bool) (serverCount cqNum : Nat) : QueueChoice where
  isServer := isServer
  serverCount := serverCount
  cqNum := cqNum
  cqPtr := 0

/-- The number of queue pairs that {lit}`ConnectQueuePair` creates. -/
def queuePairs (choice : QueueChoice) (peer : PeerQueues) : Nat :=
  if !choice.isServer || (choice.isServer && decide (choice.serverCount < peer.nodeID.toNat))
  then qpNumber
  else 2

/-- A connected peer and the number of its queue pairs. -/
structure Connected where
  peer : PeerQueues
  created : Nat

/-- What {lit}`ConnectQueuePair` does for a peer whose number is known. -/
def connectQueuePair (choice : QueueChoice) (peer : PeerQueues) : QueueChoice × Connected :=
  let (choice', peer') := createQueuePairs choice peer (queuePairs choice peer)
  (choice', ⟨peer', queuePairs choice peer⟩)

/-- Connect peers one after another. -/
def connectAll : QueueChoice -> List PeerQueues -> List Connected
  | _, [] => []
  | choice, peer :: rest =>
      let (choice, connected) := connectQueuePair choice peer
      connected :: connectAll choice rest

/-- The queues of a peer exist, and all its queue pairs complete to the one that is polled. -/
structure Routed (cqNum : Nat) (c : Connected) : Prop where
  exists_send : forall offset, offset < c.created -> c.peer.sendCQ offset < cqNum
  exists_recv : forall offset, offset < c.created -> c.peer.recvCQ offset < cqNum
  exists_polled : c.peer.cq < cqNum
  send : forall offset, offset < c.created -> c.peer.sendCQ offset = c.peer.cq
  recv : forall offset, offset < c.created -> c.peer.recvCQ offset = c.peer.cq

/-- The peer is one of the servers. -/
def IsServer (choice : QueueChoice) (peer : PeerQueues) : Prop :=
  0 < peer.nodeID.toNat ∧ peer.nodeID.toNat ≤ choice.serverCount

/-!
# One connection
-/

variable {choice : QueueChoice} {peer : PeerQueues}

/-- The first {lit}`count` queue pairs of a peer use the queue {lit}`index`. -/
structure UsesOne (peer : PeerQueues) (count index : Nat) : Prop where
  send : forall offset, offset < count -> peer.sendCQ offset = index
  recv : forall offset, offset < count -> peer.recvCQ offset = index

theorem usesOne_zero (peer : PeerQueues) (index : Nat) : UsesOne peer 0 index where
  send := by
    intro offset hlt
    cases hlt
  recv := by
    intro offset hlt
    cases hlt

theorem UsesOne.use {count index : Nat} (h : UsesOne peer count index) :
    UsesOne (peer.use count index) (count + 1) index where
  send := by
    intro offset hlt
    show Function.update peer.sendCQ count index offset = index
    by_cases heq : offset = count
    · rw [heq, Function.update_self]
    · rw [Function.update_of_ne heq]
      exact h.send offset (by omega)
  recv := by
    intro offset hlt
    show Function.update peer.recvCQ count index offset = index
    by_cases heq : offset = count
    · rw [heq, Function.update_self]
    · rw [Function.update_of_ne heq]
      exact h.recv offset (by omega)

theorem UsesOne.routed {c : Connected} {cqNum : Nat} (h : UsesOne c.peer c.created c.peer.cq)
    (hcq : c.peer.cq < cqNum) : Routed cqNum c where
  exists_send := by
    intro offset hlt
    rw [h.send offset hlt]
    exact hcq
  exists_recv := by
    intro offset hlt
    rw [h.recv offset hlt]
    exact hcq
  exists_polled := hcq
  send := h.send
  recv := h.recv

theorem queuePairs_pos (choice : QueueChoice) (peer : PeerQueues) :
    2 ≤ queuePairs choice peer := by
  unfold queuePairs
  split
  · decide
  · exact Nat.le_refl 2

theorem nodeID_createQueuePair (choice : QueueChoice) (peer : PeerQueues) (offset : Nat) :
    (createQueuePair choice peer offset).2.nodeID = peer.nodeID := by
  unfold createQueuePair
  split
  · rfl
  · split
    · rfl
    · rfl

/-- Only the pointer of the socket changes. -/
theorem createQueuePair_choice (choice : QueueChoice) (peer : PeerQueues) (offset : Nat) :
    (createQueuePair choice peer offset).1 =
      { choice with cqPtr := (createQueuePair choice peer offset).1.cqPtr } := by
  unfold createQueuePair
  split
  · rfl
  · split
    · rfl
    · rfl

theorem createQueuePairs_fields (choice : QueueChoice) (peer : PeerQueues) (count : Nat) :
    (createQueuePairs choice peer count).1 =
        { choice with cqPtr := (createQueuePairs choice peer count).1.cqPtr } ∧
      (createQueuePairs choice peer count).2.nodeID = peer.nodeID := by
  induction count with
  | zero => exact ⟨rfl, rfl⟩
  | succ count ih =>
      rw [createQueuePairs]
      constructor
      · rw [createQueuePair_choice, ih.left]
      · rw [nodeID_createQueuePair, ih.right]

/-- All queue pairs to another server use the first queue. -/
theorem toServer_usesOne (hserver : choice.isServer = true) (hpeer : IsServer choice peer)
    (count : Nat) :
    UsesOne (createQueuePairs choice peer count).2 count 0 ∧
      (0 < count -> (createQueuePairs choice peer count).2.cq = 0) := by
  induction count with
  | zero => exact ⟨usesOne_zero _ 0, fun hlt => by cases hlt⟩
  | succ count ih =>
      have hfields := createQueuePairs_fields choice peer count
      have hfirst : (createQueuePairs choice peer count).1.isServer ∧
          0 < (createQueuePairs choice peer count).2.nodeID.toNat ∧
          (createQueuePairs choice peer count).2.nodeID.toNat ≤
            (createQueuePairs choice peer count).1.serverCount := by
        rw [hfields.left, hfields.right]
        exact ⟨hserver, hpeer⟩
      rw [createQueuePairs]
      dsimp only
      rw [createQueuePair, if_pos hfirst]
      exact ⟨ih.left.use, fun _ => rfl⟩

/-- The queue that a server takes for its next client. -/
def nextQueue (choice : QueueChoice) : Nat :=
  if choice.cqNum ≤ choice.cqPtr + 1 then 1 else choice.cqPtr + 1

theorem nextQueue_lt (hcq : 2 ≤ choice.cqNum) : nextQueue choice < choice.cqNum := by
  unfold nextQueue
  split
  · exact hcq
  · omega

/-- All queue pairs of a server to a client use the queue chosen for the first one. -/
theorem toClient_usesOne (hserver : choice.isServer = true) (hpeer : ¬ IsServer choice peer)
    (count : Nat) :
    UsesOne (createQueuePairs choice peer (count + 1)).2 (count + 1) (nextQueue choice) ∧
      (createQueuePairs choice peer (count + 1)).2.cq = nextQueue choice ∧
      (createQueuePairs choice peer (count + 1)).1.cqPtr = nextQueue choice := by
  have hother : forall count, ¬ ((createQueuePairs choice peer count).1.isServer ∧
      0 < (createQueuePairs choice peer count).2.nodeID.toNat ∧
      (createQueuePairs choice peer count).2.nodeID.toNat ≤
        (createQueuePairs choice peer count).1.serverCount) := by
    intro count
    have hfields := createQueuePairs_fields choice peer count
    rw [hfields.left, hfields.right]
    exact fun h => hpeer h.right
  have hserver' : forall count, (createQueuePairs choice peer count).1.isServer = true := by
    intro count
    rw [(createQueuePairs_fields choice peer count).left]
    exact hserver
  induction count with
  | zero =>
      rw [createQueuePairs]
      dsimp only
      rw [createQueuePair, if_neg (hother 0), if_pos (hserver' 0), if_pos rfl]
      exact ⟨(usesOne_zero _ _).use, rfl, rfl⟩
  | succ count ih =>
      rw [createQueuePairs]
      dsimp only
      rw [createQueuePair, if_neg (hother _), if_pos (hserver' _),
        if_neg (Nat.succ_ne_zero count), ih.right.right]
      exact ⟨ih.left.use, rfl, rfl⟩

/-- A client with one queue uses it throughout. -/
theorem ofClient_usesOne (hclient : choice.isServer = false) (hcq : choice.cqNum = 1)
    (hptr : choice.cqPtr = 0) (peer : PeerQueues) (count : Nat) :
    UsesOne (createQueuePairs choice peer count).2 count 0 ∧
      (0 < count -> (createQueuePairs choice peer count).2.cq = 0) ∧
      (createQueuePairs choice peer count).1.cqPtr = 0 := by
  induction count with
  | zero => exact ⟨usesOne_zero _ 0, fun hlt => (by cases hlt), hptr⟩
  | succ count ih =>
      have hfields := createQueuePairs_fields choice peer count
      have hclient' : ¬ (createQueuePairs choice peer count).1.isServer = true := by
        rw [hfields.left, hclient]
        exact Bool.false_ne_true
      have hcq' : (createQueuePairs choice peer count).1.cqNum = 1 := by
        rw [hfields.left]
        exact hcq
      rw [createQueuePairs]
      dsimp only
      rw [createQueuePair, if_neg (fun h => hclient' h.left), if_neg hclient', hcq',
        ih.right.right, if_pos (Nat.le_refl 1)]
      exact ⟨ih.left.use, fun _ => rfl, rfl⟩

theorem sendCQ_createQueuePair {offset other : Nat} (hne : other ≠ offset)
    (choice : QueueChoice) (peer : PeerQueues) :
    (createQueuePair choice peer offset).2.sendCQ other = peer.sendCQ other := by
  unfold createQueuePair
  split
  · exact Function.update_of_ne hne 0 peer.sendCQ
  · split
    · exact Function.update_of_ne hne _ peer.sendCQ
    · exact Function.update_of_ne hne _ peer.sendCQ

/-- A client with several queues gives its first two queue pairs different ones. -/
theorem ofClient_usesTwo (hclient : choice.isServer = false) (hcq : 2 ≤ choice.cqNum)
    (hptr : choice.cqPtr = 0) (peer : PeerQueues) (count : Nat) :
    (createQueuePairs choice peer (count + 2)).2.sendCQ 0 = 0 ∧
      (createQueuePairs choice peer (count + 2)).2.sendCQ 1 = 1 := by
  induction count with
  | zero =>
      have hmore : ¬ choice.cqNum ≤ 1 := by omega
      simp [createQueuePairs, createQueuePair, hclient, hptr, hmore, PeerQueues.use]
  | succ count ih =>
      rw [createQueuePairs]
      dsimp only
      rw [sendCQ_createQueuePair (show 0 ≠ count + 2 by omega),
        sendCQ_createQueuePair (show 1 ≠ count + 2 by omega)]
      exact ih

/-- A connection whose queue pairs all use the queue that is polled is routed. -/
theorem connect_routed {index : Nat}
    (huses : UsesOne (createQueuePairs choice peer (queuePairs choice peer)).2
      (queuePairs choice peer) index)
    (hpolled : (createQueuePairs choice peer (queuePairs choice peer)).2.cq = index)
    (hlt : index < choice.cqNum) :
    Routed choice.cqNum (connectQueuePair choice peer).2 := by
  subst hpolled
  apply UsesOne.routed
  · exact huses
  · exact hlt

/-- When a connection of a server is routed. -/
theorem server_routed_iff (hserver : choice.isServer = true) (hcq : 1 ≤ choice.cqNum)
    (peer : PeerQueues) :
    Routed choice.cqNum (connectQueuePair choice peer).2 <->
      2 ≤ choice.cqNum ∨ IsServer choice peer := by
  have hpos := queuePairs_pos choice peer
  by_cases hpeer : IsServer choice peer
  · constructor
    · intro _
      exact Or.inr hpeer
    · intro _
      have huses := toServer_usesOne hserver hpeer (queuePairs choice peer)
      exact connect_routed huses.left (huses.right (by omega)) hcq
  · have huses := toClient_usesOne hserver hpeer (queuePairs choice peer - 1)
    rw [Nat.sub_add_cancel (show 1 ≤ queuePairs choice peer by omega)] at huses
    constructor
    · intro hrouted
      apply Or.inl
      have hlt : nextQueue choice < choice.cqNum := by
        rw [← huses.right.left]
        exact hrouted.exists_polled
      -- With a single queue the next one would be the second.
      unfold nextQueue at hlt
      split at hlt
      · exact hlt
      · omega
    · intro hcase
      have htwo : 2 ≤ choice.cqNum := hcase.resolve_right hpeer
      exact connect_routed huses.left huses.right.left (nextQueue_lt htwo)

theorem client_routed (hclient : choice.isServer = false) (hcq : choice.cqNum = 1)
    (hptr : choice.cqPtr = 0) : Routed choice.cqNum (connectQueuePair choice peer).2 := by
  have hpos := queuePairs_pos choice peer
  have huses := ofClient_usesOne hclient hcq hptr peer (queuePairs choice peer)
  apply connect_routed huses.left (huses.right.left (by omega))
  rw [hcq]
  exact Nat.one_pos

theorem not_client_routed (hclient : choice.isServer = false) (hcq : 2 ≤ choice.cqNum)
    (hptr : choice.cqPtr = 0) : ¬ Routed choice.cqNum (connectQueuePair choice peer).2 := by
  intro hrouted
  have hpos := queuePairs_pos choice peer
  have huses := ofClient_usesTwo hclient hcq hptr peer (queuePairs choice peer - 2)
  rw [Nat.sub_add_cancel hpos] at huses
  have hfirst := hrouted.send 0 (show 0 < queuePairs choice peer by omega)
  have hsecond := hrouted.send 1 (show 1 < queuePairs choice peer by omega)
  have hne : (0 : Nat) = 1 :=
    calc 0 = _ := huses.left.symm
      _ = _ := hfirst
      _ = _ := hsecond.symm
      _ = 1 := huses.right
  cases hne

/-!
# Every sequence of connections
-/

theorem connect_choice (choice : QueueChoice) (peer : PeerQueues) :
    (connectQueuePair choice peer).1 =
      { choice with cqPtr := (connectQueuePair choice peer).1.cqPtr } :=
  (createQueuePairs_fields choice peer (queuePairs choice peer)).left

theorem server_routes_iff (hserver : choice.isServer = true) (hcq : 1 ≤ choice.cqNum)
    (peers : List PeerQueues) :
    (forall c, c ∈ connectAll choice peers -> Routed choice.cqNum c) <->
      2 ≤ choice.cqNum ∨ forall peer, peer ∈ peers -> IsServer choice peer := by
  induction peers generalizing choice with
  | nil =>
      constructor
      · intro _
        apply Or.inr
        intro peer hpeer
        cases hpeer
      · intro _ c hc
        cases hc
  | cons peer rest ih =>
      have hchoice := connect_choice choice peer
      have hserver' : (connectQueuePair choice peer).1.isServer = true := by
        rw [hchoice]
        exact hserver
      have hcq' : 1 ≤ (connectQueuePair choice peer).1.cqNum := by
        rw [hchoice]
        exact hcq
      have hrest := ih hserver' hcq'
      rw [hchoice] at hrest
      have hfirst := server_routed_iff hserver hcq peer
      show (forall c, c ∈ (connectQueuePair choice peer).2 ::
        connectAll (connectQueuePair choice peer).1 rest -> _) <-> _
      rw [List.forall_mem_cons, List.forall_mem_cons, hfirst, hchoice, hrest]
      show (2 ≤ choice.cqNum ∨ _) ∧
        (2 ≤ choice.cqNum ∨ forall peer, peer ∈ rest -> IsServer choice peer) <-> _
      rw [← or_and_left]

theorem client_routes (hclient : choice.isServer = false) (hcq : choice.cqNum = 1)
    (hptr : choice.cqPtr = 0) (peers : List PeerQueues) :
    forall c, c ∈ connectAll choice peers -> Routed choice.cqNum c := by
  induction peers generalizing choice with
  | nil =>
      intro c hc
      cases hc
  | cons peer rest ih =>
      have hchoice := connect_choice choice peer
      have hptr' := (ofClient_usesOne hclient hcq hptr peer
        (queuePairs choice peer)).right.right
      have hnext : (connectQueuePair choice peer).1 = choice := by
        rw [hchoice]
        show { choice with cqPtr := (createQueuePairs choice peer _).1.cqPtr } = choice
        rw [hptr', ← hptr]
      show forall c, c ∈ (connectQueuePair choice peer).2 ::
        connectAll (connectQueuePair choice peer).1 rest -> _
      rw [List.forall_mem_cons, hnext]
      exact ⟨client_routed hclient hcq hptr, ih hclient hcq hptr⟩

/--
What makes the choice of queues work: a server has a queue for its clients beside the
one for the other servers, or connects to servers only; a client has one queue, or
does not connect.
-/
def Routable (choice : QueueChoice) (peers : List PeerQueues) : Prop :=
  if choice.isServer then
    2 ≤ choice.cqNum ∨ forall peer, peer ∈ peers -> IsServer choice peer
  else
    choice.cqNum = 1 ∨ peers = []

/-- All connections of a socket are routed exactly if it is {lit}`Routable`. -/
theorem routed_iff_routable (isServer : Bool) (serverCount : Nat) {cqNum : Nat}
    (hcq : 1 ≤ cqNum) (peers : List PeerQueues) :
    (forall c, c ∈ connectAll (newChoice isServer serverCount cqNum) peers ->
      Routed cqNum c) <->
      Routable (newChoice isServer serverCount cqNum) peers := by
  unfold Routable
  cases isServer with
  | true => exact server_routes_iff rfl hcq peers
  | false =>
      show _ <-> cqNum = 1 ∨ peers = []
      constructor
      · intro hrouted
        cases peers with
        | nil => exact Or.inr rfl
        | cons peer rest =>
            by_cases hone : cqNum = 1
            · exact Or.inl hone
            · have hmany : 2 ≤ (newChoice false serverCount cqNum).cqNum := by
                show 2 ≤ cqNum
                omega
              have hfirst := hrouted _ List.mem_cons_self
              exact absurd hfirst (not_client_routed rfl hmany rfl)
      · intro hcase
        cases hcase with
        | inl hone =>
            intro c hc
            exact client_routes rfl hone rfl peers c hc
        | inr hnil =>
            rw [hnil]
            intro c hc
            cases hc

/-- The record of a node before it is connected. -/
def newPeer (nodeID : UInt16) : PeerQueues where
  nodeID := nodeID
  registeredMemory := 0
  sendCQ := fun _ => 0
  recvCQ := fun _ => 0
  cq := 0

/-- A server of three with three queues, connected to a server and two clients. -/
theorem routed_mixed :
    (connectAll (newChoice true 3 3) [newPeer 2, newPeer 4, newPeer 5]).map
        Connected.created = [2, 3, 3] ∧
      forall c, c ∈ connectAll (newChoice true 3 3) [newPeer 2, newPeer 4, newPeer 5] ->
        Routed 3 c := by
  constructor
  · decide
  · exact (routed_iff_routable true 3 (by decide) _).mpr (Or.inl (by decide))

/--
A client with two queues, as the test program makes it: its second queue pair completes
to the second queue, while the first one is polled.
-/
theorem not_routed_twoQueues :
    exists c, c ∈ connectAll (newChoice false 1 2) [newPeer 1] ∧
      c.created = 3 ∧ c.peer.sendCQ 1 = 1 ∧ c.peer.cq = 0 ∧ ¬ Routed 2 c := by
  refine ⟨_, List.mem_cons_self, rfl, rfl, rfl, ?_⟩
  intro hrouted
  have heq : (1 : Nat) = 0 := hrouted.send 1 (by decide)
  cases heq

end QueueRouting
end Net
end SpongeBob
