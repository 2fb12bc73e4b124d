import SpongeBob.Net.QueuePairs

/-!
# Both ends of a connection

The ends of a connection agree on the number of queue pairs, and never bring one up
towards a queue pair that the other end has not created.  When both have returned, each
queue pair is joined to the one with the same index at the other end.
-/

namespace SpongeBob
namespace Net
namespace QueuePairs

open Foundation

/--
The ends have the same configuration; servers have the numbers of the configuration, and
a client has got another one before it connects to a server that does not give it.
-/
structure Ready (socket : Side -> RdmaSocket) : Prop where
  count : forall side, (socket side).serverCount = (socket side.other).serverCount
  server : forall side, (socket side).isServer = false -> (socket side.other).isServer = true
  number : forall side, (socket side).isServer = true ->
    (socket side).myNodeID.toNat ≤ (socket side).serverCount ∧
    (socket side).serverCount < (socket side).maxNodeID.toNat
  client : forall side, (socket side).isServer = false -> (socket side.other).myNodeID ≠ 1 ->
    (socket side).serverCount < (socket side).myNodeID.toNat

/-- The peers have no queue pairs yet. -/
def New (peer : Side -> Peer) : Prop :=
  forall side i, (peer side).qp i = none

/-- An end of a connection that is up, as the other end sees it. -/
structure Joined (node : Side -> Node) (s : State) (side : Side) : Prop where
  pairs : (s.ends side).queuePairs = (s.ends side.other).queuePairs
  memory : (s.ends side).peer.registeredMemory = (node side.other).mm
  rkey : (s.ends side.other).socket.isServer = true ->
    (s.ends side).peer.rkey = (node side.other).rkey
  up : forall i, i < (s.ends side).queuePairs -> exists qp qp',
    (s.ends side).peer.qp i = some qp ∧ (s.ends side.other).peer.qp i = some qp' ∧
    qp.state = QPState.rts ∧ qp'.state = QPState.rts ∧ qp.destQpNum = qp'.qpNum ∧
    qp.dlid = (node side.other).lid ∧ qp.rqPsn = qp'.sqPsn

/-- A queue pair that is on its way up is joined to one that the other end has created. -/
def Towards (node : Side -> Node) (s : State) (side : Side) : Prop :=
  forall i qp, (s.ends side).peer.qp i = some qp -> qp.state.towards = true ->
    exists qp', (s.ends side.other).peer.qp i = some qp' ∧ qp.destQpNum = qp'.qpNum ∧
      qp.dlid = (node side.other).lid ∧
      (qp'.state.towards = true -> qp'.destQpNum = qp.qpNum ∧ qp'.dlid = (node side).lid)

section Agreement

variable {node : Side -> Node} {socket : Side -> RdmaSocket} {peer : Side -> Peer}
  {side : Side} {s : State} {i : Nat}

/-!
# The number of queue pairs
-/

theorem isServer_metEnd :
    (metEnd node socket peer side).socket.isServer = (socket side).isServer := by
  show ((socket side).receiveID (peer side).nodeID (socket side.other).localID).2.isServer = _
  unfold RdmaSocket.receiveID
  split
  · rfl
  · split
    · rfl
    · split
      · rfl
      · split
        · rfl
        · rfl

theorem serverCount_metEnd :
    (metEnd node socket peer side).socket.serverCount = (socket side).serverCount := by
  show ((socket side).receiveID (peer side).nodeID (socket side.other).localID).2.serverCount = _
  unfold RdmaSocket.receiveID
  split
  · rfl
  · split
    · rfl
    · split
      · rfl
      · split
        · rfl
        · rfl

theorem pairs_of_client (hclient : (socket side).isServer = false) :
    pairs node socket peer side = qpNumber :=
  RdmaSocket.queuePairs_client (isServer_metEnd.trans hclient) _

theorem pairs_of_server (h : Ready socket) (hserver : (socket side).isServer = true) :
    pairs node socket peer side =
      if (socket side.other).isServer then 2 else qpNumber := by
  have hcount : (metEnd node socket peer side).socket.serverCount =
      (socket side.other).serverCount := serverCount_metEnd.trans (h.count side)
  have hserver' : (metEnd node socket peer side).socket.isServer = true :=
    isServer_metEnd.trans hserver
  unfold pairs End.queuePairs
  cases hother : (socket side.other).isServer with
  | true =>
      have hpeer : (metEnd node socket peer side).peer.nodeID =
          (socket side.other).myNodeID := by
        show ((socket side).receiveID (peer side).nodeID
          (socket side.other).localID).1 = (socket side.other).myNodeID
        rw [RdmaSocket.localID_server hother]
        unfold RdmaSocket.receiveID
        rw [hserver]
        rfl
      have hle := (h.number side.other hother).left
      unfold RdmaSocket.queuePairs RdmaSocket.doubleQP
      rw [hserver', hpeer, hcount, decide_eq_false (Nat.not_lt.mpr hle)]
      rfl
  | false =>
      apply RdmaSocket.queuePairs_server hserver'
      rw [serverCount_metEnd]
      show (socket side).serverCount < ((socket side).receiveID (peer side).nodeID
        (socket side.other).localID).1.toNat
      have hremote : (socket side.other).localID.isServer = false := by
        rw [RdmaSocket.localID_client hother]
      by_cases hone : (socket side).myNodeID = 1
      · rw [RdmaSocket.receiveID_server_one hserver hone hremote]
        exact (h.number side hserver).right
      · rw [RdmaSocket.receiveID_server_other hserver hone hremote,
          RdmaSocket.localID_client hother, h.count side]
        have hclient := h.client side.other hother
        rw [Side.other_other] at hclient
        exact hclient hone

/-- Both ends create the same number of queue pairs. -/
theorem pairs_eq (h : Ready socket) :
    pairs node socket peer side = pairs node socket peer side.other := by
  cases hside : (socket side).isServer with
  | false =>
      have hother := h.server side hside
      rw [pairs_of_client hside, pairs_of_server h hother, Side.other_other, hside]
      rfl
  | true =>
      rw [pairs_of_server h hside]
      cases hother : (socket side.other).isServer with
      | false =>
          rw [pairs_of_client hother]
          rfl
      | true =>
          rw [pairs_of_server h hother, Side.other_other, hside]

/-!
# The queue pairs of an end
-/

theorem qpNum_ownMeta (hlt : i < pairs node socket peer side) :
    (ownMeta node socket peer side).qpNum i = (node side).qpNum i := by
  have hqp : (metEnd node socket peer side).peer.qp i =
      some (QP.create ((node side).qpNum i)) := if_pos hlt
  unfold ownMeta localMeta
  dsimp only
  rw [hqp]
  rfl

/-- The queue pair of the peer is the one with the same index. -/
theorem qpNum_metPeer (h : Ready socket) (hlt : i < pairs node socket peer side) :
    (metPeer node socket peer side).qpNum i = (node side.other).qpNum i := by
  rw [pairs_eq h] at hlt
  exact qpNum_ownMeta hlt

section Written

variable {e : End} {id : Option ExchangeID} {own theirs : Option ExchangeMeta} {qp : QP}

theorem endAt_qp_cases {j : Nat} {state : QPState} {phase : Phase}
    (hqp : (endAt node socket peer side j state phase).peer.qp i = some qp) :
    i < pairs node socket peer side ∧
      qp = brought (node side) (metPeer node socket peer side) i (reached j state i) := by
  unfold endAt at hqp
  dsimp only at hqp
  split at hqp
  · rename_i hlt
    cases hqp
    exact ⟨hlt, rfl⟩
  · cases hqp

theorem metEnd_qp_cases (hqp : (metEnd node socket peer side).peer.qp i = some qp) :
    qp = brought (node side) (metPeer node socket peer side) i QPState.reset := by
  have hqp' : (if i < pairs node socket peer side then
      some (QP.create ((node side).qpNum i)) else none) = some qp := hqp
  split at hqp'
  · cases hqp'
    rfl
  · cases hqp'

/-- A queue pair on its way up has been created, and the other end has sent its numbers. -/
theorem EndOk.towards (h : EndOk node socket peer side e id own theirs) (hnew : New peer)
    (hqp : e.peer.qp i = some qp) (htowards : qp.state.towards = true) :
    i < pairs node socket peer side ∧ theirs ≠ none ∧
      qp = brought (node side) (metPeer node socket peer side) i qp.state := by
  cases h with
  | start =>
      rw [hnew side i] at hqp
      cases hqp
  | sentID =>
      rw [hnew side i] at hqp
      cases hqp
  | noGid _ =>
      cases metEnd_qp_cases hqp
      cases htowards
  | created _ =>
      cases metEnd_qp_cases hqp
      cases htowards
  | sentMeta =>
      cases metEnd_qp_cases hqp
      cases htowards
  | modifying _ _ _ =>
      rcases endAt_qp_cases hqp with ⟨hlt, rfl⟩
      exact ⟨hlt, Option.some_ne_none _, rfl⟩
  | refused _ _ =>
      rcases endAt_qp_cases hqp with ⟨hlt, rfl⟩
      exact ⟨hlt, Option.some_ne_none _, rfl⟩
  | up =>
      rcases endAt_qp_cases hqp with ⟨hlt, rfl⟩
      exact ⟨hlt, Option.some_ne_none _, rfl⟩

/-- An end that has sent the numbers of its queue pairs has them. -/
theorem EndOk.exists_qp (h : EndOk node socket peer side e id own theirs) (hown : own ≠ none)
    (hlt : i < pairs node socket peer side) : exists state,
      e.peer.qp i = some (brought (node side) (metPeer node socket peer side) i state) := by
  cases h with
  | start => exact absurd rfl hown
  | sentID => exact absurd rfl hown
  | noGid _ => exact absurd rfl hown
  | created _ => exact absurd rfl hown
  | sentMeta => exact ⟨QPState.reset, if_pos hlt⟩
  | modifying _ _ _ => exact ⟨_, if_pos hlt⟩
  | refused _ _ => exact ⟨_, if_pos hlt⟩
  | up => exact ⟨_, if_pos hlt⟩

/-- An end that has returned with success. -/
theorem EndOk.of_returned (h : EndOk node socket peer side e id own theirs)
    (hphase : e.phase = Phase.returned true) :
    e = endAt node socket peer side (pairs node socket peer side) QPState.reset
      (Phase.returned true) := by
  have hmet : (metEnd node socket peer side).phase ≠ Phase.returned true := by
    unfold metEnd End.receiveID
    dsimp only
    split
    · exact fun h => by cases h
    · exact fun h => by cases h
  cases h with
  | start => cases hphase
  | sentID => cases hphase
  | noGid _ => exact absurd hphase hmet
  | created _ => exact absurd hphase hmet
  | sentMeta => cases hphase
  | modifying _ _ _ => cases hphase
  | refused _ _ => cases hphase
  | up => rfl

end Written

/-!
# Joined queue pairs
-/

theorem EndsOk.towards (h : EndsOk node socket peer s) (hready : Ready socket) (hnew : New peer)
    (side : Side) : Towards node s side := by
  intro i qp hqp htowards
  rcases (h side).towards hnew hqp htowards with ⟨hlt, htheirs, hform⟩
  have hlt' : i < pairs node socket peer side.other := by
    rw [← pairs_eq hready]
    exact hlt
  rcases (h side.other).exists_qp htheirs hlt' with ⟨state, hqp'⟩
  have hnum : qp.qpNum = (node side).qpNum i := congrArg QP.qpNum hform
  have hdest : qp.destQpNum = (node side.other).qpNum i := by
    have hfield := congrArg QP.destQpNum hform
    unfold brought at hfield
    dsimp only at hfield
    rw [if_pos htowards, qpNum_metPeer hready hlt] at hfield
    exact hfield
  have hdlid : qp.dlid = (node side.other).lid := by
    have hfield := congrArg QP.dlid hform
    unfold brought at hfield
    dsimp only at hfield
    rw [if_pos htowards] at hfield
    exact hfield
  refine ⟨_, hqp', hdest, hdlid, ?_⟩
  intro (htowards' : state.towards = true)
  have hback : (metPeer node socket peer side.other).qpNum i = (node side).qpNum i := by
    have hnum' := qpNum_metPeer hready hlt'
    rw [Side.other_other] at hnum'
    exact hnum'
  have hlid : (metPeer node socket peer side.other).lid = (node side).lid := by
    show (node side.other.other).lid = _
    rw [Side.other_other]
  constructor
  · show (if state.towards then _ else _) = qp.qpNum
    rw [if_pos htowards', hnum, hback]
  · show (if state.towards then _ else _) = _
    rw [if_pos htowards', hlid]

theorem endAt_up_qp {phase : Phase} (hlt : i < pairs node socket peer side) :
    (endAt node socket peer side (pairs node socket peer side) QPState.reset phase).peer.qp i =
      some (brought (node side) (metPeer node socket peer side) i QPState.rts) := by
  have hreached : reached (pairs node socket peer side) QPState.reset i = QPState.rts :=
    if_pos hlt
  unfold endAt
  dsimp only
  rw [if_pos hlt, hreached]

theorem EndsOk.joined (h : EndsOk node socket peer s) (hready : Ready socket)
    (hreturned : forall side, (s.ends side).phase = Phase.returned true) (side : Side) :
    Joined node s side := by
  have hend := (h side).of_returned (hreturned side)
  have hend' := (h side.other).of_returned (hreturned side.other)
  have hpairs : (s.ends side).queuePairs = pairs node socket peer side := by
    rw [hend]
    rfl
  have hpairs' : (s.ends side.other).queuePairs = pairs node socket peer side.other := by
    rw [hend']
    rfl
  constructor
  · rw [hpairs, hpairs', pairs_eq hready]
  · rw [hend]
    rfl
  · intro hserver
    rw [hend'] at hserver
    rw [hend]
    exact if_pos hserver
  · intro i hi
    rw [hpairs] at hi
    have hi' : i < pairs node socket peer side.other := by
      rw [← pairs_eq hready]
      exact hi
    exists brought (node side) (metPeer node socket peer side) i QPState.rts
    exists brought (node side.other) (metPeer node socket peer side.other) i QPState.rts
    refine ⟨?_, ?_, rfl, rfl, qpNum_metPeer hready hi, rfl, rfl⟩
    · rw [hend]
      exact endAt_up_qp hi
    · rw [hend']
      exact endAt_up_qp hi'

/-!
# Progress
-/

/-- A bound on the statements that an end has still before it. -/
def Phase.rank : Phase -> Nat
  | start => 3 * qpNumber + 5
  | sentID => 3 * qpNumber + 4
  | created => 3 * qpNumber + 3
  | sentMeta => 3 * qpNumber + 2
  | modifying i QPState.reset => 3 * (qpNumber - i) + 2
  | modifying i QPState.init => 3 * (qpNumber - i) + 1
  | modifying i QPState.rtr => 3 * (qpNumber - i)
  | modifying i QPState.rts => 3 * (qpNumber - i) - 1
  | returned _ => 0

/-- What an end that cannot go on waits for. -/
def Waits (s : State) (side : Side) : Prop :=
  s.ids side ≠ none ∧
    ((s.ends side).phase = Phase.sentID ∨
      s.metas side ≠ none ∧
        ((s.ends side).phase = Phase.sentMeta ∨ (s.ends side).phase = Phase.returned true))

theorem exists_step_of_sentID {remoteID : ExchangeID}
    (hphase : (s.ends side).phase = Phase.sentID) (hid : s.ids side.other = some remoteID) :
    exists out s', QueuePairs.step node s side = Except.ok (out, s') := by
  unfold QueuePairs.step
  dsimp only
  rw [hphase]
  dsimp only
  rw [hid]
  exact ⟨_, _, rfl⟩

theorem exists_step_of_sentMeta {remoteMeta : ExchangeMeta}
    (hphase : (s.ends side).phase = Phase.sentMeta)
    (hmeta : s.metas side.other = some remoteMeta) :
    exists out s', QueuePairs.step node s side = Except.ok (out, s') := by
  unfold QueuePairs.step
  dsimp only
  rw [hphase]
  dsimp only
  rw [hmeta]
  exact ⟨_, _, rfl⟩

/-- As long as the driver agrees, an end goes on or waits for the other one. -/
theorem EndsOk.step_or_waits (h : EndsOk node socket peer s) (hgid : (node side).gid = true)
    (haccepts : forall i target, (node side).accepts i target = true) :
    (exists out s', QueuePairs.step node s side = Except.ok (out, s')) ∨ Waits s side := by
  have hside := h side
  unfold QueuePairs.step Waits
  generalize s.ends side = e at hside
  generalize s.ids side = id at hside
  generalize s.metas side = own at hside
  generalize s.metas side.other = theirs at hside
  cases hside with
  | start => exact Or.inl ⟨_, _, rfl⟩
  | sentID => exact Or.inr ⟨Option.some_ne_none _, Or.inl rfl⟩
  | noGid hno => exact absurd hgid (by rw [hno]; decide)
  | created hyes =>
      have hphase : (metEnd node socket peer side).phase = Phase.created := by
        unfold metEnd End.receiveID
        rw [hyes]
        rfl
      dsimp only
      rw [hphase]
      exact Or.inl ⟨_, _, rfl⟩
  | sentMeta =>
      exact Or.inr ⟨Option.some_ne_none _, Or.inr ⟨Option.some_ne_none _, Or.inl rfl⟩⟩
  | @modifying i target hreset hle hlt =>
      left
      show exists out s', (Bind.bind ((endAt node socket peer side i (before target)
        (Phase.modifying i target)).modify (node side) i target) _) = Except.ok (out, s')
      by_cases hpair : i < pairs node socket peer side
      · rw [modify_endAt hreset hpair, if_pos (haccepts i target)]
        exact ⟨_, _, rfl⟩
      · have hinit : target = QPState.init := by
          by_contra hne
          exact hpair (hlt hne)
        have hend : i = pairs node socket peer side :=
          Nat.le_antisymm hle (Nat.le_of_not_lt hpair)
        subst hinit hend
        rw [show before QPState.init = QPState.reset from rfl, modify_endAt_end]
        exact ⟨_, _, rfl⟩
  | @refused i target _ hrefuses => exact absurd (haccepts i target) (by rw [hrefuses]; decide)
  | up => exact Or.inr ⟨Option.some_ne_none _, Or.inr ⟨Option.some_ne_none _, Or.inr rfl⟩⟩

/-- The ends do not wait for each other. -/
theorem EndsOk.exists_step (h : EndsOk node socket peer s)
    (hgid : forall side, (node side).gid = true)
    (haccepts : forall side i target, (node side).accepts i target = true)
    (hgoing : ¬ forall side, (s.ends side).phase = Phase.returned true) :
    exists side out s', QueuePairs.step node s side = Except.ok (out, s') := by
  by_contra hnone
  have hstuck : forall side, ¬ exists out s', QueuePairs.step node s side = Except.ok (out, s') :=
    fun side hstep => hnone ⟨side, hstep⟩
  have hwaits : forall side, Waits s side :=
    fun side => (h.step_or_waits (hgid side) (haccepts side)).resolve_left (hstuck side)
  have hmetas : forall side, s.metas side ≠ none ∧
      ((s.ends side).phase = Phase.sentMeta ∨ (s.ends side).phase = Phase.returned true) := by
    intro side
    apply (hwaits side).right.resolve_left
    intro hphase
    rcases Option.ne_none_iff_exists'.mp (hwaits side.other).left with ⟨remoteID, hid⟩
    exact hstuck side (exists_step_of_sentID hphase hid)
  apply hgoing
  intro side
  apply (hmetas side).right.resolve_left
  intro hphase
  rcases Option.ne_none_iff_exists'.mp (hmetas side.other).left with ⟨remoteMeta, hmeta⟩
  exact hstuck side (exists_step_of_sentMeta hphase hmeta)

end Agreement

/-!
# The connection
-/

/-- A bound on the statements that both ends have still before them. -/
def State.rank (s : State) : Nat :=
  (s.ends Side.left).phase.rank + (s.ends Side.right).phase.rank

end QueuePairs
end Net
end SpongeBob
