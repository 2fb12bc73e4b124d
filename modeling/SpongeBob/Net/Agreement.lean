import SpongeBob.Net.Handshake

/-!
# The state of the handshakes

What holds of the clients, the servers and the connections while the handshakes of
the clients interleave.  The number that node 1 sends to a client is the one to
follow through the network: the message that carries it is never changed.
-/

namespace SpongeBob
namespace Net

open Foundation

/-!
# What each step does
-/

/-- The steps that are possible in a state, one constructor for each kind. -/
inductive Moves (s : Network) : Event -> Notice -> Network -> Prop where
  | connect {c : Nat} {v : UInt16} {rest : List UInt16}
      (hphase : (s.clients c).phase = ClientPhase.idle)
      (htodo : (s.clients c).todo = v :: rest) :
      Moves s (Event.connect c) Notice.quiet
        ((s.setClient c
          { s.clients c with phase := ClientPhase.connected v, todo := rest }).setConnection c v
            { s.connections c v with opened := true })
  | clientSend {c : Nat} {v : UInt16}
      (hphase : (s.clients c).phase = ClientPhase.connected v) :
      Moves s (Event.clientSend c) Notice.quiet
        ((s.setClient c { s.clients c with phase := ClientPhase.sentID v }).setConnection c v
          { s.connections c v with clientID := some (s.clients c).socket.localID })
  | clientReceive {c : Nat} {v : UInt16} {remoteID : ExchangeID} {peerID : UInt16}
      {socket : RdmaSocket} (hphase : (s.clients c).phase = ClientPhase.sentID v)
      (hremote : (s.connections c v).serverID = some remoteID)
      (hreceive : (s.clients c).socket.receiveID v remoteID = (peerID, socket)) :
      Moves s (Event.clientReceive c) Notice.quiet
        ((s.setClient c
          { s.clients c with
            socket := socket
            phase := ClientPhase.sentMeta v (socket.queuePairs peerID) }).setConnection c v
              { s.connections c v with clientMeta := some (socket.queuePairs peerID) })
  | clientFinish {c : Nat} {v : UInt16} {created other : Nat}
      (hphase : (s.clients c).phase = ClientPhase.sentMeta v created)
      (hremote : (s.connections c v).serverMeta = some other) :
      Moves s (Event.clientFinish c) Notice.quiet
        (s.setClient c
          { s.clients c with
            socket := (s.clients c).socket.storePeer c v created
            phase := ClientPhase.idle })
  | accept {v : UInt16} {c : Nat} (hphase : (s.servers v).phase = ServerPhase.listening)
      (hopened : (s.connections c v).opened = true)
      (hnew : (s.connections c v).serverID = none) :
      Moves s (Event.accept v c) Notice.quiet
        ((s.setServer v { s.servers v with phase := ServerPhase.sentID c }).setConnection c v
          { s.connections c v with serverID := some (s.servers v).socket.localID })
  | serverReceive {v : UInt16} {c : Nat} {remoteID : ExchangeID} {peerID : UInt16}
      {socket : RdmaSocket} (hphase : (s.servers v).phase = ServerPhase.sentID c)
      (hremote : (s.connections c v).clientID = some remoteID)
      (hreceive : (s.servers v).socket.receiveID 0 remoteID = (peerID, socket)) :
      Moves s (Event.serverReceive v) Notice.quiet
        ((s.setServer v
          { socket := socket
            phase := ServerPhase.sentMeta c peerID (socket.queuePairs peerID) }).setConnection
              c v { s.connections c v with serverMeta := some (socket.queuePairs peerID) })
  | serverFinish {v : UInt16} {c : Nat} {peerID : UInt16} {created other : Nat}
      (hphase : (s.servers v).phase = ServerPhase.sentMeta c peerID created)
      (hremote : (s.connections c v).clientMeta = some other) :
      Moves s (Event.serverFinish v) (Notice.filed v c peerID)
        (s.setServer v
          { socket := (s.servers v).socket.storePeer c peerID created
            phase := ServerPhase.listening })

theorem step_moves {s s' : Network} {event : Event} {notice : Notice}
    (hstep : step s event = Except.ok (notice, s')) : Moves s event notice s' := by
  cases event with
  | connect c =>
      simp only [step] at hstep
      split at hstep
      · rename_i v rest hphase htodo
        cases hstep
        exact Moves.connect hphase htodo
      · cases hstep
  | clientSend c =>
      simp only [step] at hstep
      split at hstep
      · rename_i v hphase
        cases hstep
        exact Moves.clientSend hphase
      · cases hstep
  | clientReceive c =>
      simp only [step] at hstep
      split at hstep
      · rename_i v hphase
        split at hstep
        · rename_i remoteID hremote
          cases hstep
          exact Moves.clientReceive hphase hremote rfl
        · cases hstep
      · cases hstep
  | clientFinish c =>
      simp only [step] at hstep
      split at hstep
      · rename_i v created hphase
        split at hstep
        · rename_i other hremote
          cases hstep
          exact Moves.clientFinish hphase hremote
        · cases hstep
      · cases hstep
  | accept v c =>
      simp only [step] at hstep
      split at hstep
      · rename_i hphase
        split at hstep
        · rename_i hcond
          cases hstep
          exact Moves.accept hphase hcond.left hcond.right
        · cases hstep
      · cases hstep
  | serverReceive v =>
      simp only [step] at hstep
      split at hstep
      · rename_i c hphase
        split at hstep
        · rename_i remoteID hremote
          cases hstep
          exact Moves.serverReceive hphase hremote rfl
        · cases hstep
      · cases hstep
  | serverFinish v =>
      simp only [step] at hstep
      split at hstep
      · rename_i c peerID created hphase
        split at hstep
        · rename_i other hremote
          cases hstep
          exact Moves.serverFinish hphase hremote
        · cases hstep
      · cases hstep

/-!
# Identities
-/

/-- The servers after node 1 have other numbers. -/
theorem Config.one_not_mem_order (config : Config) (c : Nat) : 1 ∉ config.order c := by
  rw [(config.order_perm c).mem_iff]
  intro hmem
  rcases List.mem_map.mp hmem with ⟨i, hi, heq⟩
  have hrange := List.mem_range'_1.mp hi
  have hcount := config.count_lt
  have hnat := congrArg UInt16.toNat heq
  rw [UInt16.toNat_ofNat_of_lt' (show i < 2 ^ 16 by omega)] at hnat
  have hone : (1 : UInt16).toNat = 1 := rfl
  omega

namespace RdmaSocket

variable {s : RdmaSocket} {remoteID : ExchangeID} {peerID : UInt16}

theorem receiveID_server_one (hserver : s.isServer = true) (hid : s.myNodeID = 1)
    (hremote : remoteID.isServer = false) :
    s.receiveID peerID remoteID = (s.maxNodeID, { s with maxNodeID := s.maxNodeID + 1 }) := by
  simp [receiveID, hserver, hid, hremote]

theorem receiveID_server_other (hserver : s.isServer = true) (hid : s.myNodeID ≠ 1)
    (hremote : remoteID.isServer = false) :
    s.receiveID peerID remoteID = (remoteID.nodeID, s) := by
  simp [receiveID, hserver, hid, hremote]

theorem receiveID_client_given (hclient : s.isServer = false) (hgiven : remoteID.givenID ≠ 0) :
    s.receiveID peerID remoteID = (peerID, { s with myNodeID := remoteID.givenID }) := by
  simp [receiveID, hclient, hgiven]

theorem receiveID_client_kept (hclient : s.isServer = false) (hgiven : remoteID.givenID = 0) :
    s.receiveID peerID remoteID = (peerID, s) := by
  simp [receiveID, hclient, hgiven]

theorem queuePairs_client (hclient : s.isServer = false) (peerID : UInt16) :
    s.queuePairs peerID = qpNumber := by
  simp [queuePairs, doubleQP, hclient]

theorem queuePairs_server (hserver : s.isServer = true)
    (hpeer : s.serverCount < peerID.toNat) : s.queuePairs peerID = qpNumber := by
  simp [queuePairs, doubleQP, hserver, hpeer]

theorem localID_server (hserver : s.isServer = true) :
    s.localID = ⟨s.myNodeID, true, if s.myNodeID = 1 then s.maxNodeID else 0⟩ := by
  simp [localID, hserver]

theorem localID_client (hclient : s.isServer = false) :
    s.localID = ⟨s.myNodeID, false, 0⟩ := by
  simp [localID, hclient]

end RdmaSocket

/-- The client has got past the identities of node 1. -/
def Client.Adopted (client : Client) : Prop :=
  1 ∉ client.todo ∧ client.phase ≠ ClientPhase.connected 1 ∧
    client.phase ≠ ClientPhase.sentID 1

/-- Whether a client in this phase has nothing to receive from node 1. -/
def ClientPhase.pastOne : ClientPhase -> Bool
  | idle => true
  | connected v => decide (v ≠ 1)
  | sentID v => decide (v ≠ 1)
  | sentMeta _ _ => true

theorem Client.adopted_iff {client : Client} :
    client.Adopted <-> 1 ∉ client.todo ∧ client.phase.pastOne = true := by
  unfold Client.Adopted
  cases client.phase <;> simp [ClientPhase.pastOne]

/-- The number that node 1 has sent to a client. -/
def Network.given (s : Network) (c : Nat) : Option UInt16 :=
  (s.connections c 1).serverID.map ExchangeID.givenID

/-!
# The invariant

One part for each client, each server and each connection; what they say about each
other they say by the number that was sent.
-/

structure ClientOk (order : List UInt16) (given : Option UInt16) (client : Client) :
    Prop where
  isClient : client.socket.isServer = false
  start : (client.todo = 1 :: order ∧ client.phase = ClientPhase.idle) ∨ 1 ∉ client.todo
  adopted : client.Adopted -> given = some client.socket.myNodeID
  created : forall v k, client.phase = ClientPhase.sentMeta v k -> k = qpNumber
  peers : forall v p, client.socket.peers v = some p ->
    p.created = qpNumber ∧ p.connected = qpNumber

structure ConnectionOk (client : Client) (v : UInt16) (connection : Connection) : Prop where
  opened : v ≠ 1 -> connection.opened = true -> client.Adopted
  clientID : forall e, connection.clientID = some e -> e.isServer = false ∧
    (v ≠ 1 -> client.Adopted ∧ e.nodeID = client.socket.myNodeID)
  serverID : forall e, connection.serverID = some e -> v ≠ 1 -> e.givenID = 0
  clientMeta : forall k, connection.clientMeta = some k -> client.Adopted

structure ServerOk (n : Nat) (s : Network) (v : UInt16) (server : Server) : Prop where
  isServer : server.socket.isServer = true
  myNodeID : server.socket.myNodeID = v
  serverCount : server.socket.serverCount = n
  sentID : v = 1 -> forall c, server.phase = ServerPhase.sentID c ->
    s.given c = some server.socket.maxNodeID
  sentMeta : forall c i k, server.phase = ServerPhase.sentMeta c i k ->
    s.given c = some i ∧ k = qpNumber
  peers : forall i p, server.socket.peers i = some p ->
    s.given p.sock = some i ∧ (s.clients p.sock).Adopted ∧ p.created = qpNumber ∧
      p.connected = qpNumber

/-- Whether a server has sent a number that it has not yet counted on from. -/
def ServerPhase.ahead : ServerPhase -> Nat
  | ServerPhase.sentID _ => 1
  | _ => 0

/-- The state after at most {lit}`k` connections to node 1. -/
structure Agrees (config : Config) (k : Nat) (s : Network) : Prop where
  clients : forall c, ClientOk (config.order c) (s.given c) (s.clients c)
  connections : forall c v, ConnectionOk (s.clients c) v (s.connections c v)
  servers : forall v, ServerOk config.serverCount s v (s.servers v)
  low : config.serverCount < (s.servers 1).socket.maxNodeID.toNat
  high : (s.servers 1).socket.maxNodeID.toNat + (s.servers 1).phase.ahead ≤
    config.serverCount + 1 + k
  range : forall c g, s.given c = some g -> config.serverCount < g.toNat ∧
    (g.toNat < (s.servers 1).socket.maxNodeID.toNat ∨
      (g = (s.servers 1).socket.maxNodeID ∧ (s.servers 1).phase = ServerPhase.sentID c))
  distinct : forall c c' g, s.given c = some g -> s.given c' = some g -> c = c'

section Parts

variable {s s' : Network} {n : Nat} {v : UInt16}

theorem ClientOk.mono {order : List UInt16} {given given' : Option UInt16} {client : Client}
    (h : ClientOk order given client)
    (hgiven : forall g, given = some g -> given' = some g) : ClientOk order given' client :=
  ⟨h.isClient, h.start, fun hadopted => hgiven _ (h.adopted hadopted), h.created, h.peers⟩

theorem ConnectionOk.mono {client client' : Client} {connection : Connection}
    (h : ConnectionOk client v connection)
    (hclient : client.Adopted ->
      client'.Adopted ∧ client'.socket.myNodeID = client.socket.myNodeID) :
    ConnectionOk client' v connection := by
  refine ⟨?_, ?_, h.serverID, ?_⟩
  · intro hv hopened
    exact (hclient (h.opened hv hopened)).left
  · intro e he
    refine ⟨(h.clientID e he).left, ?_⟩
    intro hv
    rcases (h.clientID e he).right hv with ⟨hadopted, hid⟩
    rcases hclient hadopted with ⟨hadopted', hsame⟩
    exact ⟨hadopted', hid.trans hsame.symm⟩
  · intro k hk
    exact (hclient (h.clientMeta k hk)).left

theorem ServerOk.mono {server : Server} (h : ServerOk n s v server)
    (hgiven : forall c g, s.given c = some g -> s'.given c = some g)
    (hadopted : forall c, (s.clients c).Adopted -> (s'.clients c).Adopted) :
    ServerOk n s' v server := by
  refine ⟨h.isServer, h.myNodeID, h.serverCount, ?_, ?_, ?_⟩
  · intro hv c hphase
    exact hgiven c _ (h.sentID hv c hphase)
  · intro c i k hphase
    rcases h.sentMeta c i k hphase with ⟨hid, hk⟩
    exact ⟨hgiven c i hid, hk⟩
  · intro i p hp
    rcases h.peers i p hp with ⟨hid, hclient, hcreated, hconnected⟩
    exact ⟨hgiven p.sock i hid, hadopted p.sock hclient, hcreated, hconnected⟩

end Parts

/-- What node 1 has sent changes only with its message. -/
theorem given_eq_of_serverID (s : Network) (c : Nat) (v : UInt16) (connection : Connection)
    (hserverID : connection.serverID = (s.connections c v).serverID) (d : Nat) :
    (s.setConnection c v connection).given d = s.given d := by
  show (if d = c ∧ 1 = v then connection else s.connections d 1).serverID.map _ = _
  split
  · rename_i heq
    rcases heq with ⟨rfl, rfl⟩
    rw [hserverID]
    rfl
  · rfl

end Net
end SpongeBob
