import SpongeBob.Foundation.Run
import SpongeBob.Foundation.Word

/-!
# The connection handshake

A client connects to node 1, which gives it a number, and then to the other
servers, to which it announces that number.  Both ends of a connection run
{lit}`ConnectQueuePair`: they exchange identities over a socket, create their queue
pairs, exchange the numbers of these, and bring the pairs up.
-/

namespace SpongeBob
namespace Net

open Foundation

def workerNumber : Nat := 2

/-- Queue pairs of a data connection: one for messages and one for each worker. -/
def qpNumber : Nat := 1 + workerNumber

/-!
# One end of a connection
-/

structure ExchangeID where
  nodeID : UInt16
  isServer : Bool
  givenID : UInt16
deriving DecidableEq, Repr

/-- What an end keeps about the other: {lit}`sock` tells connections apart. -/
structure PeerSockData where
  sock : Nat
  nodeID : UInt16
  created : Nat
  connected : Nat
deriving DecidableEq, Repr

/-- The part of {lit}`RdmaSocket` that the handshake uses. -/
structure RdmaSocket where
  isServer : Bool
  serverCount : Nat
  myNodeID : UInt16
  maxNodeID : UInt16
  peers : UInt16 -> Option PeerSockData

namespace RdmaSocket

/-- A new socket; the number of a client is whatever its memory held. -/
def make (isServer : Bool) (serverCount : Nat) (myNodeID : UInt16) : RdmaSocket where
  isServer := isServer
  serverCount := serverCount
  myNodeID := myNodeID
  maxNodeID := UInt16.ofNat (serverCount + 1)
  peers := fun _ => none

/-- The identity that an end sends. -/
def localID (s : RdmaSocket) : ExchangeID :=
  if s.isServer then
    { nodeID := s.myNodeID
      isServer := true
      givenID := if s.myNodeID = 1 then s.maxNodeID else 0 }
  else
    { nodeID := s.myNodeID
      isServer := false
      givenID := 0 }

/-- What an end makes of the identity it receives: the number of its peer, and its own state. -/
def receiveID (s : RdmaSocket) (peerID : UInt16) (remoteID : ExchangeID) :
    UInt16 × RdmaSocket :=
  if s.isServer && remoteID.isServer then
    (remoteID.nodeID, s)
  else if s.isServer && !remoteID.isServer && decide (s.myNodeID ≠ 1) then
    (remoteID.nodeID, s)
  else if s.isServer && !remoteID.isServer && decide (s.myNodeID = 1) then
    (s.maxNodeID, { s with maxNodeID := s.maxNodeID + 1 })
  else if !s.isServer && decide (remoteID.givenID ≠ 0) then
    (peerID, { s with myNodeID := remoteID.givenID })
  else
    (peerID, s)

/-- Whether the connection is one between a server and a client. -/
def doubleQP (s : RdmaSocket) (peerID : UInt16) : Bool :=
  !s.isServer || (s.isServer && decide (s.serverCount < peerID.toNat))

/-- The number of queue pairs that an end creates and connects. -/
def queuePairs (s : RdmaSocket) (peerID : UInt16) : Nat :=
  if s.doubleQP peerID then qpNumber else 2

/-- Enter a peer whose queue pairs are up. -/
def storePeer (s : RdmaSocket) (sock : Nat) (peerID : UInt16) (created : Nat) : RdmaSocket :=
  { s with
    peers := fun i =>
      if i = peerID then
        some { sock := sock, nodeID := peerID, created := created,
               connected := s.queuePairs peerID }
      else s.peers i }

end RdmaSocket

/-!
# The network

Each end of a connection is a sequence of steps, and the ends interleave.  A server
works on one connection at a time; a client goes through its servers in order.
-/

/-- What has been written to the socket between a client and a server. -/
structure Connection where
  opened : Bool := false
  clientID : Option ExchangeID := none
  serverID : Option ExchangeID := none
  clientMeta : Option Nat := none
  serverMeta : Option Nat := none
deriving DecidableEq, Repr

inductive ServerPhase where
  | listening
  | sentID (client : Nat)
  | sentMeta (client : Nat) (peerID : UInt16) (created : Nat)
deriving DecidableEq, Repr

inductive ClientPhase where
  | idle
  | connected (server : UInt16)
  | sentID (server : UInt16)
  | sentMeta (server : UInt16) (created : Nat)
deriving DecidableEq, Repr

structure Server where
  socket : RdmaSocket
  phase : ServerPhase

structure Client where
  socket : RdmaSocket
  phase : ClientPhase
  /-- The servers it has still to connect to. -/
  todo : List UInt16

structure Network where
  servers : UInt16 -> Server
  clients : Nat -> Client
  connections : Nat -> UInt16 -> Connection

/--
The servers and clients: server numbers are 1 to {lit}`serverCount`, a client starts
with an arbitrary number, and visits the servers after node 1 in an order of its own.
-/
structure Config where
  serverCount : Nat
  startID : Nat -> UInt16
  order : Nat -> List UInt16
  order_perm : forall c,
    (order c).Perm ((List.range' 2 (serverCount - 1)).map UInt16.ofNat)
  count_lt : serverCount < 2 ^ 16

def Config.init (config : Config) : Network where
  servers := fun v => ⟨RdmaSocket.make true config.serverCount v, ServerPhase.listening⟩
  clients := fun c =>
    { socket := RdmaSocket.make false config.serverCount (config.startID c)
      phase := ClientPhase.idle
      todo := 1 :: config.order c }
  connections := fun _ _ => {}

namespace Network

def setServer (s : Network) (v : UInt16) (server : Server) : Network :=
  { s with servers := fun w => if w = v then server else s.servers w }

def setClient (s : Network) (c : Nat) (client : Client) : Network :=
  { s with clients := fun d => if d = c then client else s.clients d }

def setConnection (s : Network) (c : Nat) (v : UInt16) (connection : Connection) : Network :=
  { s with
    connections := fun d w => if d = c ∧ w = v then connection else s.connections d w }

end Network

inductive Event where
  | connect (client : Nat)
  | clientSend (client : Nat)
  | clientReceive (client : Nat)
  | clientFinish (client : Nat)
  | accept (server : UInt16) (client : Nat)
  | serverReceive (server : UInt16)
  | serverFinish (server : UInt16)
deriving DecidableEq, Repr

/-- What an observer sees of a step: the peer that a server files. -/
inductive Notice where
  | quiet
  | filed (server : UInt16) (client : Nat) (nodeID : UInt16)
deriving DecidableEq, Repr

/-- One step of an end, or nothing when its next step has to wait. -/
def step (s : Network) : Event -> Except Unit (Notice × Network)
  | Event.connect c =>
      let client := s.clients c
      match client.phase, client.todo with
      | ClientPhase.idle, v :: rest =>
          Except.ok (Notice.quiet,
            (s.setClient c { client with phase := ClientPhase.connected v, todo := rest })
              |>.setConnection c v { s.connections c v with opened := true })
      | _, _ => Except.error ()
  | Event.clientSend c =>
      let client := s.clients c
      match client.phase with
      | ClientPhase.connected v =>
          Except.ok (Notice.quiet,
            (s.setClient c { client with phase := ClientPhase.sentID v })
              |>.setConnection c v
                { s.connections c v with clientID := some client.socket.localID })
      | _ => Except.error ()
  | Event.clientReceive c =>
      let client := s.clients c
      match client.phase with
      | ClientPhase.sentID v =>
          match (s.connections c v).serverID with
          | some remoteID =>
              let (peerID, socket) := client.socket.receiveID v remoteID
              let created := socket.queuePairs peerID
              Except.ok (Notice.quiet,
                (s.setClient c
                  { client with socket := socket, phase := ClientPhase.sentMeta v created })
                  |>.setConnection c v { s.connections c v with clientMeta := some created })
          | none => Except.error ()
      | _ => Except.error ()
  | Event.clientFinish c =>
      let client := s.clients c
      match client.phase with
      | ClientPhase.sentMeta v created =>
          match (s.connections c v).serverMeta with
          | some _ =>
              Except.ok (Notice.quiet,
                s.setClient c
                  { client with
                    socket := client.socket.storePeer c v created
                    phase := ClientPhase.idle })
          | none => Except.error ()
      | _ => Except.error ()
  | Event.accept v c =>
      let server := s.servers v
      let connection := s.connections c v
      match server.phase with
      | ServerPhase.listening =>
          if connection.opened ∧ connection.serverID = none then
            Except.ok (Notice.quiet,
              (s.setServer v { server with phase := ServerPhase.sentID c })
                |>.setConnection c v
                  { connection with serverID := some server.socket.localID })
          else
            Except.error ()
      | _ => Except.error ()
  | Event.serverReceive v =>
      let server := s.servers v
      match server.phase with
      | ServerPhase.sentID c =>
          match (s.connections c v).clientID with
          | some remoteID =>
              let (peerID, socket) := server.socket.receiveID 0 remoteID
              let created := socket.queuePairs peerID
              Except.ok (Notice.quiet,
                (s.setServer v
                  { socket := socket, phase := ServerPhase.sentMeta c peerID created })
                  |>.setConnection c v { s.connections c v with serverMeta := some created })
          | none => Except.error ()
      | _ => Except.error ()
  | Event.serverFinish v =>
      let server := s.servers v
      match server.phase with
      | ServerPhase.sentMeta c peerID created =>
          match (s.connections c v).clientMeta with
          | some _ =>
              Except.ok (Notice.filed v c peerID,
                s.setServer v
                  { socket := server.socket.storePeer c peerID created
                    phase := ServerPhase.listening })
          | none => Except.error ()
      | _ => Except.error ()

end Net
end SpongeBob
