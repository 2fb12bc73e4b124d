import SpongeBob.Net.Agreement

/-!
# Steps of the handshakes

Every step of a client or of a server keeps what holds of the network.
-/

namespace SpongeBob
namespace Net

open Foundation

/-!
# Steps of a client
-/

section ClientSteps

variable {config : Config} {k : Nat} {s : Network} {c : Nat} {v : UInt16}

/--
A step that changes one client and what it writes to a server, and nothing that node
1 has sent.
-/
theorem Agrees.clientStep (h : Agrees config k s) (client : Client) (connection : Connection)
    (hserverID : connection.serverID = (s.connections c v).serverID)
    (hclient : ClientOk (config.order c) (s.given c) client)
    (hconnection : ConnectionOk client v connection)
    (hkept : (s.clients c).Adopted ->
      client.Adopted ∧ client.socket.myNodeID = (s.clients c).socket.myNodeID) :
    Agrees config k ((s.setClient c client).setConnection c v connection) := by
  have hgiven : forall d, ((s.setClient c client).setConnection c v connection).given d =
      s.given d := given_eq_of_serverID _ c v connection hserverID
  have hadopted : forall d, (s.clients d).Adopted ->
      (((s.setClient c client).setConnection c v connection).clients d).Adopted := by
    intro d hd
    show (if d = c then client else s.clients d).Adopted
    split
    · rename_i heq
      subst heq
      exact (hkept hd).left
    · exact hd
  refine ⟨?_, ?_, ?_, h.low, h.high, ?_, ?_⟩
  · intro d
    rw [hgiven]
    show ClientOk _ _ (if d = c then client else s.clients d)
    split
    · rename_i heq
      subst heq
      exact hclient
    · exact h.clients d
  · intro d w
    show ConnectionOk (if d = c then client else s.clients d) w
      (if d = c ∧ w = v then connection else s.connections d w)
    by_cases hd : d = c
    · subst hd
      rw [if_pos rfl]
      split
      · rename_i heq
        rw [heq.right]
        exact hconnection
      · exact (h.connections d w).mono hkept
    · rw [if_neg hd, if_neg (fun heq => hd heq.left)]
      exact h.connections d w
  · intro w
    exact (h.servers w).mono (fun d g hg => (hgiven d).trans hg) hadopted
  · intro d g hg
    exact h.range d g ((hgiven d).symm.trans hg)
  · intro d d' g hg hg'
    exact h.distinct d d' g ((hgiven d).symm.trans hg) ((hgiven d').symm.trans hg')

theorem ClientOk.one_not_mem_todo {client : Client} {order : List UInt16}
    {given : Option UInt16} (h : ClientOk order given client)
    (hidle : client.phase ≠ ClientPhase.idle) : 1 ∉ client.todo := by
  rcases h.start with ⟨_, hphase⟩ | htodo
  · exact absurd hphase hidle
  · exact htodo

theorem Agrees.connect (h : Agrees config k s) {rest : List UInt16}
    (hphase : (s.clients c).phase = ClientPhase.idle)
    (htodo : (s.clients c).todo = v :: rest) :
    Agrees config k ((s.setClient c
      { s.clients c with phase := ClientPhase.connected v, todo := rest }).setConnection c v
        { s.connections c v with opened := true }) := by
  have hok := h.clients c
  have hfirst : 1 ∉ rest ∧ (v ≠ 1 -> (s.clients c).Adopted) := by
    rcases hok.start with ⟨hstart, _⟩ | hpast
    · rw [htodo] at hstart
      cases hstart
      refine ⟨config.one_not_mem_order c, ?_⟩
      intro hne
      exact absurd rfl hne
    · rw [htodo] at hpast
      refine ⟨fun hmem => hpast (List.mem_cons_of_mem v hmem), ?_⟩
      intro hne
      rw [Client.adopted_iff, htodo, hphase]
      exact ⟨hpast, rfl⟩
  have hnot : v = 1 -> ¬ (s.clients c).Adopted := by
    rintro rfl hadopted
    apply hadopted.left
    rw [htodo]
    exact List.mem_cons_self
  have hnew : v ≠ 1 -> Client.Adopted
      { s.clients c with phase := ClientPhase.connected v, todo := rest } := by
    intro hv
    exact Client.adopted_iff.mpr ⟨hfirst.left, decide_eq_true hv⟩
  have hkept : (s.clients c).Adopted -> Client.Adopted
      { s.clients c with phase := ClientPhase.connected v, todo := rest } :=
    fun hadopted => hnew (fun hv => hnot hv hadopted)
  refine h.clientStep _ _ rfl ⟨hok.isClient, Or.inr hfirst.left, ?_, ?_, hok.peers⟩ ?_
    (fun hadopted => ⟨hkept hadopted, rfl⟩)
  · intro hadopted
    by_cases hv : v = 1
    · subst hv
      exact absurd rfl hadopted.right.left
    · exact hok.adopted (hfirst.right hv)
  · intro w j heq
    cases heq
  · have hold := (h.connections c v).mono (fun hadopted => ⟨hkept hadopted, rfl⟩)
    exact ⟨fun hv _ => hnew hv, hold.clientID, hold.serverID, hold.clientMeta⟩

theorem Agrees.clientSend (h : Agrees config k s)
    (hphase : (s.clients c).phase = ClientPhase.connected v) :
    Agrees config k ((s.setClient c
      { s.clients c with phase := ClientPhase.sentID v }).setConnection c v
        { s.connections c v with clientID := some (s.clients c).socket.localID }) := by
  have hok := h.clients c
  have htodo : 1 ∉ (s.clients c).todo := by
    apply hok.one_not_mem_todo
    rw [hphase]
    intro heq
    cases heq
  have hiff : Client.Adopted { s.clients c with phase := ClientPhase.sentID v } <->
      (s.clients c).Adopted := by
    rw [Client.adopted_iff, Client.adopted_iff, hphase]
    rfl
  refine h.clientStep _ _ rfl ⟨hok.isClient, Or.inr htodo, ?_, ?_, hok.peers⟩ ?_
    (fun hadopted => ⟨hiff.mpr hadopted, rfl⟩)
  · intro hadopted
    exact hok.adopted (hiff.mp hadopted)
  · intro w j heq
    cases heq
  · have hold := (h.connections c v).mono (fun hadopted => ⟨hiff.mpr hadopted, rfl⟩)
    refine ⟨hold.opened, ?_, hold.serverID, hold.clientMeta⟩
    intro e he
    cases he
    rw [RdmaSocket.localID_client hok.isClient]
    exact ⟨rfl, fun hv => ⟨Client.adopted_iff.mpr ⟨htodo, decide_eq_true hv⟩, rfl⟩⟩

theorem Agrees.clientReceive (h : Agrees config k s) {remoteID : ExchangeID}
    {peerID : UInt16} {socket : RdmaSocket}
    (hphase : (s.clients c).phase = ClientPhase.sentID v)
    (hremote : (s.connections c v).serverID = some remoteID)
    (hreceive : (s.clients c).socket.receiveID v remoteID = (peerID, socket)) :
    Agrees config k ((s.setClient c
      { s.clients c with
        socket := socket
        phase := ClientPhase.sentMeta v (socket.queuePairs peerID) }).setConnection c v
          { s.connections c v with clientMeta := some (socket.queuePairs peerID) }) := by
  have hok := h.clients c
  have htodo : 1 ∉ (s.clients c).todo := by
    apply hok.one_not_mem_todo
    rw [hphase]
    intro heq
    cases heq
  -- Node 1 sends a number that is not zero, the others send zero.
  have hsocket : socket.isServer = false ∧ socket.peers = (s.clients c).socket.peers ∧
      s.given c = some socket.myNodeID ∧
      ((s.clients c).Adopted -> socket.myNodeID = (s.clients c).socket.myNodeID) := by
    by_cases hv : v = 1
    · subst hv
      have hgiven : s.given c = some remoteID.givenID := by
        unfold Network.given
        rw [hremote]
        rfl
      have hne : remoteID.givenID ≠ 0 := by
        intro hzero
        have hlow := (h.range c _ hgiven).left
        rw [hzero] at hlow
        exact Nat.not_lt_zero _ hlow
      rw [RdmaSocket.receiveID_client_given hok.isClient hne] at hreceive
      cases hreceive
      exact ⟨hok.isClient, rfl, hgiven, fun hadopted => absurd hphase hadopted.right.right⟩
    · have hzero := (h.connections c v).serverID remoteID hremote hv
      rw [RdmaSocket.receiveID_client_kept hok.isClient hzero] at hreceive
      cases hreceive
      have hadopted : (s.clients c).Adopted := by
        rw [Client.adopted_iff, hphase]
        exact ⟨htodo, decide_eq_true hv⟩
      exact ⟨hok.isClient, rfl, hok.adopted hadopted, fun _ => rfl⟩
  rcases hsocket with ⟨hclient, hpeers, hgiven, hkept⟩
  have hnew : Client.Adopted
      { s.clients c with
        socket := socket
        phase := ClientPhase.sentMeta v (socket.queuePairs peerID) } :=
    Client.adopted_iff.mpr ⟨htodo, rfl⟩
  refine h.clientStep _ _ rfl ⟨hclient, Or.inr htodo, fun _ => hgiven, ?_, ?_⟩ ?_
    (fun hadopted => ⟨hnew, hkept hadopted⟩)
  · intro w j heq
    cases heq
    exact RdmaSocket.queuePairs_client hclient peerID
  · intro w p hp
    have hp' : (s.clients c).socket.peers w = some p := hpeers ▸ hp
    exact hok.peers w p hp'
  · have hold := (h.connections c v).mono (fun hadopted => ⟨hnew, hkept hadopted⟩)
    exact ⟨hold.opened, hold.clientID, hold.serverID, fun _ _ => hnew⟩

theorem setConnection_self (s : Network) (c : Nat) (v : UInt16) :
    s.setConnection c v (s.connections c v) = s := by
  unfold Network.setConnection
  have hsame : (fun d w => if d = c ∧ w = v then s.connections c v else s.connections d w) =
      s.connections := by
    funext d w
    split
    · rename_i heq
      rw [heq.left, heq.right]
    · rfl
  rw [hsame]

theorem Agrees.clientFinish (h : Agrees config k s) {created : Nat}
    (hphase : (s.clients c).phase = ClientPhase.sentMeta v created) :
    Agrees config k (s.setClient c
      { s.clients c with
        socket := (s.clients c).socket.storePeer c v created
        phase := ClientPhase.idle }) := by
  have hok := h.clients c
  have hadopted : (s.clients c).Adopted := by
    rw [Client.adopted_iff, hphase]
    refine ⟨hok.one_not_mem_todo ?_, rfl⟩
    rw [hphase]
    intro heq
    cases heq
  have hnew : Client.Adopted
      { s.clients c with
        socket := (s.clients c).socket.storePeer c v created
        phase := ClientPhase.idle } :=
    Client.adopted_iff.mpr ⟨hadopted.left, rfl⟩
  have hstep := h.clientStep (c := c) (v := v)
    { s.clients c with
      socket := (s.clients c).socket.storePeer c v created
      phase := ClientPhase.idle } (s.connections c v) rfl
    ⟨hok.isClient, Or.inr hadopted.left, fun _ => hok.adopted hadopted, ?_, ?_⟩
    ((h.connections c v).mono (fun _ => ⟨hnew, rfl⟩)) (fun _ => ⟨hnew, rfl⟩)
  · rw [show s.connections c v = (s.setClient c { s.clients c with
      socket := (s.clients c).socket.storePeer c v created
      phase := ClientPhase.idle }).connections c v from rfl, setConnection_self] at hstep
    exact hstep
  · intro w j heq
    cases heq
  · intro w p hp
    have hp' : (if w = v then some (PeerSockData.mk c v created
        ((s.clients c).socket.queuePairs v)) else (s.clients c).socket.peers w) = some p := hp
    split at hp'
    · cases hp'
      exact ⟨hok.created v created hphase, RdmaSocket.queuePairs_client hok.isClient v⟩
    · exact hok.peers w p hp'

end ClientSteps

/-!
# Steps of a server
-/

section ServerSteps

variable {config : Config} {k k' : Nat} {s : Network} {c : Nat} {v : UInt16}

/-- A step that changes one server and what it writes to a client. -/
theorem Agrees.serverStep (h : Agrees config k s) {server : Server} {connection : Connection}
    {s' : Network} (hs' : s' = (s.setServer v server).setConnection c v connection)
    (hgiven : forall d g, s.given d = some g -> s'.given d = some g)
    (hserver : ServerOk config.serverCount s' v server)
    (hconnection : ConnectionOk (s.clients c) v connection)
    (hlow : config.serverCount < (s'.servers 1).socket.maxNodeID.toNat)
    (hhigh : (s'.servers 1).socket.maxNodeID.toNat + (s'.servers 1).phase.ahead ≤
      config.serverCount + 1 + k')
    (hrange : forall d g, s'.given d = some g -> config.serverCount < g.toNat ∧
      (g.toNat < (s'.servers 1).socket.maxNodeID.toNat ∨
        (g = (s'.servers 1).socket.maxNodeID ∧ (s'.servers 1).phase = ServerPhase.sentID d)))
    (hdistinct : forall d d' g, s'.given d = some g -> s'.given d' = some g -> d = d') :
    Agrees config k' s' := by
  have hclients : s'.clients = s.clients := by
    rw [hs']
    rfl
  refine ⟨?_, ?_, ?_, hlow, hhigh, hrange, hdistinct⟩
  · intro d
    rw [hclients]
    exact (h.clients d).mono (hgiven d)
  · intro d w
    rw [hclients, hs']
    show ConnectionOk _ w (if d = c ∧ w = v then connection else s.connections d w)
    split
    · rename_i heq
      rcases heq with ⟨rfl, rfl⟩
      exact hconnection
    · exact h.connections d w
  · intro w
    have hold : ServerOk config.serverCount s' w (s.servers w) := by
      refine (h.servers w).mono hgiven ?_
      intro d hd
      rw [hclients]
      exact hd
    by_cases hw : w = v
    · subst hw
      rw [show s'.servers w = server by rw [hs']; exact if_pos rfl]
      exact hserver
    · rw [show s'.servers w = s.servers w by rw [hs']; exact if_neg hw]
      exact hold

/-- A step of a server in which node 1 sends and counts nothing. -/
theorem Agrees.quietStep (h : Agrees config k s) {server : Server} (connection : Connection)
    (hgiven : forall d, (s.setConnection c v connection).given d = s.given d)
    (hserver : ServerOk config.serverCount s v server)
    (hconnection : ConnectionOk (s.clients c) v connection)
    (hone : v = 1 -> server.socket.maxNodeID = (s.servers 1).socket.maxNodeID ∧
      server.phase.ahead = 0 ∧ (s.servers 1).phase.ahead = 0) :
    Agrees config k ((s.setServer v server).setConnection c v connection) := by
  have hgiven : forall d, ((s.setServer v server).setConnection c v connection).given d =
      s.given d := hgiven
  have hserver' : ServerOk config.serverCount
      ((s.setServer v server).setConnection c v connection) v server :=
    hserver.mono (fun d g hg => (hgiven d).trans hg) (fun _ hd => hd)
  have hmax : (((s.setServer v server).setConnection c v connection).servers 1).socket.maxNodeID =
      (s.servers 1).socket.maxNodeID := by
    show (if 1 = v then server else s.servers 1).socket.maxNodeID = _
    split
    · rename_i heq
      exact (hone heq.symm).left
    · rfl
  have hahead : (((s.setServer v server).setConnection c v connection).servers 1).phase.ahead =
      (s.servers 1).phase.ahead := by
    show (if 1 = v then server else s.servers 1).phase.ahead = _
    split
    · rename_i heq
      rcases hone heq.symm with ⟨_, hnew, hold⟩
      rw [hnew, hold]
    · rfl
  refine h.serverStep rfl (fun d g hg => (hgiven d).trans hg) hserver' hconnection ?_ ?_ ?_ ?_
  · rw [hmax]
    exact h.low
  · rw [hmax, hahead]
    exact h.high
  · intro d g hg
    rw [hgiven] at hg
    rw [hmax]
    rcases h.range d g hg with ⟨hlow, hless | ⟨heq, hphase⟩⟩
    · exact ⟨hlow, Or.inl hless⟩
    · refine ⟨hlow, Or.inr ⟨heq, ?_⟩⟩
      show (if 1 = v then server else s.servers 1).phase = _
      split
      · rename_i hv
        have hzero := (hone hv.symm).right.right
        rw [hphase] at hzero
        cases hzero
      · exact hphase
  · intro d d' g hg hg'
    rw [hgiven] at hg hg'
    exact h.distinct d d' g hg hg'

theorem Agrees.serverFinish (h : Agrees config k s) {i : UInt16} {created other : Nat}
    (hphase : (s.servers v).phase = ServerPhase.sentMeta c i created)
    (hremote : (s.connections c v).clientMeta = some other) :
    Agrees config k (s.setServer v
      { socket := (s.servers v).socket.storePeer c i created
        phase := ServerPhase.listening }) := by
  have hok := h.servers v
  rcases hok.sentMeta c i created hphase with ⟨hgiven, hcreated⟩
  have hadopted := (h.connections c v).clientMeta other hremote
  have hserver : ServerOk config.serverCount s v
      { socket := (s.servers v).socket.storePeer c i created
        phase := ServerPhase.listening } := by
    refine ⟨hok.isServer, hok.myNodeID, hok.serverCount, ?_, ?_, ?_⟩
    · intro _ d heq
      cases heq
    · intro d j m heq
      cases heq
    · intro j p hp
      have hp' : (if j = i then some (PeerSockData.mk c i created
          ((s.servers v).socket.queuePairs i)) else (s.servers v).socket.peers j) =
            some p := hp
      split at hp'
      · rename_i heq
        cases hp'
        rw [heq]
        refine ⟨hgiven, hadopted, hcreated, ?_⟩
        apply RdmaSocket.queuePairs_server hok.isServer
        rw [hok.serverCount]
        exact (h.range c i hgiven).left
      · exact hok.peers j p hp'
  have hstep := h.quietStep (c := c) (s.connections c v)
    (given_eq_of_serverID s c v _ rfl) hserver (h.connections c v) ?_
  · rw [show s.connections c v = (s.setServer v
      { socket := (s.servers v).socket.storePeer c i created
        phase := ServerPhase.listening }).connections c v from rfl, setConnection_self] at hstep
    exact hstep
  · rintro rfl
    rw [hphase]
    exact ⟨rfl, rfl, rfl⟩

end ServerSteps

end Net
end SpongeBob
