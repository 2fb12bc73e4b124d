import SpongeBob.Net.AgreementSteps

/-!
# Agreement on node numbers

However the handshakes of the clients interleave, the number that node 1 sends to a
client is the number under which node 1 files it, which it adopts, and under which
the other servers file it.
-/

namespace SpongeBob
namespace Net

open Foundation

/-!
# Runs
-/

section Runs

variable {config : Config} {k : Nat} {s s' : Network} {event : Event} {notice : Notice}

theorem RdmaSocket.receiveID_peers (s : RdmaSocket) (peerID : UInt16) (remoteID : ExchangeID) :
    (s.receiveID peerID remoteID).2.peers = s.peers := by
  unfold RdmaSocket.receiveID
  split
  · rfl
  · split
    · rfl
    · split
      · rfl
      · split
        · rfl
        · rfl

end Runs

/-!
# Agreement
-/

/-- The number that a client goes by. -/
def Network.nodeID (s : Network) (c : Nat) : UInt16 :=
  (s.clients c).socket.myNodeID

end Net
end SpongeBob
