import Parley.Gateway.Rpc

/-!
# What the gateway answers over HTTP

Beside the socket there is a probe.  A request for the socket that does not ask to be upgraded is
a bad request.
-/

namespace Parley.Gateway

/-- An answer: a status and a body. -/
structure Response where
  status : Nat
  body : Option Json := none

open Json in
/-- The answer to a request for a path, at a time after the start. -/
def respond (setup : Agent.Setup) (sessions uptimeSecs : Nat) (path : String) : Response :=
  match path with
  | "/health" =>
    ⟨200, some (object (Rpc.healthFields setup sessions ++
      [("uptime_secs", ofNat uptimeSecs)]))⟩
  | "/ws" => ⟨400, none⟩
  | _ => ⟨404, none⟩

end Parley.Gateway
