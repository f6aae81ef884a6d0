import Parley.Model.Script
import Parley.Model.Service

/-!
# Who answers

The agent asks one provider throughout: the service, over a network that does with each request
what it will, or a script.  `Provider.ask` is the only way in, so it is what "the model was
asked" means everywhere else.
-/

namespace Parley.Model

/-- Who answers. -/
inductive Provider where
  | script (script : Script)
  /-- The service, the requests so far, and what the network will do with the next ones; it is
  out of reach after that. -/
  | service (service : Service) (requests : List Request) (exchanges : List Exchange)

namespace Provider

/-- The name under which errors are reported. -/
def name : Provider → String
  | script _ => "scripted"
  | service .. => Service.name

/-- What a network does that is not there. -/
def noNetwork : Exchange :=
  .unreachable "error trying to connect: tcp connect error: Network is unreachable (os error 101)"

/-- The requests so far. -/
def requests : Provider → List Request
  | script s => s.requests
  | service _ requests _ => requests

/-- Ask for an answer. -/
def ask (p : Provider) (request : Request) : Except Failure Stream × Provider :=
  match p with
  | script s =>
    let (answer, s) := s.ask request
    (answer, script s)
  | service s requests exchanges =>
    (s.answer (exchanges.headD noNetwork), service s (requests ++ [request]) exchanges.tail)

end Provider

end Parley.Model
