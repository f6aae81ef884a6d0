import Parley.Tool.Registry
import Parley.Tool.Send
import Parley.Tool.Sessions

/-!
# The tools that are always there
-/

namespace Parley

/-- The tools that every agent has. -/
def Registry.standard : Registry := ⟨[Tool.Send.tool, Tool.Sessions.tool]⟩

end Parley
