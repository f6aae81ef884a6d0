/-!
# The name and the version of the program
-/

namespace Parley

/-- The name of the program, as it is shown. -/
def programName : String := "nanoclaw"

/-- The version, as it is shown. -/
def version : String := "0.3.0"

end Parley
