import Parley.Settings

/-!
# Workspace files

The user describes the agent in a few files of the workspace.  Those with something in them
become a section of the instructions to the model, after what the settings say.
-/

namespace Parley.Workspace

/-- The files that are looked for, in order. -/
def fileNames : List String := ["AGENTS.md", "SOUL.md", "USER.md", "TOOLS.md"]

/-- The files that are there and hold something. -/
def load (read : String → Option String) : List (String × String) :=
  (fileNames.filterMap fun name => (read name).map fun text => (name, text)).filter
    fun f => !f.2.isAllBlank

/-- The files as a section of the instructions. -/
def section? (files : List (String × String)) : Option String :=
  if files.isEmpty then none
  else
    some (files.foldl
      (fun text f => text ++ "## " ++ f.1 ++ "\n\n" ++ f.2.trimBlank ++ "\n\n")
      "# Workspace Context\n\n")

/-- The instructions: those of the settings, and the section of the files. -/
def instructions (s : Settings) (files : List (String × String)) : Option String :=
  let parts := (s.agent.systemPrompt.filter (!·.isAllBlank)).toList ++ (section? files).toList
  if parts.isEmpty then none else some ("\n\n".intercalate parts)

end Parley.Workspace
