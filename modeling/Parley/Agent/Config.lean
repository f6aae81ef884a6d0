import Parley.Model.Service
import Parley.Tool.Standard
import Parley.Workspace

/-!
# What a run is set up with

A run needs the model and its limits, which come from the settings, and the tools.  Both are fixed
before the first run; so are the instructions to the model, which are those of the settings
followed by what the tools say about their use.
-/

namespace Parley.Agent

/-- The model and the limits. -/
structure Config where
  model : String := "claude-sonnet-4-20250514"
  maxIterations : Nat := 20
  timeoutMs : Nat := 300000
  contextTokens : Nat := 64000
  maxTokens : Nat := 8192
  maxToolResultChars : Nat := 16000
  systemPrompt : Option String := none

/-- The limits of the settings, none of them zero, and the given instructions. -/
def Config.ofSettings (s : Settings) (systemPrompt : Option String) : Config :=
  { model := s.agent.model
    maxIterations := max 1 s.agent.maxIterations
    timeoutMs := max 1 s.agent.timeoutSecs * 1000
    contextTokens := s.agent.contextTokens
    maxTokens := s.agent.maxTokens
    maxToolResultChars := s.agent.maxToolResultChars
    systemPrompt }

/-- All that stays the same from run to run. -/
structure Setup where
  config : Config := {}
  tools : Registry := {}
  /-- The name under which the model's errors are reported. -/
  provider : String := "scripted"

/-- The setup that the settings and the files of the workspace make. -/
def Setup.ofSettings (s : Settings) (files : List (String × String)) : Setup :=
  { config := .ofSettings s (Workspace.instructions s files), tools := .standard
    provider := Model.Service.name }

/-- The instructions to the model. -/
def Setup.instructions (s : Setup) : Option String :=
  let prompts := s.tools.prompts.nonempty?.toList
  let parts := s.config.systemPrompt.toList ++ prompts
  if parts.isEmpty then none else some ("\n\n".intercalate parts)

end Parley.Agent
