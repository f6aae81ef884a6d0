import Parley.Message

/-!
# What the terminal shows

A tool call is shown indented, on its line; a message with its title as a heading and a line for
every medium.
-/

namespace Parley.Terminal

/-- An item as text. -/
def render : Outbound → String
  | .call n => "  " ++ n.summary
  | .message m =>
    m.media.foldl (fun text path => text ++ "\n  [media: " ++ path ++ "]")
      ((m.title.elim "" fun title => "## " ++ title ++ "\n") ++ m.text)

end Parley.Terminal
