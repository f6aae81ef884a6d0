import Parley.Text.Blank

/-!
# Who is talking, and the keys of their sessions

A conversation arrives over a channel, from one chat of that channel: that pair is an
`Identity`, written `channel:chat`.  Sessions are named by keys.  An identity *owns* the key that
is its own name, its default session, and every key that goes on from there with a colon; so a
key says whose session it is.
-/

namespace Parley

/-- The key of a session. -/
structure SessionKey where
  text : String
  deriving DecidableEq, Repr, Inhabited

/-- The channel and the chat that a conversation arrives from. -/
structure Identity where
  channel : String
  chat : String
  deriving DecidableEq, Repr, Inhabited

namespace Identity

/-- The written form, `channel:chat`. -/
def name (i : Identity) : String := i.channel ++ ":" ++ i.chat

/-- The session an identity falls back on while no other is switched in. -/
def defaultKey (i : Identity) : SessionKey := ⟨i.name⟩

/-- The key of the session that an identity calls by a bare name. -/
def keyNamed (i : Identity) (bare : String) : SessionKey := ⟨i.name ++ ":" ++ bare⟩

/-- Whether a key names a session of the identity. -/
def owns (i : Identity) (key : SessionKey) : Bool :=
  key.text == i.name || (key.text.afterLead? (i.name ++ ":")).isSome

/-- The identity a text names: what stands before the first colon and what stands after it, and
neither may be empty. -/
def ofText? (text : String) : Option Identity :=
  match text.splitAtFirst? ':' with
  | some (channel, chat) => if channel.isEmpty || chat.isEmpty then none else some ⟨channel, chat⟩
  | none => none

end Identity

end Parley
