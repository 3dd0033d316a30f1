import ChatCommands.Setting.Use

/-!
# The chat

The people, places and messages of a chat network, and what the bot needs of the network to work
in it. Users, roles, servers, channels and messages are known by identifiers of the network's own
choosing.

## Main definitions

* `User`, `Message`: authors and what they write
* `Outgoing`, `Sent`: what the bot sends, and the messages that come of it
* `Transport`: the network as the bot sees it
-/

namespace ChatCommands

/-- What the network names things by. -/
abbrev Id := Setting

/-- An author, with the roles held on the current server. -/
structure User where
  id : Id
  name : Setting := ""
  roles : List Id := []
  deriving DecidableEq, Repr, Inhabited

/-- A message that has come in. Without a server it was sent to the bot alone. -/
structure Message where
  content : Setting
  author : Option User
  channel : Id
  server : Option Id
  id : Id := .null
  deriving DecidableEq, Repr, Inhabited

/-- What the bot sends: replies to a channel, files with a caption or none, and messages to one
user. -/
inductive Outgoing where
  | reply (channel : Id) (text : Setting)
  | file (channel : Id) (file caption : Setting)
  | direct (user : Id) (text : Setting)
  deriving DecidableEq, Repr, Inhabited

/-- A message that the bot has sent: what it says and where it went. -/
structure Sent where
  content : Setting
  channel : Id
  server : Option Id
  deriving DecidableEq, Repr, Inhabited

/-- The channel of messages to one user. -/
def directChannel : Id := "dm"

/-- The message that comes of a sending on a server: a file without a caption has an empty text,
and what goes to one user goes to no server. -/
def Outgoing.sent (server : Option Id) : Outgoing → Sent
  | reply c t => ⟨t, c, server⟩
  | file c _ caption => ⟨if caption.counts then caption else "", c, server⟩
  | direct _ t => ⟨t, directChannel, none⟩

/-- The form of a sent message inside a text. -/
def Sent.shown (m : Sent) : String :=
  let server := match m.server with
    | none => "None"
    | some s => "Server(id=" ++ s.written ++ ", name='')"
  "Message(content=" ++ m.content.written ++ ", author=User(id='bot', name='', roles=[]), " ++
    "channel=Channel(id=" ++ m.channel.written ++ ", name='', server=" ++ server ++ "), id=None)"

/-- The network as the bot sees it. -/
structure Transport where
  /-- The identifier of the bot itself, or none if it is not known. -/
  selfId : Id
  /-- Whether a user may perform an action in a channel; the network may refuse to answer. -/
  mayPerform : User → Setting → Id → Except Fault Bool
  /-- Takes what the bot sends, or fails to deliver it. -/
  deliver : Outgoing → Except Fault Unit

namespace Transport

/-- The kind of sending, as failing transports list them. -/
def kindOf : Outgoing → String
  | .reply _ _ => "respond"
  | .file _ _ _ => "file"
  | .direct _ _ => "direct"

/-- A network with fixed answers: the actions it denies, those it refuses to answer about, and
the kinds of sending that fail. It is asked about an action by what the action is kept under. -/
def fixed (selfId : Id) (denied refusing failing : List Scalar) : Transport where
  selfId := selfId
  mayPerform _ action _ := do
    let k ← action.key
    if k ∈ refusing then throw (.failure (.of (.noPermission action) "Backend refused"))
    return k ∉ denied
  deliver o :=
    if Scalar.text (kindOf o) ∈ failing then
      .error (.failure (.of .transport (kindOf o ++ " failed")))
    else .ok ()

/-- What the items of a setting are kept under. -/
def keysOf (v : Setting) : Except Fault (List Scalar) := do (← v.items).mapM Setting.key

/-- A network with fixed answers from settings. -/
def ofSettings (selfId : Id) (denied refusing failing : Setting) : Except Fault Transport := do
  return fixed selfId (← keysOf denied) (← keysOf refusing) (← keysOf failing)

end Transport

end ChatCommands
