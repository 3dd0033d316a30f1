import ChatCommands.Attributes
import ChatCommands.Log
import ChatCommands.Registry
import ChatCommands.Permission.Levels
import ChatCommands.Permission.Requirement

/-!
# The core of a bot

What all units of a bot share, and what one unit has to itself. The journal of the core tells in
order everything that happened, and for which unit: what was sent or could not be sent, what was
asked and logged, which programs began, and what became of queued lines.

## Main definitions

* `Event`: what a unit has to itself
* `Happening`, `Entry`: the journal
* `Core`: what the units share
* `Core.send`, `Core.replyAll`: sending
* `Event.drainInto`: queued lines go in front of an answer
-/

namespace ChatCommands

/-- What a unit has to itself: the message that it answers, the command that runs, a file and
lines to be sent with the answer. -/
structure Event where
  /-- The number of the unit; an event that is made by hand belongs to none. -/
  unit : Option Nat := none
  message : Message
  command : Option CommandInfo := none
  file : Option Setting := none
  queue : List String := []
  deriving DecidableEq, Repr, Inhabited

/-- What can happen. -/
inductive Happening where
  | sent (o : Outgoing)
  /-- A sending failed. -/
  | unsent (o : Outgoing)
  | asked (user : Id) (action : Setting)
  | logged (e : LogEvent)
  /-- The program of a command began. -/
  | began (name : Setting) (registration : Nat) (arguments : List Setting)
  | queued (line : String)
  /-- Queued lines went in front of an answer. -/
  | merged (lines : List String)
  /-- Queued lines were dropped. -/
  | dropped (lines : List String)
  deriving DecidableEq, Repr, Inhabited

/-- Something that happened, and the unit that it happened for. -/
structure Entry where
  unit : Option Nat
  what : Happening
  deriving DecidableEq, Repr, Inhabited

/-- What the units of a bot share. -/
structure Core where
  attributes : Attributes
  transport : Transport
  registry : Registry := {}
  levels : Levels := {}
  journal : List Entry := []

namespace Event

/-- The channel of the message. -/
def channel (e : Event) : Id := e.message.channel

/-- The identifier of the author, or none. -/
def authorId (e : Event) : Id := (e.message.author.map (·.id)).getD .null

/-- The queued text: every line ends with a line feed. -/
def queuedText (e : Event) : String := String.join (e.queue.map (· ++ "\n"))

/-- An answer with the queued lines in front of it, and the event without them. A message that was
sent already takes no lines and gives no text. -/
def drainInto (e : Event) : Value → Event × Option String
  | .sent _ => (e, none)
  | v => ({ e with queue := [] }, some (e.queuedText ++ v.shown))

end Event

namespace Core

/-- Adds to the journal. -/
def record (s : Core) (unit : Option Nat) (h : Happening) : Core :=
  { s with journal := s.journal ++ [⟨unit, h⟩] }

/-- Adds a report to the journal. -/
def log (s : Core) (unit : Option Nat) (e : LogEvent) : Core := s.record unit (.logged e)

/-- Adds reports to the journal. -/
def logAll (s : Core) (unit : Option Nat) (es : List LogEvent) : Core :=
  es.foldl (fun s e => s.log unit e) s

/-- Sends something for an event. -/
def send (s : Core) (e : Event) (o : Outgoing) : Core × Except Fault Sent :=
  match s.transport.deliver o with
  | .ok () => (s.record e.unit (.sent o), .ok (o.sent e.message.server))
  | .error f => (s.record e.unit (.unsent o), .error f)

/-- Sends texts to the channel of an event, one after another, until one fails. -/
def replyAll (s : Core) (e : Event) : List String → Core × Except Fault Unit
  | [] => (s, .ok ())
  | t :: ts =>
    match s.send e (.reply e.channel t) with
    | (s, .ok _) => s.replyAll e ts
    | (s, .error f) => (s, .error f)

/-- An answer with the queued lines in front of it. -/
def drainInto (s : Core) (e : Event) (v : Value) : Core × Event × Option String :=
  match e.drainInto v with
  | (e', none) => (s, e', none)
  | (e', some t) => (s.record e.unit (.merged e.queue), e', some t)

end Core

end ChatCommands
