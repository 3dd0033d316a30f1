import ChatCommands.Command.Options
import ChatCommands.Dispatch.Run
import ChatCommands.Help
import ChatCommands.Scheduler
import ChatCommands.Trigger

/-!
# The bot

A bot listens to the messages of a chat network. A message that triggers it becomes a unit, which
reads the chain, runs its commands and sends the final answer. Units run side by side and share
the core of the bot; what one of them fails by does not reach the others.

## Main definitions

* `Job`, `botHost`: the work of a unit, and its turns
* `Bot`, `Bot.build`, `Bot.ofOptions`: a bot, and how it is built
* `Bot.receive`: a message comes in
* `Bot.register`, `Bot.remove`, `Bot.setUser`, `Bot.setRole`: administration
* `Bot.settle`, `Bot.stop`: the work of the units
* `Bot.execute`, `Bot.call`, `Bot.runChain`, `Bot.runSimple`: commands for an event made by hand
-/

namespace ChatCommands

/-- What is still to be done of a unit: a chain text that has not been looked at, a run, or a run
that went on when its unit was cancelled. -/
inductive Job where
  | chain (text : String) (event : Event)
  | run (r : Run)
  | stray (r : Run)

namespace Core

/-- The end of a chain that was cut short. Chains that nest too deep are told apart. -/
def concludeFault (s : Core) (e : Event) (f : Fault) : Core × Turn Job :=
  match f with
  | .failure ⟨.chainDepth limit, _, _, _, _⟩ =>
    (s.log e.unit (.chainTooDeep limit e.authorId), .ended .finished)
  | f => (s, .ended (.failed f))

/-- The end of a unit: the final answer, unless a fault came before it. -/
def conclude (s : Core) (e : Event) : Except Fault Value → Core × Turn Job
  | .error f => s.concludeFault e f
  | .ok v =>
    match s.deliver e v with
    | (s, _, .ok ()) => (s, .ended .finished)
    | (s, _, .error f) => (s, .ended (.failed f))

/-- A turn of a run. -/
def resumeRun (opened : Setting → Bool) (s : Core) (r : Run) : Core × Turn Job :=
  match r.advance opened turnLength s with
  | (s, .on r) => (s, .yielded (.run r))
  | (s, .blocked g r) => (s, .blocked g (.run r))
  | (s, .yielded r) => (s, .yielded (.run r))
  | (s, .ended e v) => s.conclude e v

/-- A turn of a run that nobody waits for. -/
def resumeStray (opened : Setting → Bool) (s : Core) (r : Run) : Core × Turn Job :=
  match r.advance opened turnLength s with
  | (s, .on r) => (s, .yielded (.stray r))
  | (s, .blocked g r) => (s, .blocked g (.stray r))
  | (s, .yielded r) => (s, .yielded (.stray r))
  | (s, .ended _ _) => (s, .ended .finished)

/-- A turn of a unit. -/
def resumeJob (opened : Setting → Bool) (s : Core) : Job → Core × Turn Job
  | .chain text e =>
    let s := s.log e.unit (.chainParsing text)
    let (s, p) := s.programOf e text
    s.resumeRun opened ⟨e, p, .inline, []⟩
  | .run r => s.resumeRun opened r
  | .stray r => s.resumeStray opened r

end Core

/-- The host of the units of a bot. -/
def botHost : Host Core Job where
  resume := Core.resumeJob
  interrupt _ s _ := (s, .ended .cancelled)
  behind
    | .run r => r.behind.map .stray
    | _ => none
  unbegun _ := none
  report s unit e := s.log unit e

/-- A bot: its prefix, its core, its units, and how much time they have when it stops. -/
structure Bot where
  trigger : Prefix
  core : Core
  units : Scheduler Job := {}
  timeout : Setting := .null

namespace Bot

/-- Registers a command; what kept some of its names from being bound, if anything did. -/
def registerInfo (b : Bot) (info : CommandInfo) (manner : Manner) (handler : Handler) :
    Bot × Option Fault :=
  let names := b.core.registry.rebinding info manner handler
  let core := b.core.logAll none (names.conflicts.map .commandConflict)
  let core := { core with registry := b.core.registry.register info manner handler }
  match names.fault with
  | none => ({ b with core := core.log none (.commandRegistered info.name info.aliases) }, none)
  | some f => ({ b with core := core }, some f)

/-- A bot with its help command. -/
def build (transport : Transport) (trigger : Prefix) (attributes : Attributes)
    (timeout : Setting) : Bot :=
  let b : Bot :=
    { trigger := trigger, core := { attributes := attributes, transport := transport },
      timeout := timeout }
  match attributes.helpNames.toList with
  | [] => b
  | name :: aliases => (b.registerInfo (helpInfo name aliases) .inline helpHandler).1

/-- What options have no name for, since it is given apart from them. -/
def reserved : List String := ["self", "transport", "prefix", "shutdown_timeout"]

/-- The name of the option that stands for attributes. -/
def attributesName : String := "attributes"

/-- An option that is given twice. -/
def givenTwice (name : String) : Fault :=
  .wrongType ("got multiple values for argument '" ++ name ++ "'")

/-- The attributes from what is given for them. What counts and is none has none of their parts;
all else asks for the options. -/
def attributesOr (given : Setting) (options : Fields) : Except Fault Attributes :=
  if given.counts then .error (.lacks given "help_command_names") else Attributes.ofOptions options

/-- A bot from attributes or from options for them, not both. Among the options there may be a value
in place of the attributes. -/
def ofOptions (transport : Transport) (trigger : Except Fault Prefix)
    (attributes : Option Attributes) (options : Fields) (timeout : Setting) :
    Except Fault Bot := do
  if let some o := options.find? fun o => o.1 ∈ reserved then throw (givenTwice o.1)
  let given := options.lookup attributesName
  if attributes.isSome && given.isSome then throw (givenTwice attributesName)
  let options := options.filter fun o => o.1 ≠ attributesName
  let value := given.getD .null
  if (attributes.isSome || !value.isNull) && !options.isEmpty then throw .attributesTwice
  let p ← trigger
  let a ← match attributes with
    | some a => pure a
    | none => attributesOr value options
  return build transport p a timeout

/-- Registers a command that names and options describe. -/
def register (b : Bot) (names : Setting) (options : Fields) (manner : Manner) (handler : Handler) :
    Bot × Except Fault CommandInfo :=
  match CommandInfo.ofOptions names options with
  | .error f => (b, .error f)
  | .ok info =>
    match b.registerInfo info manner handler with
    | (b, none) => (b, .ok info)
    | (b, some f) => (b, .error f)

/-- Takes a name from its command; the command. -/
def remove (b : Bot) (name : Setting) : Bot × Except Fault (Option Command) :=
  match b.core.registry.remove name with
  | .ok (registry, c) => ({ b with core := { b.core with registry := registry } }, .ok c)
  | .error f => (b, .error f)

/-- The bot with other levels, after a report. -/
def withLevels (b : Bot) (levels : Except Fault Levels) (report : LogEvent) :
    Bot × Except Fault Unit :=
  match levels with
  | .ok l => ({ b with core := { b.core.log none report with levels := l } }, .ok ())
  | .error f => (b, .error f)

/-- Sets the level of a user. -/
def setUser (b : Bot) (id : Id) (level : Setting) : Bot × Except Fault Unit :=
  b.withLevels (b.core.levels.setUser id level) (.userLevelSet id level)

/-- Sets the level of a role. -/
def setRole (b : Bot) (id : Id) (level : Setting) : Bot × Except Fault Unit :=
  b.withLevels (b.core.levels.setRole id level) (.roleLevelSet id level)

/-- The chain text of a message that would trigger the bot. -/
def chainText (b : Bot) (content : Setting) : Bot × Except Fault (Option String) :=
  match ChatCommands.trigger b.trigger b.core.attributes content with
  | .ok t => ({ b with core := b.core.logAll none t.events }, .ok t.chain)
  | .error f => (b, .error f)

/-- Whether a user is the bot itself. -/
def isSelf (b : Bot) (u : User) : Bool :=
  let self := b.core.transport.selfId
  !self.isNull && u.id.same self

/-- A unit for a chain text. -/
def spawn (b : Bot) (m : Message) (u : User) (chain : String) : Bot × String :=
  let core := b.core.log none (.chainTriggered u.id m.channel chain.length)
  let event : Event := { unit := some b.units.units.length, message := m }
  let (core, units, name) := b.units.spawn botHost core (.chain chain event) .null
  ({ b with core := core, units := units }, name)

/-- A message comes in; the name of its unit if it triggers the bot. -/
def receive (b : Bot) (m : Message) : Bot × Except Fault (Option String) :=
  match m.author with
  | none => ({ b with core := b.core.log none (.messageWithoutAuthor m.id m.channel) }, .ok none)
  | some u =>
    if b.isSelf u && !b.core.attributes.parseSelf then (b, .ok none)
    else
      match b.chainText m.content with
      | (b, .ok (some chain)) =>
        let (b, name) := b.spawn m u chain
        (b, .ok (some name))
      | r => r

/-- Lets the units run on as far as they can. -/
def settle (b : Bot) : Bot :=
  let (core, units) := b.units.settle botHost turnLimit b.core
  { b with core := core, units := units.untrack }

/-- Opens a gate, which has to be something that can be kept apart from others. -/
def release (b : Bot) (gate : Setting) : Bot × Except Fault Unit :=
  match gate.key with
  | .ok _ => ({ b with units := b.units.release gate }, .ok ())
  | .error f => (b, .error f)

/-- Asks for the cancellation of a unit; whether it had not ended. -/
def cancel (b : Bot) (i : Nat) : Bot × Bool :=
  let (units, r) := b.units.cancel i
  ({ b with units := units }, r)

/-- Stops: units run on as far as they can, and if their time is limited the others are
cancelled. -/
def stop (b : Bot) : Bot × Except Fault Unit :=
  match b.units.drain botHost turnLimit b.core b.timeout with
  | (core, units, .ok n) =>
    ({ b with core := core.log none (.botStopped n), units := units }, .ok ())
  | (core, units, .error f) => ({ b with core := core, units := units }, .error f)

/-- Lets a run for an event that was made by hand go on until it ends. Where it lets others go
first, the units run on as far as they can. -/
def finish : Nat → Bot → Run → Bot × Option (Event × Except Fault Value)
  | 0, b, _ => (b, none)
  | n + 1, b, r =>
    match r.advance b.units.isOpen turnLength b.core with
    | (core, .ended e v) => ({ b with core := core }, some (e, v))
    | (core, .yielded r) => finish n { b with core := core }.settle r
    | (core, _) => ({ b with core := core }, none)

/-- Lets a run for an event that was made by hand go on, for what it comes to. -/
def runToEnd (b : Bot) (r : Run) : Bot × Event × Except Fault Value :=
  match finish turnLimit b r with
  | (b, some (e, v)) => (b, e, v)
  | (b, none) => (b, r.event, .ok .null)

/-- Runs a program for an event that was made by hand. -/
def runProgram (b : Bot) (e : Event) (p : Program Value) : Bot × Event × Except Fault Value :=
  b.runToEnd { event := e, program := p }

/-- Whether a call is part of a chain, from what was said of it: nothing, or one value. -/
def chainedOf (said : Setting) : Except Fault Bool := do
  match ← said.items with
  | [] => return false
  | [v] => return v.counts
  | _ => throw (.wrongType "too many positional arguments")

/-- Calls a command by name, through the gate. -/
def execute (b : Bot) (e : Event) (name arguments chained : Setting) :
    Bot × Event × Except Fault Value :=
  match chainedOf chained, arguments.items with
  | .error f, _ => (b, e, .error f)
  | _, .error f => (b, e, .error f)
  | .ok chained, .ok arguments =>
    b.runProgram e (do return Value.ofText? (← Program.callCommand name arguments chained))

/-- Calls a command that is known already, whatever its author may do. The answer takes the queued
lines. -/
def callFound (b : Bot) (e : Event) (name : Setting) (c : Command) (arguments : List Setting)
    (chained : Bool) : Bot × Event × Except Fault Value :=
  match b.core.accept e name c arguments chained with
  | (core, .failed f) => ({ b with core := core }, e, .error f)
  | (core, .answered _) => ({ b with core := core }, e, .ok .null)
  | (core, .enter c) =>
    let b := { b with core := core }
    let b := if c.manner = .inline then b else b.settle
    match b.runProgram e (c.handler e.message arguments) with
    | (b, e, .ok v) =>
      let (core, e, text) := b.core.drainInto e v
      ({ b with core := core }, e, .ok (.ofText? text))
    | r => r

/-- Calls a command by name, whatever its author may do. -/
def call (b : Bot) (e : Event) (name arguments chained : Setting) :
    Bot × Event × Except Fault Value :=
  match b.core.registry.get name with
  | .error f => (b, e, .error f)
  | .ok none => (b, e, .error (.lacks .null "call"))
  | .ok (some c) =>
    match chainedOf chained, arguments.items with
    | .error f, _ => (b, e, .error f)
    | _, .error f => (b, e, .error f)
    | .ok chained, .ok arguments => b.callFound e name c arguments chained

/-- Runs what is given for a chain text. -/
def runChain (b : Bot) (e : Event) (text : Setting) : Bot × Event × Except Fault Value :=
  let (core, p) := b.core.programOfGiven e text
  { b with core := core }.runProgram e p

/-- Runs the words of a text as one command. -/
def runSimple (b : Bot) (e : Event) (text : Setting) : Bot × Event × Except Fault Value :=
  match text.text? with
  | some text => b.runProgram e (do return Value.ofText? (← simpleProgram (parseSimple text)))
  | none => (b, e, .error (.lacks text "split"))

/-- Sends a final answer for an event. -/
def deliver (b : Bot) (e : Event) (v : Value) : Bot × Event × Except Fault Value :=
  let (core, e, r) := b.core.deliver e v
  ({ b with core := core }, e, r.map fun _ => .null)

end Bot

end ChatCommands
