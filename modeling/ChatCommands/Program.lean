import ChatCommands.Chat

/-!
# Programs

What runs for a command is a program: a tree of requests to the bot, each with a continuation for
every reply. Requests are served at once, except that calling a command runs a program of its own
and waiting at a gate may suspend the unit. A program ends with a value or with a fault; the
replies to sendings and to calls may be faults, which a program may catch.

## Main definitions

* `Value`: what a command answers with
* `CommandInfo`: what is known of a command apart from its program
* `Action`, `Action.Reply`: the requests that are served at once, and their replies
* `Program`: the trees, a monad whose faults end the program
* `Handler`: the program of a command, by message and arguments

## Main results

* `Program.pure_bind`, `Program.bind_pure`, `Program.bind_assoc`: the monad laws
-/

namespace ChatCommands

/-- What a command answers with: a plain value, or a message that it has sent already. -/
inductive Value where
  | plain (v : Setting)
  | sent (m : Sent)
  deriving DecidableEq, Repr, Inhabited

namespace Value

/-- No value. -/
abbrev null : Value := .plain .null

/-- A text. -/
abbrev text (s : String) : Value := .plain (.text s)

/-- A text, or no value. -/
def ofText? (s : Option String) : Value := .plain (.ofText? s)

/-- The value as the text of a line. -/
def line : Value → String
  | plain v => v.shown
  | sent m => m.shown

/-- The value as a piece of a text: no value leaves nothing. -/
def piece : Value → String
  | plain (.scalar .null) => ""
  | v => v.line

/-- The displayed form: no value and a message that was sent show nothing. -/
def shown : Value → String
  | sent _ => ""
  | v => v.piece

/-- The value as a setting; a message stands for its content. -/
def toSetting : Value → Setting
  | plain v => v
  | sent m => m.content

end Value

/-- The reply to authors who may not use a command, with a mark for its name. -/
def defaultDenial : String := "You don't have permission to execute command `%name%`!"

/-- What is known of a command apart from its program. All of it is kept as it was given; what is
wrong with any of it shows when it is used. -/
structure CommandInfo where
  name : Setting
  aliases : List Setting := []
  description : Setting := .null
  usage : Setting := .null
  parameters : Setting := .null
  /-- The level that authors have to reach. -/
  permissionLevel : Setting := .int 0
  /-- The reply to authors who may not use the command, with a mark for its name. -/
  permissionMessage : Setting := defaultDenial
  requiredPermissions : List Setting := []
  requiredRoles : List Id := []
  /-- The command may run as part of a chain. -/
  chainUsable : Setting := .bool true
  /-- The help command lists the command. -/
  helpAvailable : Setting := .bool true
  minArgs : Setting := .int 0
  /-- The most arguments; a negative number sets no bound. -/
  maxArgs : Setting := .int (-1)
  deriving DecidableEq, Repr, Inhabited

/-- All names of a command. -/
def CommandInfo.names (c : CommandInfo) : List Setting := c.name :: c.aliases

/-- How a command is used, if it tells. -/
def CommandInfo.usageLine (c : CommandInfo) : List String :=
  if c.usage.counts then ["Usage: `" ++ c.usage.shown ++ "`"] else []

/-- The requests that are served at once. -/
inductive Action where
  /-- Sends a text to the channel of the message. -/
  | reply (text : Setting)
  /-- Sends a text to the author. -/
  | direct (text : Setting)
  /-- Sends a file to the channel. -/
  | file (name caption : Setting)
  /-- Queues a line for the next answer. -/
  | append (line : String)
  /-- Attaches a file to the final answer. -/
  | attach (file : Setting)
  | detach
  /-- Drops the queued lines. -/
  | drain
  | setUser (id : Id) (level : Setting)
  | setRole (id : Id) (level : Setting)
  /-- Takes a name from its command. -/
  | unregister (name : Setting)
  /-- The queued text. -/
  | queued
  /-- The name of the command that runs. -/
  | current
  /-- The command of a name. -/
  | lookUp (name : Setting)
  /-- All commands. -/
  | listing
  deriving DecidableEq, Repr, Inhabited

/-- The reply to a request. -/
abbrev Action.Reply : Action → Type
  | reply _ | direct _ | file _ _ => Except Fault Sent
  | append _ | attach _ | detach | drain => Unit
  | setUser _ _ | setRole _ _ | unregister _ => Except Fault Unit
  | current => Option Setting
  | queued => String
  | lookUp _ => Except Fault (Option CommandInfo)
  | listing => List CommandInfo

/-- A tree of requests. -/
inductive Program (α : Type) where
  /-- Ends with a value or a fault. -/
  | done (result : Except Fault α)
  /-- Makes a request. -/
  | act (action : Action) (next : action.Reply → Program α)
  /-- Calls a command, as part of a chain or not, for the text that it answers with. -/
  | call (name : Setting) (arguments : List Setting) (chained : Bool)
      (next : Except Fault (Option String) → Program α)
  /-- Waits until a gate is open. -/
  | wait (gate : Setting) (next : Program α)

namespace Program

variable {α β γ : Type}

/-- Runs a program with the value of another; a fault ends both. -/
protected def bind (p : Program α) (f : α → Program β) : Program β :=
  match p with
  | done (.ok a) => f a
  | done (.error e) => done (.error e)
  | act a next => act a fun r => (next r).bind f
  | call name arguments chained next => call name arguments chained fun r => (next r).bind f
  | wait gate next => wait gate (next.bind f)

instance : Monad Program where
  pure a := done (.ok a)
  bind := Program.bind

/-- Ends with a fault. -/
def fail (f : Fault) : Program α := done (.error f)

/-- Sends a text to the channel. -/
def reply (text : Setting) : Program Sent := act (.reply text) done

/-- Sends a text to the author. -/
def direct (text : Setting) : Program Sent := act (.direct text) done

/-- Sends a file to the channel. -/
def file (name caption : Setting) : Program Sent := act (.file name caption) done

/-- The queued text. -/
def queued : Program String := act .queued pure

/-- The name of the command that runs. -/
def current : Program (Option Setting) := act .current pure

/-- The command of a name. -/
def lookUp (name : Setting) : Program (Option CommandInfo) := act (.lookUp name) done

/-- All commands. -/
def listing : Program (List CommandInfo) := act .listing pure

/-- Calls a command. -/
def callCommand (name : Setting) (arguments : List Setting) (chained : Bool) :
    Program (Option String) :=
  call name arguments chained done

/-- Waits until a gate is open. -/
def waitAt (gate : Setting) : Program Unit := wait gate (pure ())

@[simp] theorem pure_bind (a : α) (f : α → Program β) : (pure a : Program α) >>= f = f a := rfl

@[simp] theorem bind_pure (p : Program α) : p >>= pure = p := by
  show p.bind pure = p
  induction p with
  | done r => cases r <;> rfl
  | act a next ih => simp only [Program.bind]; congr 1; funext r; exact ih r
  | call n as ch next ih => simp only [Program.bind]; congr 1; funext r; exact ih r
  | wait g next ih => simp only [Program.bind]; rw [ih]

theorem bind_assoc (p : Program α) (f : α → Program β) (g : β → Program γ) :
    p >>= f >>= g = p >>= fun a => f a >>= g := by
  show (p.bind f).bind g = p.bind fun a => (f a).bind g
  induction p with
  | done r => cases r <;> rfl
  | act a next ih => simp only [Program.bind]; congr 1; funext r; exact ih r
  | call n as ch next ih => simp only [Program.bind]; congr 1; funext r; exact ih r
  | wait h next ih => simp only [Program.bind]; rw [ih]

end Program

/-- The program of a command, by the message and the arguments. -/
abbrev Handler := Message → List Setting → Program Value

/-- How a program runs: as part of its unit, on a thread of its own, or as part of its unit once a
thread has handed it over. -/
inductive Manner where
  | inline
  | thread
  | deferred
  deriving DecidableEq, Repr, Inhabited

end ChatCommands
