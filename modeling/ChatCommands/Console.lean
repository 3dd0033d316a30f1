import ChatCommands.Chat
import ChatCommands.FilePath

/-!
# The console

A terminal is a chat network of one user, who writes to the bot alone: every line is a message.
What the bot sends is written as lines, marked where it is a file or meant for one user. The
console user may do everything and holds no role.

## Main definitions

* `Console`: the terminal
* `Console.send`, `Console.readAll`: what is written and what is read
* `consoleTransport`: the terminal as a network
-/

namespace ChatCommands

/-- The identifier of the bot on the console. -/
def consoleBot : Id := .text "chainbot"

/-- The identifier of the console's user, also that of its channel. -/
def consoleId : Id := .text "console"

/-- The console's user. -/
def consoleUser : User := { id := consoleId, name := "console" }

/-- Ends a text with a single line feed. -/
def asLine (s : String) : String :=
  String.ofList ((s.toList.reverse.dropWhile (· = '\n')).reverse ++ ['\n'])

/-- What names a file: a path, or whatever name an open file has. -/
inductive FileRef where
  | path (text : String)
  | opened (name : Option Setting)
  deriving DecidableEq, Repr, Inhabited

/-- The name that a file is shown by. -/
def FileRef.shown : FileRef → String
  | path s => (FilePath.ofText s).name
  | opened none => "file"
  | opened (some n) => n.shown

/-- A file from what was given for it: a text is its path, anything else has no name. -/
def FileRef.ofSetting : Setting → FileRef
  | .scalar (.text s) => path s
  | _ => opened none

/-- What can be sent to a console. -/
inductive ConsoleSending where
  | reply (channel : Id) (text : Setting)
  | file (channel : Id) (file : FileRef) (caption : Setting)
  | direct (user : Option User) (text : Setting)
  deriving DecidableEq, Repr, Inhabited

/-- The name by which a user is addressed. -/
def User.address (u : User) : String := if u.name.counts then u.name.shown else u.id.shown

namespace ConsoleSending

/-- The line that is written. A reply has to be a text, and a message to one user needs the user. -/
def line : ConsoleSending → Except Fault String
  | reply _ t =>
    match t.text? with
    | some s => .ok (asLine s)
    | none => .error (.lacks t "rstrip")
  | file _ f c =>
    .ok (asLine ("[file: " ++ f.shown ++ "]" ++ if c.counts then " " ++ c.shown else ""))
  | direct (some u) t => .ok (asLine ("[dm to " ++ u.address ++ "] " ++ t.shown))
  | direct none _ => .error (.lacks .null "name")

/-- The content of the message that is sent. -/
def content : ConsoleSending → Setting
  | reply _ t => t
  | file _ _ c => if c.counts then c else ""
  | direct _ t => t

/-- The channel of the message that is sent. -/
def channel : ConsoleSending → Id
  | reply c _ => c
  | file c _ _ => c
  | direct _ _ => consoleId

end ConsoleSending

/-- The lines of a text: a line feed ends a line, and what stands behind the last one is a line
too unless it is empty. -/
def linesFrom (line : List Char) : List Char → List (List Char)
  | [] => if line.isEmpty then [] else [line]
  | c :: s => if c = '\n' then line :: linesFrom [] s else linesFrom (line ++ [c]) s

/-- The lines of a text. -/
def linesOf (s : String) : List String := (linesFrom [] s.toList).map String.ofList

/-- The text with each of the ends of line in use as one line feed. -/
def unifyLineEnds : List Char → List Char
  | '\r' :: '\n' :: s => '\n' :: unifyLineEnds s
  | '\r' :: s => '\n' :: unifyLineEnds s
  | c :: s => c :: unifyLineEnds s
  | [] => []

/-- A terminal: the number of messages so far, the lines still to be read, and whether writing
fails. -/
structure Console where
  messages : Nat := 0
  input : List String := []
  broken : Bool := false
  deriving Repr, Inhabited

/-- The failure of a terminal that cannot be written to. -/
def writeFailed : Fault :=
  .failure (.of .transport "Console write failed" none .null [("error", "stdout closed")])

namespace Console

/-- Sends something: the number of the message and what is written. -/
def send (c : Console) (o : ConsoleSending) : Console × Except Fault (Nat × String) :=
  match o.line with
  | .error f => (c, .error f)
  | .ok line =>
    if c.broken then (c, .error writeFailed)
    else ({ c with messages := c.messages + 1 }, .ok (c.messages + 1, line))

/-- The message of a line. -/
def messageOf (number : Nat) (line : String) : Message where
  content := line
  author := some consoleUser
  channel := consoleId
  server := none
  id := .int number

/-- Reads all lines that are left. -/
def readAll (c : Console) : Console × List Message :=
  ({ c with messages := c.messages + c.input.length, input := [] },
    c.input.zipIdx.map fun (line, i) => messageOf (c.messages + i + 1) line)

end Console

/-- The terminal as a network: everyone may do everything, and everything is delivered. -/
def consoleTransport : Transport where
  selfId := consoleBot
  mayPerform _ _ _ := .ok true
  deliver _ := .ok ()

end ChatCommands
