import ChatCommands.Program
import ChatCommands.Setting.Use

/-!
# The help command

Help describes one command or lists all that want to be listed. A short list tells what the
commands do, a longer one their names, and a long one goes to the author alone.

## Main definitions

* `describeCommand`, `listCommands`: the texts
* `helpInfo`, `helpHandler`: the command
-/

namespace ChatCommands

/-- What a command without a description shows. -/
def noDescription : String := "*No description available*"

/-- Up to this many commands are listed with their descriptions. -/
def detailedLimit : Nat := 5

/-- More commands than this are listed to the author alone. -/
def inlineLimit : Nat := 50

/-- What a command says of itself in one line. -/
def CommandInfo.summary (c : CommandInfo) : String :=
  if c.description.counts then c.description.shown else noDescription

/-- One command: what it does, how it is used and what it accepts. -/
def describeCommand (name : Setting) (c : CommandInfo) : Except Fault String := do
  let head := "**`" ++ name.shown ++ "`**: " ++ c.summary
  let parameters ← if c.parameters.counts then
      (fun ps => "Accepted Parameters:" :: ps.map fun p => "    `" ++ p.shown ++ "`") <$>
        c.parameters.items
    else pure []
  return "\n".intercalate (head :: c.usageLine ++ parameters)

/-- A list of commands. -/
def listCommands (cs : List CommandInfo) : String :=
  let header := "**List of commands:**\n"
  if cs.length ≤ detailedLimit then
    header ++ String.join (cs.map fun c =>
      "**`" ++ c.name.shown ++ "`**: " ++ c.summary ++ "\n")
  else header ++ ", ".intercalate (cs.map fun c => "`" ++ c.name.shown ++ "`")

/-- The list of all commands that want to be listed. -/
def listAll : Program Value := do
  let available := (← Program.listing).filter (·.helpAvailable.counts)
  if inlineLimit < available.length then
    let _ ← Program.direct (.text (listCommands available))
    return .text "Sending list in PM!"
  else return .text (listCommands available)

/-- The description of the command of a name. -/
def describeNamed (name : Setting) : Program Value := do
  match ← Program.lookUp name with
  | none => return .text ("The command `" ++ name.shown ++ "` does not exist!")
  | some c => return .text (← Program.done (describeCommand name c))

/-- The program of the help command. -/
def helpHandler : Handler := fun _ arguments =>
  match arguments with
  | [] => listAll
  | name :: _ => if name.counts then describeNamed name else listAll

/-- The help command under its names. -/
def helpInfo (name : String) (aliases : List String) : CommandInfo where
  name := name
  aliases := aliases.map .text
  description :=
    "Shows a list of all the commands available or displays help for a specific command."
  usage := "help [command name]"
  maxArgs := .int 1

end ChatCommands
