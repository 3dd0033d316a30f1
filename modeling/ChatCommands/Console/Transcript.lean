import ChatCommands.Config
import ChatCommands.Console
import ChatCommands.Log.Setup

/-!
# The console program

The program sets up its logs, builds a bot from the configuration, adds a command that repeats its
arguments, and answers what is typed, line by line. At the end of the input, or when it is told to
stop, it waits for what it is working on.

## Main definitions

* `echoInfo`, `echoHandler`: the command that repeats its arguments
* `consoleProgram`: the bot that the program runs
* `Bot.settleWithin`, `answerLine`: one line, and what is written for it
* `transcript`: what is written for all lines
-/

namespace ChatCommands

/-- The command that repeats its arguments. -/
def echoInfo : CommandInfo where
  name := "echo"
  description := "Repeats its arguments."
  usage := "echo <text...>"

/-- Repeats the arguments, with a space between them. -/
def echoHandler : Handler := fun _ arguments =>
  pure (.text (" ".intercalate (arguments.filterMap Setting.text?)))

/-- The bot that the program runs, unless its settings are bad. Logs are set up twice, and what the
first time writes is there the second time. -/
def consoleProgram (s : Surroundings) : Except Fault Bot := do
  let c := Config.load s
  let first ← setUpDefaultLogs c.directory s.plainFiles
  let _ ← c.problems
  let _ ← setUpConfiguredLogs c (s.plainFiles ++ first.files)
  let (b, _) ← c.bot consoleTransport
  return (b.registerInfo echoInfo .inline echoHandler).1

/-- Something that the bot sends, as a console takes it. -/
def consoleSending : Outgoing → ConsoleSending
  | .reply c t => .reply c t
  | .file c f caption => .file c (.ofSetting f) caption
  | .direct _ t => .direct (some consoleUser) t

/-- What is written for something that the bot sends. -/
def writtenFor (o : Outgoing) : String := (consoleSending o).line.toOption.getD ""

/-- What is written for what has happened. -/
def written (journal : List Entry) : String :=
  String.join (journal.filterMap fun e =>
    match e.what with
    | .sent o => some (writtenFor o)
    | _ => none)

/-- A bot whose journal begins anew. -/
def Bot.forgetJournal (b : Bot) : Bot := { b with core := { b.core with journal := [] } }

/-- Lets the units run on, for at most as many turns. -/
def Bot.settleWithin (b : Bot) (turns : Nat) : Bot :=
  let (core, units) := b.units.settle botHost turns b.core
  { b with core := core, units := units.untrack }

/-- One line: the bot after it, and what is written for it. A line has no more calls in it than
characters, and a turn is many requests long, so that a turn for each character will do. -/
def answerLine (b : Bot) (line : String) : Bot × String :=
  let b := ((b.receive (Console.messageOf 0 line)).1).settleWithin (line.length + 1)
  (b.forgetJournal, written b.core.journal)

/-- What is written for lines, and for the end of the program. -/
def transcript (b : Bot) : List String → String
  | [] => written b.stop.1.core.journal
  | line :: lines =>
    let (b, text) := answerLine b line
    text ++ transcript b lines

/-- The program as a whole: what it writes for an input, or what keeps it from starting. -/
def runConsole (s : Surroundings) (input : String) : Except Fault String := do
  let b ← consoleProgram s
  return transcript b.forgetJournal (linesOf (String.ofList (unifyLineEnds input.toList)))

end ChatCommands
