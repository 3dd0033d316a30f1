import ChatCommands.Console.Transcript
import ChatCommands.Setting.Reader

/-!
# The command line

The console program: it reads its configuration from the directory in which it starts, answers
each line of its input, and stops at the end of the input.

## Main definitions

* `gather`: where the program starts
* `converse`: the lines of the input, one by one
* `main`: the program
-/

namespace ChatCommands

/-- The content of a file, if there is one that can be read. -/
def contentOf? (path : String) : IO (Option String) := do
  try
    return some (← IO.FS.readFile path)
  catch _ =>
    return none

/-- The variables of the environment that the program looks at. -/
def environment : IO Variables := do
  let mut found : Variables := []
  for name in ["CHAINBOT_PREFIX", "CHAINBOT_LOG_LEVEL", "HOME"] do
    if let some value ← IO.getEnv name then
      found := found ++ [(name, value)]
  return found

/-- Where the program starts, or nothing if its settings file cannot be understood. -/
def gather : IO (Option Surroundings) := do
  let directory := (← IO.currentDir).toString
  let vars ← environment
  let more ← contentOf? "config/.env"
  let s : Surroundings :=
    { environment := vars, fileVariables := more.map variablesOf, directory := directory,
      home := (vars.lookup "HOME").getD "" }
  match ← contentOf? "config/settings.yaml" with
  | none => return some s
  | some text => return (Setting.parse? text).map fun v => { s with settings := some v }

/-- Answers the lines of the input until it ends. -/
partial def converse (input output : IO.FS.Stream) (b : Bot) : IO Unit := do
  let line ← input.getLine
  if line.isEmpty then
    output.putStr (written b.stop.1.core.journal)
  else
    let (b, text) := (linesOf (String.ofList (unifyLineEnds line.toList))).foldl
      (fun (b, text) l =>
        let (b, t) := answerLine b l
        (b, text ++ t))
      (b, "")
    output.putStr text
    output.flush
    converse input output b

/-- Runs the program, or tells what keeps it from starting. -/
def start : IO UInt32 := do
  match ← gather with
  | none =>
    IO.eprintln "The settings file cannot be understood"
    return 1
  | some s =>
    match consoleProgram s with
    | .error f =>
      IO.eprintln (f.name ++ ": " ++ f.shown)
      return 1
    | .ok b =>
      converse (← IO.getStdin) (← IO.getStdout) b.forgetJournal
      return 0

end ChatCommands

/-- The console program. -/
def main : IO UInt32 := ChatCommands.start
