import ChatCommands.Program
import ChatCommands.Setting.Use

/-!
# Scripted programs

A script is a program as data: steps that make one request each, and an expression for the
answer. Expressions combine what is known of the message, the arguments and the unit.

## Main definitions

* `Expression`, `Expression.program`: expressions and their evaluation
* `ScriptStep`, `Script`: scripts
* `Script.handler`: the program of a script
-/

namespace ChatCommands

/-- What a script can compute. -/
inductive Expression where
  | constant (v : Setting)
  | argument (index : Nat)
  /-- All arguments, with a separator between them. -/
  | joined (separator : Setting)
  | count
  | concat (es : List Expression)
  | queued
  | content
  | command
  | authorId
  | authorName
  | server
  | channel
  /-- The content of the message that the script sent last. -/
  | lastContent
  /-- The message that the script sent last. -/
  | lastMessage
  deriving Repr, Inhabited

/-- What a script knows while it runs. -/
structure ScriptState where
  message : Message
  arguments : List Setting
  /-- The message that the script sent last. -/
  last : Option Sent := none

/-- The part of the author that an expression names. -/
def authorPart (m : Message) (name : String) (part : User → Setting) : Program Value :=
  match m.author with
  | some u => pure (.plain (part u))
  | none => Program.fail (.lacks .null name)

/-- Texts with a separator between them, which has to be a text too. -/
def joinTexts (separator : Setting) (items : List Setting) : Except Fault String :=
  match separator.text?, items.zipIdx.find? fun v => v.1.text?.isNone with
  | none, _ => .error (.lacks separator "join")
  | _, some (v, i) =>
    .error (.wrongType ("sequence item " ++ toString i ++ ": expected str instance, " ++
      v.typeName ++ " found"))
  | some s, none => .ok (s.intercalate (items.filterMap Setting.text?))

mutual

/-- The value of an expression. -/
def Expression.program (x : ScriptState) : Expression → Program Value
  | .constant v => pure (.plain v)
  | .argument i => pure (.plain ((x.arguments[i]?).getD .null))
  | .joined separator => do return .text (← Program.done (joinTexts separator x.arguments))
  | .count => pure (.plain (.int x.arguments.length))
  | .concat es => do
    let texts ← Expression.programs x es
    return .text (String.join texts)
  | .queued => do return .text (← Program.queued)
  | .content => pure (.plain x.message.content)
  | .command => do return .plain ((← Program.current).getD .null)
  | .authorId => authorPart x.message "id" User.id
  | .authorName => authorPart x.message "name" User.name
  | .server => pure (.plain (x.message.server.getD .null))
  | .channel => pure (.plain x.message.channel)
  | .lastContent => pure (.plain ((x.last.map (·.content)).getD .null))
  | .lastMessage => pure ((x.last.map Value.sent).getD .null)

/-- The values of expressions as pieces of a text. -/
def Expression.programs (x : ScriptState) : List Expression → Program (List String)
  | [] => pure []
  | e :: es => do
    let v ← e.program x
    let texts ← Expression.programs x es
    return v.piece :: texts

end

/-- A request of a script. -/
inductive ScriptStep where
  | reply (text : Expression)
  | direct (text : Expression)
  | file (name : Setting) (caption : Expression)
  | append (line : Expression)
  | attach (file : Expression)
  | detach
  | drain
  | raise (f : Fault)
  | setUser (id : Id) (level : Setting)
  | setRole (id : Id) (level : Setting)
  | unregister (name : Setting)
  /-- Calls a command with the same arguments and queues its answer. -/
  | call (name : Setting)
  | wait (gate : Setting)
  deriving Repr, Inhabited

/-- Runs a step; the message sent last. -/
def ScriptStep.program (x : ScriptState) : ScriptStep → Program (Option Sent)
  | .reply e => do
    let v ← e.program x
    return some (← Program.reply v.toSetting)
  | .direct e => do
    let v ← e.program x
    return some (← Program.direct v.toSetting)
  | .file name e => do
    let v ← e.program x
    return some (← Program.file name v.toSetting)
  | .append e => do
    let v ← e.program x
    Program.act (.append v.line) fun _ => pure x.last
  | .attach e => do
    let v ← e.program x
    Program.act (.attach v.toSetting) fun _ => pure x.last
  | .detach => .act .detach fun _ => pure x.last
  | .drain => .act .drain fun _ => pure x.last
  | .raise f => .fail f
  | .setUser id n => do
    Program.act (.setUser id n) Program.done
    return x.last
  | .setRole id n => do
    Program.act (.setRole id n) Program.done
    return x.last
  | .unregister n => do
    Program.act (.unregister n) Program.done
    return x.last
  | .call n => do
    let text ← Program.callCommand n x.arguments false
    Program.act (.append (Value.ofText? text).line) fun _ => pure none
  | .wait g => do
    let _ ← Program.done g.key
    Program.waitAt g
    return x.last

/-- Steps in order, and the expression for the answer. -/
structure Script where
  steps : List ScriptStep
  answer : Expression
  deriving Repr, Inhabited

/-- Runs steps in order. -/
def runScript (x : ScriptState) : List ScriptStep → Program ScriptState
  | [] => pure x
  | t :: ts => do
    let last ← t.program x
    runScript { x with last := last } ts

/-- The program of a script. -/
def Script.handler (t : Script) : Handler := fun message arguments => do
  let x ← runScript { message := message, arguments := arguments } t.steps
  t.answer.program x

end ChatCommands
