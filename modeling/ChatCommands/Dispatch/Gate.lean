import ChatCommands.Dispatch.Core
import ChatCommands.Text.Mark

/-!
# The gate before a command

Calling a name looks up its command, checks what the author may do, and then whether the command
takes the call as it is. All of it happens at once: nothing can come between the checks and the
beginning of the command's program.

## Main definitions

* `Core.authorise`: what the author may do
* `CommandInfo.refusal?`: calls that a command does not take
* `Core.accept`: the call itself, without the author's rights
* `Core.dispatch`: the whole gate
* `Core.notice`: what a refused capability check adds
-/

namespace ChatCommands

/-- The outcome of a call: a program to enter, a call answered without one, or a fault. -/
inductive Verdict where
  | enter (c : Command)
  | answered (text : Option String)
  | failed (f : Fault)

namespace CommandInfo

/-- The texts that refuse a call for its number of arguments: what is wrong, and the usage if the
command tells it. -/
def countRefusal (c : CommandInfo) (wrong : String) : List String :=
  (wrong ++ " arguments for command `" ++ c.name.shown ++ "`!") :: c.usageLine

/-- Whether there are more arguments than a bound that is not negative. -/
def exceeds (count bound : Setting) : Except Fault Bool := do
  if ← Setting.compare .atMost (.int 0) bound then bound.compare .less count else return false

/-- The texts that refuse a call: too few arguments, too many, or a command that takes no part in
chains. -/
def refusal? (c : CommandInfo) (count : Nat) (chained : Bool) :
    Except Fault (Option (List String)) := do
  if ← Setting.compare .less (.int count) c.minArgs then
    return some (c.countRefusal "Too few")
  if ← exceeds (.int count) c.maxArgs then
    return some (c.countRefusal "Too many")
  if chained && !c.chainUsable.counts then
    return some ["Command `" ++ c.name.shown ++ "` cannot be used in a command chain!"]
  return none

end CommandInfo

/-- A template with its mark replaced by a name, which has to be a text. One that is not given, or
is empty, gives no reply. -/
def templateReply (template : Setting) (mark : String) (name : Setting) :
    Except Fault (List String) :=
  if template.counts then
    match template.text?, name.text? with
    | some t, some n => .ok [fill mark n t]
    | none, _ => .error (.lacks template "replace")
    | _, none =>
      .error (.wrongType ("replace() argument 2 must be str, not " ++
        if name.isNull then "None" else name.typeName))
  else .ok []

namespace Core

/-- Whether the author of an event may use a command: level, then actions, then roles. -/
def authorise (s : Core) (e : Event) (c : CommandInfo) : Core × Except Fault Bool :=
  match s.levels.permits e.message.author c.permissionLevel e.message.server with
  | .error f => (s, .error f)
  | .ok false => (s, .ok false)
  | .ok true =>
    let check := checkActions s.transport e.message.author e.channel c.requiredPermissions
    (check.asked.foldl (fun s a => s.record e.unit (.asked e.authorId a)) s, do
      if ← check.outcome then holdsRoles e.message.author c.requiredRoles else return false)

/-- The call of a command whose author may use it. A refused call is answered with no text. -/
def accept (s : Core) (e : Event) (name : Setting) (c : Command) (arguments : List Setting)
    (chained : Bool) : Core × Verdict :=
  match c.refusal? arguments.length chained with
  | .error f => (s, .failed f)
  | .ok (some texts) =>
    match s.replyAll e texts with
    | (s, .ok ()) => (s, .answered (some ""))
    | (s, .error f) => (s, .failed f)
  | .ok none => (s.record e.unit (.began name c.registration arguments), .enter c)

/-- A fault on its way out of a command. If it says that the author may not do something, that is
reported and answered first; a fault of the answer takes its place. -/
def notice (s : Core) (e : Event) (name : Setting) (f : Fault) : Core × Fault :=
  if f.isNoPermission then
    let s := s.log e.unit (.noPermissionRaised name e.authorId)
    match s.attributes.noPermissionMessage with
    | none => (s, f)
    | some m =>
      match s.replyAll e [m] with
      | (s, .ok ()) => (s, f)
      | (s, .error g) => (s, g)
  else (s, f)

/-- Sends the reply of a call that does not reach its command. -/
def turnAway (s : Core) (e : Event) (reply : Except Fault (List String)) : Core × Verdict :=
  match reply with
  | .error f => (s, .failed f)
  | .ok texts =>
    match s.replyAll e texts with
    | (s, .ok ()) => (s, .answered none)
    | (s, .error f) => (s, .failed f)

/-- A call of a name that stands for a command, up to faults that have to be noticed. -/
def dispatchBound (s : Core) (e : Event) (name : Setting) (c : Command)
    (arguments : List Setting) (chained : Bool) : Core × Event × Verdict :=
  match s.authorise e c.toCommandInfo with
  | (s, .error f) => (s, e, .failed f)
  | (s, .ok true) =>
    -- From here on the event knows its command, even if the call is refused.
    let e := { e with command := some c.toCommandInfo }
    match s.accept e name c arguments chained with
    | (s, v) => (s, e, v)
  | (s, .ok false) =>
    let s := s.log e.unit (.permissionDenied name e.authorId c.permissionLevel)
    match s.turnAway e (templateReply c.permissionMessage "%name%" name) with
    | (s, v) => (s, e, v)

/-- A call of a name. -/
def dispatch (s : Core) (e : Event) (name : Setting) (arguments : List Setting) (chained : Bool) :
    Core × Event × Verdict :=
  let s := s.log e.unit (.commandExecuting name arguments)
  match s.registry.get name with
  | .error f => (s, e, .failed f)
  | .ok none =>
    let s := s.log e.unit (.commandNotFound name)
    match s.turnAway e
        (templateReply (.ofText? s.attributes.notFoundMessage) "%command%" name) with
    | (s, v) => (s, e, v)
  | .ok (some c) =>
    match s.dispatchBound e name c arguments chained with
    | (s, e, .failed f) =>
      match s.notice e name f with
      | (s, f) => (s, e, .failed f)
    | r => r

end Core

end ChatCommands
