import ChatCommands.Dispatch.ChainProgram
import ChatCommands.Dispatch.Gate
import ChatCommands.Chain.Parse

/-!
# Runs

A run is a program at work for an event, under the programs that wait for what it answers. It
goes on request by request; between two requests it may be suspended at a closed gate, or because
a program begins on a thread of its own.

## Main definitions

* `Core.serve`: requests that are served at once
* `Run`, `Frame`: a program at work, and one that waits for its answer
* `Run.step`: the next request
* `Run.advance`: requests until the run is suspended or ends
* `Core.deliver`: the final answer
-/

namespace ChatCommands

namespace Core

/-- The core with other levels, after a report. -/
def withLevels (s : Core) (e : Event) (levels : Except Fault Levels) (report : LogEvent) :
    Core × Event × Except Fault Unit :=
  match levels with
  | .ok l => ({ s.log e.unit report with levels := l }, e, .ok ())
  | .error f => (s, e, .error f)

/-- Serves a request. -/
def serve (s : Core) (e : Event) : (a : Action) → Core × Event × a.Reply
  | .reply t =>
    let (s, r) := s.send e (.reply e.channel t)
    (s, e, r)
  | .direct t =>
    match e.message.author with
    | none => (s, e, .error (.lacks .null "id"))
    | some u =>
      let (s, r) := s.send e (.direct u.id t)
      (s, e, r)
  | .file n c =>
    let (s, r) := s.send e (.file e.channel n c)
    (s, e, r)
  | .append l => (s.record e.unit (.queued l), { e with queue := e.queue ++ [l] }, ())
  | .attach f => (s, { e with file := if f.isNull then none else some f }, ())
  | .detach => (s, { e with file := none }, ())
  -- The journal tells which lines were dropped, so that no line can be lost unnoticed.
  | .drain => (s.record e.unit (.dropped e.queue), { e with queue := [] }, ())
  | .setUser id n => s.withLevels e (s.levels.setUser id n) (.userLevelSet id n)
  | .setRole id n => s.withLevels e (s.levels.setRole id n) (.roleLevelSet id n)
  | .unregister n =>
    match s.registry.remove n with
    | .ok (r, _) => ({ s with registry := r }, e, .ok ())
    | .error f => (s, e, .error f)
  | .queued => (s, e, e.queuedText)
  | .current => (s, e, e.command.map (·.name))
  | .lookUp n => (s, e, (s.registry.get n).map (Option.map (·.toCommandInfo)))
  | .listing => (s, e, s.registry.commands.map (·.toCommandInfo))

/-- Sends the final answer: with a file the text is its caption, and an empty text is not sent. -/
def deliver (s : Core) (e : Event) (v : Value) : Core × Event × Except Fault Unit :=
  let (s, e, text) := s.drainInto e v
  match e.file, text with
  | some f, text =>
    match s.send e (.file e.channel f (.ofText? text)) with
    | (s, .ok _) => (s.log e.unit (.fileDelivered e.channel), e, .ok ())
    | (s, .error f) => (s, e, .error f)
  | none, some text =>
    if text = "" then (s, e, .ok ())
    else
      match s.send e (.reply e.channel text) with
      | (s, .ok _) => (s.log e.unit (.responseDelivered e.channel text.length), e, .ok ())
      | (s, .error f) => (s, e, .error f)
  | none, none => (s, e, .ok ())

/-- The program of a chain that has been read, with what was reported on the way. -/
def programOfParsed (s : Core) (e : Event) (p : Parsed) : Core × Program Value :=
  let s := s.logAll e.unit p.events
  match p.chain with
  | .ok c => (s.log e.unit (.chainParsed c.length), do return Value.ofText? (← chainProgram c))
  | .error f => (s, .fail f)

/-- The program of a chain text, with what is reported while it is read. -/
def programOf (s : Core) (e : Event) (text : String) : Core × Program Value :=
  if s.attributes.advanced then s.programOfParsed e (parseChain s.attributes text)
  else (s, do return Value.ofText? (← simpleProgram (parseSimple text)))

/-- The program of what is given for a chain text. -/
def programOfGiven (s : Core) (e : Event) (v : Setting) : Core × Program Value :=
  match v.text? with
  | some text => s.programOf e text
  | none => s.programOfParsed e (parseGiven s.attributes v)

end Core

/-- A program that waits for the answer of a command that it has called. -/
structure Frame where
  /-- The name by which the command was called. -/
  called : Setting
  /-- How the waiting program runs. -/
  manner : Manner
  resume : Except Fault (Option String) → Program Value

/-- A program at work for an event, above the programs that wait for it. -/
structure Run where
  event : Event
  program : Program Value
  manner : Manner := .inline
  frames : List Frame := []

/-- What a run comes to. -/
inductive Progress where
  /-- It can go on at once. -/
  | on (r : Run)
  /-- It waits for a gate. -/
  | blocked (gate : Setting) (r : Run)
  /-- It lets others go first. -/
  | yielded (r : Run)
  | ended (e : Event) (result : Except Fault Value)

namespace Run

/-- Enters the program of a command. On a thread it begins after whatever is due before. -/
def enter (r : Run) (e : Event) (name : Setting) (c : Command) (arguments : List Setting)
    (next : Except Fault (Option String) → Program Value) : Progress :=
  let frames := ⟨name, r.manner, next⟩ :: r.frames
  let program := c.handler e.message arguments
  match c.manner with
  | .inline => .on ⟨e, program, .inline, frames⟩
  | .thread => .yielded ⟨e, program, .thread, frames⟩
  | .deferred => .yielded ⟨e, program, .inline, frames⟩

/-- Goes back to the program that waits for a result: queued lines go in front of an answer, and
a fault is noticed on its way out. -/
def leave (s : Core) (e : Event) (f : Frame) (frames : List Frame) :
    Except Fault Value → Core × Run
  | .ok v =>
    let (s, e, text) := s.drainInto e v
    (s, ⟨e, f.resume (.ok (some (text.getD ""))), f.manner, frames⟩)
  | .error x =>
    let (s, x) := s.notice e f.called x
    (s, ⟨e, f.resume (.error x), f.manner, frames⟩)

/-- Serves the next request of a run. -/
def step (opened : Setting → Bool) (s : Core) (r : Run) : Core × Progress :=
  match r.program with
  | .act a next =>
    let (s, e, reply) := s.serve r.event a
    (s, .on { r with event := e, program := next reply })
  | .wait g next =>
    if opened g then (s, .on { r with program := next })
    else (s, .blocked g { r with program := next })
  | .call name arguments chained next =>
    match s.dispatch r.event name arguments chained with
    | (s, e, .enter c) => (s, r.enter e name c arguments next)
    | (s, e, .answered t) => (s, .on { r with event := e, program := next (.ok t) })
    | (s, e, .failed f) => (s, .on { r with event := e, program := next (.error f) })
  | .done result =>
    match r.frames with
    | [] => (s, .ended r.event result)
    | f :: fs =>
      let (s, r) := leave s r.event f fs result
      (s, .on r)

/-- Serves requests, at most `n` of them, until the run is suspended or ends. -/
def advance (opened : Setting → Bool) : Nat → Core → Run → Core × Progress
  | 0, s, r => (s, .yielded r)
  | n + 1, s, r =>
    match r.step opened s with
    | (s, .on r) => advance opened n s r
    | p => p

/-- What goes on of a run that is cancelled while it waits: a program on a thread, whose answer
nobody waits for. -/
def behind (r : Run) : Option Run :=
  if r.manner = .thread then some { r with frames := [] } else none

end Run

/-- How many requests a run makes before others have their turn. -/
def turnLength : Nat := 100000

end ChatCommands
