import ChatCommands.Scheduler
import ChatCommands.Setting.Use

/-!
# Drills

A drill is work that does nothing but wait at gates and then end in a given way. It leaves a
trace of what became of it. A stubborn drill does not let an interruption stop it. One that is a
future runs apart from its unit: it begins whether or not its unit does, and once it has waited,
its unit learns of its end only in a turn of its own.

## Main definitions

* `Drill`, `DrillEnd`: the work
* `Trace`, `DrillLog`: what it leaves
* `drillHost`: the host of drills
* `Watch`: a drain that goes on in the background
* `Rehearsal`: drills, what they leave, and a drain in the background
-/

namespace ChatCommands

/-- How a drill ends after its gates. -/
inductive DrillEnd where
  | ok
  | fail (f : Fault)
  /-- As if it had been cancelled. -/
  | cancel
  deriving Repr, Inhabited

/-- Work that waits at gates and then ends. -/
structure Drill where
  number : Nat
  gates : List Setting := []
  begun : Bool := false
  stubborn : Bool := false
  future : Bool := false
  finish : DrillEnd := .ok
  /-- How the drill has ended, until its unit learns of it. -/
  ended : Option Ending := none
  deriving Repr, Inhabited

/-- What became of a drill. -/
inductive Trace where
  | started (number : Nat)
  | passed (number : Nat) (gate : Setting)
  | interrupted (number : Nat)
  | completed (number : Nat)
  deriving DecidableEq, Repr, Inhabited

/-- The drill that a trace is of. -/
def Trace.number : Trace → Nat
  | started n => n
  | passed n _ => n
  | interrupted n => n
  | completed n => n

/-- What drills leave. -/
structure DrillLog where
  trace : List Trace := []
  events : List LogEvent := []
  deriving Repr, Inhabited

namespace Drill

/-- Adds to the trace. -/
def leave (s : DrillLog) (t : Trace) : DrillLog := { s with trace := s.trace ++ [t] }

/-- The end of a drill. The unit of a future that has waited is told in its next turn. -/
def reach (d : Drill) (how : Ending) : Turn Drill :=
  if d.future && d.begun then .yielded { d with ended := some how } else .ended how

/-- The end of a drill after its gates. -/
def conclude (d : Drill) (s : DrillLog) : DrillLog × Turn Drill :=
  match d.finish with
  | .ok => (leave s (.completed d.number), d.reach .finished)
  | .fail f => (s, d.reach (.failed f))
  | .cancel => (s, d.reach .cancelled)

/-- Passes gates as long as they are open. A gate has to be something that can be kept apart from
others. -/
def pass (opened : Setting → Bool) (d : Drill) (s : DrillLog) :
    List Setting → DrillLog × Turn Drill
  | [] => d.conclude s
  | g :: gates =>
    match g.key with
    | .error f => (s, d.reach (.failed f))
    | .ok _ =>
      if opened g then pass opened d (leave s (.passed d.number g)) gates
      else (s, .blocked g { d with gates := g :: gates, begun := true })

/-- A turn of a drill. -/
def resume (opened : Setting → Bool) (s : DrillLog) (d : Drill) : DrillLog × Turn Drill :=
  match d.ended with
  | some how => (s, .ended how)
  | none =>
    let s := if d.begun then s else leave s (.started d.number)
    d.pass opened s d.gates

/-- A turn of a drill that is interrupted. -/
def interrupt (s : DrillLog) (d : Drill) : DrillLog × Turn Drill :=
  match d.ended with
  | some _ => (s, .ended .cancelled)
  | none =>
    let s := leave s (.interrupted d.number)
    if d.stubborn then d.conclude s else (s, d.reach .cancelled)

end Drill

/-- The host of drills. -/
def drillHost : Host DrillLog Drill where
  resume := Drill.resume
  interrupt _ := Drill.interrupt
  behind _ := none
  unbegun d := if d.future then some d else none
  report s _ e := { s with events := s.events ++ [e] }

/-- A drain that goes on in the background. -/
inductive Watch where
  | idle
  /-- Has been asked for and has not begun. -/
  | asked (timeout : Setting)
  /-- Waits for units, for a limited time or not. -/
  | waiting (watched : List Nat) (limit : Option Decimal)
  | ended (result : Except Fault Nat)

namespace Watch

/-- A drain in the background begins: it waits for the units that there are. -/
def begin {τ : Type} (c : Scheduler τ) : Watch → Watch
  | asked timeout =>
    match c.tracked, timeLimit timeout with
    | [], _ => ended (.ok 0)
    | _, .error f => ended (.error f)
    | watched, .ok limit => waiting watched limit
  | w => w

/-- A drain in the background ends with the last unit it waits for. -/
def look {τ : Type} (c : Scheduler τ) : Watch → Watch
  | waiting watched limit =>
    if watched.any c.isPending then waiting watched limit else ended (.ok 0)
  | w => w

/-- Whether the time of the drain is up no later than at a limit, if there is one. -/
def endsBy (limit : Option Decimal) : Watch → Bool
  | waiting _ (some t) => limit.all fun u => t ≤ u
  | _ => false

/-- Whether the drain has been asked for and has not begun. -/
def isAsked : Watch → Bool
  | asked _ => true
  | _ => false

end Watch

/-- A rehearsal: drills, what they leave, and a drain in the background. -/
structure Rehearsal where
  log : DrillLog := {}
  units : Scheduler Drill := {}
  watch : Watch := .idle

namespace Rehearsal

/-- Spawns a drill; the name of its unit. -/
def spawn (r : Rehearsal) (d : Drill) (name : Setting) : Rehearsal × String :=
  let (s, c, n) :=
    r.units.spawn drillHost r.log { d with number := r.units.units.length + 1 } name
  ({ r with log := s, units := c }, n)

/-- The position of the drill with a number: they are counted from one, and from the last one back
below that. -/
def position (r : Rehearsal) (number : Setting) : Except Fault Nat :=
  let size := r.units.units.length
  let place (i : Int) : Except Fault Nat :=
    let k := if i < 1 then size + i - 1 else i - 1
    if 0 ≤ k && k < size then .ok k.toNat else .error (.outOfRange "list index out of range")
  match number with
  | .scalar (.int i) => place i
  | .scalar (.bool b) => place b.toInt
  | v => .error (.wrongType ("unsupported operand type(s) for -: '" ++ v.typeName ++ "' and 'int'"))

/-- Asks for the cancellation of a drill; whether it had not ended. -/
def cancel (r : Rehearsal) (number : Setting) : Rehearsal × Except Fault Bool :=
  match r.position number with
  | .error f => (r, .error f)
  | .ok k =>
    let (units, b) := r.units.cancel k
    ({ r with units := units }, .ok b)

/-- Opens a gate. -/
def release (r : Rehearsal) (gate : Setting) : Rehearsal × Except Fault Unit :=
  match gate.key with
  | .ok _ => ({ r with units := r.units.release gate }, .ok ())
  | .error f => (r, .error f)

/-- Whether the drain in the background has ended, if one was asked for. -/
def drained (r : Rehearsal) : Option Bool :=
  match r.watch with
  | .idle => none
  | .ended _ => some true
  | _ => some false

/-- Lets drills run on, and the drain in the background begin. -/
def run (r : Rehearsal) : Rehearsal :=
  let (s, c) := Scheduler.settle drillHost turnLimit r.log r.units
  { log := s, units := c.untrack, watch := r.watch.begin r.units }

/-- The time of the drain in the background is up: what it waits for is cancelled. -/
def expire (r : Rehearsal) : Rehearsal :=
  match r.watch with
  | .waiting watched _ =>
    let (s, c, n) := r.units.cancelLeft drillHost turnLimit r.log watched
    { log := s, units := c, watch := .ended (.ok n) }
  | _ => r

/-- Looks whether the drain in the background has ended. -/
def look (r : Rehearsal) : Rehearsal := { r with watch := r.watch.look r.units }

/-- Lets drills run on as far as they can, and the drain in the background end if it can. One that
has no time to wait is over at once. -/
def settle (r : Rehearsal) : Rehearsal :=
  let r := r.run.look
  if r.watch.endsBy (some (.ofInt 0)) then r.expire else r

/-- Drains in the foreground. A drain in the background whose time is up first goes before it. -/
def drain (r : Rehearsal) (timeout : Setting) : Rehearsal × Except Fault Nat :=
  match r.units.tracked, timeLimit timeout with
  | [], _ => (r, .ok 0)
  | _, .error f => (r, .error f)
  | _, .ok limit =>
    let late := r.watch.isAsked
    let r := r.run
    let first := r.watch.endsBy limit
    let r := if first then r.expire else r
    let (s, c, n) := r.units.drain drillHost turnLimit r.log timeout
    let quiet := n.toOption == some 0
    let r := { r with log := s, units := c }
    -- A drain that began behind this one learns behind it that nothing is left to wait for.
    (if late && !first && quiet then r else r.look, n)

/-- Asks for a drain in the background. -/
def startDrain (r : Rehearsal) (timeout : Setting) : Rehearsal :=
  { r with watch := .asked timeout }

/-- Waits for the end of the drain in the background. -/
def endDrain (r : Rehearsal) : Rehearsal × Except Fault Nat :=
  let r := r.settle
  let r := if r.watch.endsBy none then r.expire else r
  match r.watch with
  | .ended result => (r, result)
  | _ => (r, .ok 0)

end Rehearsal

end ChatCommands
