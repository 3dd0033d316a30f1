import ChatCommands.Failure
import ChatCommands.Log

/-!
# The scheduler

The scheduler runs units of work side by side. A unit goes on until it ends, waits at a gate or
lets others go first; then the next unit that is due has its turn. Whatever a unit ends with is
contained in it: a fault is reported, a cancellation is reported and remembered.

What a unit does in its turn, and what is left running of it when it is cancelled, is up to the
host of the scheduler, which also keeps what the units share.

## Main definitions

* `Turn`, `Ending`, `Host`: what a unit comes to, and who runs it
* `Stage`, `Task`, `Scheduler`: units and their states
* `Scheduler.spawn`, `Scheduler.release`, `Scheduler.cancel`: what is asked from outside
* `Scheduler.takeTurn`, `Scheduler.settle`: the turns of units
* `Scheduler.drain`: the end of the work
-/

namespace ChatCommands

/-- How work ends. -/
inductive Ending where
  | finished
  | failed (f : Fault)
  | cancelled
  deriving DecidableEq, Repr, Inhabited

/-- What work comes to in its turn. -/
inductive Turn (τ : Type) where
  | blocked (gate : Setting) (rest : τ)
  | yielded (rest : τ)
  | ended (how : Ending)

/-- Who runs the work: `σ` is what the units share and `τ` what is still to be done of one. -/
structure Host (σ τ : Type) where
  /-- A turn of work, given the gates that are open. -/
  resume : (Setting → Bool) → σ → τ → σ × Turn τ
  /-- A turn of work that is cancelled where it waits. -/
  interrupt : (Setting → Bool) → σ → τ → σ × Turn τ
  /-- What goes on of work that was cancelled where it waited. -/
  behind : τ → Option τ
  /-- What begins of work although it was cancelled before it began. -/
  unbegun : τ → Option τ
  /-- Takes a report, about the unit of a number or about all. -/
  report : σ → Option Nat → LogEvent → σ

/-- Work that has begun. -/
inductive Activity (τ : Type) where
  /-- Waits for its turn. -/
  | due (rest : τ)
  /-- Waits at a gate. -/
  | blocked (gate : Setting) (rest : τ)

namespace Activity

variable {τ : Type}

/-- What is still to be done. -/
def rest : Activity τ → τ
  | due w => w
  | blocked _ w => w

/-- The gate at which the work waits. -/
def gate? : Activity τ → Option Setting
  | due _ => none
  | blocked g _ => some g

/-- The same state of different work. -/
def withRest (w : τ) : Activity τ → Activity τ
  | due _ => due w
  | blocked g _ => blocked g w

end Activity

/-- The state of a unit. What is left running of a cancelled unit belongs to it still, but its
outcome counts for nothing. -/
inductive Stage (τ : Type) where
  | fresh (work : τ)
  | active (a : Activity τ)
  | done
  | cancelled (behind : Option (Activity τ))

namespace Stage

variable {τ : Type}

/-- Whether the unit has not ended. -/
def isPending : Stage τ → Bool
  | fresh _ => true
  | active _ => true
  | _ => false

/-- What is going on for the unit. -/
def activity? : Stage τ → Option (Activity τ)
  | active a => some a
  | cancelled b => b
  | _ => none

/-- The same state with another activity. -/
def withActivity (a : Activity τ) : Stage τ → Stage τ
  | cancelled _ => cancelled (some a)
  | _ => active a

/-- The word for the state. -/
def name : Stage τ → String
  | fresh _ => "pending"
  | active _ => "pending"
  | done => "done"
  | cancelled _ => "cancelled"

end Stage

/-- A unit: its name, its state, and whether its cancellation has been asked for. -/
structure Task (τ : Type) where
  /-- The name as it was given, which reports use. -/
  label : Setting
  stage : Stage τ
  cancelling : Bool := false

/-- The name of a unit. -/
def Task.name {τ : Type} (t : Task τ) : String := t.label.shown

/-- A time limit: a number, or nothing where there is no limit. -/
def timeLimit : Setting → Except Fault (Option Decimal)
  | .scalar .null => .ok none
  | v =>
    match v.number? with
    | some t => .ok (some t)
    | none =>
      .error (.wrongType ("unsupported operand type(s) for +: 'float' and '" ++ v.typeName ++ "'"))

/-- The units in the order in which they were spawned; the numbers of those that are due and of
those that wait at gates, in order of arrival; the open gates; the numbers of the units that are
tracked; and how many units have been spawned. -/
structure Scheduler (τ : Type) where
  units : List (Task τ) := []
  due : List Nat := []
  waiting : List Nat := []
  opened : List Setting := []
  tracked : List Nat := []
  counter : Nat := 0

namespace Scheduler

variable {σ τ : Type}

/-- Whether a gate is open. -/
def isOpen (c : Scheduler τ) (gate : Setting) : Bool := c.opened.any gate.same

/-- Whether the unit of a number has not ended. -/
def isPending (c : Scheduler τ) (i : Nat) : Bool :=
  match c.units[i]? with
  | some u => u.stage.isPending
  | none => false

/-- The numbers of the units that have not ended. -/
def pending (c : Scheduler τ) : List Nat := (List.range c.units.length).filter c.isPending

/-- How many units are tracked. -/
def inFlight (c : Scheduler τ) : Nat := c.tracked.length

/-- Units that have ended, in whatever way, are not tracked any more. They are dropped a turn after
their ends, so this is done once nobody has a turn. -/
def untrack (c : Scheduler τ) : Scheduler τ := { c with tracked := c.tracked.filter c.isPending }

/-- The name of the unit that is spawned last, unless it is given one. -/
def lastName (c : Scheduler τ) : String := "ct-" ++ toString c.counter

/-- Changes the state of a unit. -/
def setStage (c : Scheduler τ) (i : Nat) (f : Stage τ → Stage τ) : Scheduler τ :=
  { c with units := c.units.modify i fun u => { u with stage := f u.stage } }

/-- A new unit, which is due, and tracked from now on. -/
def spawn (h : Host σ τ) (s : σ) (c : Scheduler τ) (work : τ) (name : Setting) :
    σ × Scheduler τ × String :=
  let c := { c with counter := c.counter + 1 }
  let label := if name.counts then name else c.lastName
  let i := c.units.length
  let c := { c with
    units := c.units ++ [⟨label, .fresh work, false⟩]
    due := c.due ++ [i]
    tracked := c.tracked ++ [i] }
  (h.report s (some i) (.unitSpawned label c.inFlight), c, label.shown)

/-- The gate at which the unit of a number waits. -/
def gateOf? (c : Scheduler τ) (i : Nat) : Option Setting :=
  c.units[i]? >>= fun u => u.stage.activity? >>= Activity.gate?

/-- Takes a unit that waits at a gate to those that are due. -/
def makeDue (c : Scheduler τ) (i : Nat) : Scheduler τ :=
  c.setStage i fun g =>
    match g.activity? with
    | some a => g.withActivity (.due a.rest)
    | none => g

/-- Opens a gate: the units that wait there are due, in the order in which they came. -/
def release (c : Scheduler τ) (gate : Setting) : Scheduler τ :=
  let atGate (i : Nat) : Bool := (c.gateOf? i).any gate.same
  let freed := c.waiting.filter atGate
  let c := { c with
    opened := if c.isOpen gate then c.opened else gate :: c.opened
    waiting := c.waiting.filter fun i => !atGate i
    due := c.due ++ freed }
  freed.foldl makeDue c

/-- Asks for the cancellation of a unit; whether it had not ended. -/
def cancel (c : Scheduler τ) (i : Nat) : Scheduler τ × Bool :=
  match c.units[i]? with
  | none => (c, false)
  | some u =>
    if u.stage.isPending then
      let c := { c with units := c.units.set i { u with cancelling := true } }
      -- A unit that waits at a gate is due now; any other is due already.
      if i ∈ c.waiting then
        ({ c with waiting := c.waiting.filter (· ≠ i), due := c.due ++ [i] }, true)
      else (c, true)
    else (c, false)

/-- Where an activity is kept: with those that are due or with those that wait. -/
def enlist (c : Scheduler τ) (i : Nat) : Option (Activity τ) → Scheduler τ
  | none => c
  | some (.due _) => { c with due := c.due ++ [i] }
  | some (.blocked _ _) => { c with waiting := c.waiting ++ [i] }

/-- Keeps the activity of a unit. -/
def goOn (c : Scheduler τ) (i : Nat) (a : Activity τ) : Scheduler τ :=
  (c.setStage i (Stage.withActivity a)).enlist i (some a)

/-- Cancels a unit, with what is left running of it. -/
def conclude (c : Scheduler τ) (i : Nat) (behind : Option (Activity τ)) : Scheduler τ :=
  (c.setStage i fun _ => .cancelled behind).enlist i behind

/-- Takes down what a unit has come to. -/
def settleTurn (h : Host σ τ) (s : σ) (c : Scheduler τ) (i : Nat) (label : Setting)
    (behind : Option (Activity τ)) : Turn τ → σ × Scheduler τ
  | .blocked g w => (s, c.goOn i (.blocked g w))
  | .yielded w => (s, c.goOn i (.due w))
  | .ended .finished => (s, c.setStage i fun _ => .done)
  | .ended (.failed f) =>
    -- A fault that cannot be displayed cannot be reported either.
    (if f.showable then h.report s (some i) (.unitFailed label f.shown f.name) else s,
      c.setStage i fun _ => .done)
  | .ended .cancelled => (h.report s (some i) (.unitCancelled label), c.conclude i behind)

/-- What is left running after a turn that nobody waits for. -/
def leftRunning : Turn τ → Option (Activity τ)
  | .blocked g w => some (.blocked g w)
  | .yielded w => some (.due w)
  | .ended _ => none

/-- A turn of what is left running of a cancelled unit. -/
def runBehind (h : Host σ τ) (s : σ) (c : Scheduler τ) (i : Nat) (work : τ) : σ × Scheduler τ :=
  let (s, t) := h.resume c.isOpen s work
  (s, c.conclude i (leftRunning t))

/-- The turn of a unit. -/
def takeTurn (h : Host σ τ) (s : σ) (c : Scheduler τ) (i : Nat) : σ × Scheduler τ :=
  match c.units[i]? with
  | none => (s, c)
  | some u =>
    match u.stage with
    | .fresh w =>
      -- Nothing of the unit has happened, so there is nothing to report.
      if u.cancelling then
        match h.unbegun w with
        | none => (s, c.conclude i none)
        | some w => c.runBehind h s i w
      else
        let (s, t) := h.resume c.isOpen s w
        c.settleTurn h s i u.label none t
    | .active a =>
      if u.cancelling then
        let (s, t) := h.interrupt c.isOpen s a.rest
        -- Work that goes on in spite of the interruption is not interrupted again.
        let c := { c with units := c.units.set i { u with cancelling := false } }
        c.settleTurn h s i u.label ((h.behind a.rest).map a.withRest) t
      else
        let (s, t) := h.resume c.isOpen s a.rest
        c.settleTurn h s i u.label none t
    | .cancelled (some a) => c.runBehind h s i a.rest
    | _ => (s, c)

/-- Turns in order, at most `n` of them, until nothing is due. -/
def settle (h : Host σ τ) : Nat → σ → Scheduler τ → σ × Scheduler τ
  | 0, s, c => (s, c)
  | n + 1, s, c =>
    match c.due with
    | [] => (s, c)
    | i :: rest =>
      let (s, c) := takeTurn h s { c with due := rest } i
      settle h n s c

/-- Asks for the cancellation of units. -/
def cancelAll (c : Scheduler τ) (is : List Nat) : Scheduler τ :=
  is.foldl (fun c i => (c.cancel i).1) c

/-- Cancels those of the watched units that have not ended; their number. -/
def cancelLeft (h : Host σ τ) (turns : Nat) (s : σ) (c : Scheduler τ) (watched : List Nat) :
    σ × Scheduler τ × Nat :=
  match watched.filter c.isPending with
  | [] => (s, c, 0)
  | left =>
    let (s, c) := settle h turns s (c.cancelAll left)
    (h.report s none (.unitsCancelledOnShutdown left.length), c.untrack, left.length)

/-- Lets all units run on as far as they can. If there is a time limit, those that have not ended
then are cancelled; their number. Where no unit is tracked, nothing is done, and the limit is not
even looked at. -/
def drain (h : Host σ τ) (turns : Nat) (s : σ) (c : Scheduler τ) (timeout : Setting) :
    σ × Scheduler τ × Except Fault Nat :=
  match c.tracked, timeLimit timeout with
  | [], _ => (s, c, .ok 0)
  | _, .error f => (s, c, .error f)
  | watched, .ok limit =>
    let (s, c) := settle h turns s c
    let c := c.untrack
    if limit.isSome then
      let (s, c, n) := cancelLeft h turns s c watched
      (s, c, .ok n)
    else (s, c, .ok 0)

/-- Units by name, with their numbers. -/
def numbersOf (c : Scheduler τ) (name : String) : List Nat :=
  (List.range c.units.length).filter fun i => (c.units[i]?.map (·.name)) == some name

/-- The names of all units with the words for their states. -/
def overview (c : Scheduler τ) : List (String × String) :=
  c.units.map fun u => (u.name, u.stage.name)

end Scheduler

/-- How many turns units have before nothing more is expected of them. -/
def turnLimit : Nat := 100000

end ChatCommands
