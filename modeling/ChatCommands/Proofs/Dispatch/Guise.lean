import ChatCommands.Dispatch.Run
import ChatCommands.Proofs.Dispatch.Gate

/-!
# What happens for an event, told elsewhere

Nothing that happens for an event depends on what the journal tells already, on the number of the
unit, on the identifier of the message, or on the mode of the bot: were these others, the same would
happen, and be told behind the other journal for the other unit. Every operation of the core and of
runs commutes with such a change. Only the program of a command may look at the identifier of its
message, and only where a chain text is read does the mode count.

## Main definitions

* `Guise`: another journal, another unit, another identifier, another mode

## Main results

* `Guise.dispatch`, `Guise.serve`, `Guise.step`, `Guise.advance`: operations commute with the change
-/

namespace ChatCommands

/-- What a name stands for is bound to it. -/
theorem Registry.mem_of_get {r : Registry} {name : Setting} {c : Command}
    (h : r.get name = .ok (some c)) : ∃ b ∈ r.bindings, b.command = c := by
  obtain ⟨k, -, hk⟩ := except_bind_eq_ok h
  obtain ⟨b, hb, hc⟩ := Option.map_eq_some_iff.mp (Except.ok.inj hk)
  exact ⟨b, List.mem_of_find?_eq_some hb, hc⟩

/-- Entries to stand in the journal before all others, another unit for each, another identifier for
each message, and another mode, advanced or simple. -/
structure Guise where
  before : List Entry := []
  unit : Option Nat → Option Nat := fun u => u
  id : Id → Id := fun i => i
  advanced : Bool → Bool := fun a => a

namespace Guise

variable (g : Guise)

/-- The entry for the other unit. -/
def entry (x : Entry) : Entry := { x with unit := g.unit x.unit }

/-- The core with the other journal and mode. -/
def core (s : Core) : Core :=
  { s with
    attributes := { s.attributes with advanced := g.advanced s.attributes.advanced }
    journal := g.before ++ s.journal.map g.entry }

/-- The message with the other identifier. -/
def message (m : Message) : Message := { m with id := g.id m.id }

/-- The event of the other unit and message. -/
def event (e : Event) : Event := { e with unit := g.unit e.unit, message := g.message e.message }

variable (s : Core) (e : Event)

@[simp] theorem core_notFoundMessage :
    (g.core s).attributes.notFoundMessage = s.attributes.notFoundMessage := rfl

@[simp] theorem core_noPermissionMessage :
    (g.core s).attributes.noPermissionMessage = s.attributes.noPermissionMessage := rfl

@[simp] theorem core_transport : (g.core s).transport = s.transport := rfl

@[simp] theorem core_registry : (g.core s).registry = s.registry := rfl

@[simp] theorem core_levels : (g.core s).levels = s.levels := rfl

@[simp] theorem event_unit : (g.event e).unit = g.unit e.unit := rfl

@[simp] theorem event_author : (g.event e).message.author = e.message.author := rfl

@[simp] theorem event_server : (g.event e).message.server = e.message.server := rfl

@[simp] theorem event_authorId : (g.event e).authorId = e.authorId := rfl

@[simp] theorem event_channel : (g.event e).channel = e.channel := rfl

@[simp] theorem event_file : (g.event e).file = e.file := rfl

@[simp] theorem event_queue : (g.event e).queue = e.queue := rfl

@[simp] theorem event_queuedText : (g.event e).queuedText = e.queuedText := rfl

/-! ## Operations of the core -/

@[simp] theorem record (u : Option Nat) (h : Happening) :
    (g.core s).record (g.unit u) h = g.core (s.record u h) := by
  simp [core, Core.record, entry]

@[simp] theorem log (u : Option Nat) (l : LogEvent) :
    (g.core s).log (g.unit u) l = g.core (s.log u l) := g.record s u _

@[simp] theorem logAll (u : Option Nat) (ls : List LogEvent) :
    (g.core s).logAll (g.unit u) ls = g.core (s.logAll u ls) := by
  induction ls generalizing s with
  | nil => rfl
  | cons l ls ih =>
    simp only [Core.logAll, List.foldl_cons, log] at ih ⊢
    exact ih _

@[simp] theorem send (o : Outgoing) :
    (g.core s).send (g.event e) o = (g.core (s.send e o).1, (s.send e o).2) := by
  simp only [Core.send, core_transport, event_unit, record, event_server]
  split <;> rfl

@[simp] theorem replyAll (ts : List String) :
    (g.core s).replyAll (g.event e) ts = (g.core (s.replyAll e ts).1, (s.replyAll e ts).2) := by
  induction ts generalizing s with
  | nil => rfl
  | cons t ts ih =>
    simp only [Core.replyAll, send, event_channel]
    rcases s.send e (.reply e.channel t) with ⟨s', f | m⟩
    · rfl
    · exact ih s'

@[simp] theorem drainInto (v : Value) :
    (g.core s).drainInto (g.event e) v =
      (g.core (s.drainInto e v).1, g.event (s.drainInto e v).2.1, (s.drainInto e v).2.2) := by
  cases v with
  | sent m => rfl
  | plain v =>
    simp only [Core.drainInto, Event.drainInto, event_unit, event_queue, record, event_queuedText]
    rfl

@[simp] theorem authorise (c : CommandInfo) :
    (g.core s).authorise (g.event e) c = (g.core (s.authorise e c).1, (s.authorise e c).2) := by
  have ha (as : List Setting) (s : Core) :
      as.foldl (fun s a => s.record (g.unit e.unit) (.asked e.authorId a)) (g.core s) =
        g.core (as.foldl (fun s a => s.record e.unit (.asked e.authorId a)) s) := by
    induction as generalizing s with
    | nil => rfl
    | cons a as ih =>
      simp only [List.foldl_cons, record]
      exact ih _
  simp only [Core.authorise, core_levels, core_transport, event_author, event_server, event_channel,
    event_unit, event_authorId, ha]
  split <;> rfl

@[simp] theorem accept (name : Setting) (c : Command) (arguments : List Setting) (chained : Bool) :
    (g.core s).accept (g.event e) name c arguments chained =
      (g.core (s.accept e name c arguments chained).1,
        (s.accept e name c arguments chained).2) := by
  simp only [Core.accept, replyAll, event_unit, record]
  split
  · rfl
  next texts _ => rcases s.replyAll e texts with ⟨s', f | _⟩ <;> rfl
  · rfl

@[simp] theorem turnAway (r : Except Fault (List String)) :
    (g.core s).turnAway (g.event e) r = (g.core (s.turnAway e r).1, (s.turnAway e r).2) := by
  rcases r with f | texts
  · rfl
  · simp only [Core.turnAway, replyAll]
    rcases s.replyAll e texts with ⟨s', f | _⟩ <;> rfl

@[simp] theorem notice (name : Setting) (f : Fault) :
    (g.core s).notice (g.event e) name f =
      (g.core (s.notice e name f).1, (s.notice e name f).2) := by
  simp only [Core.notice, event_unit, event_authorId, log, core_noPermissionMessage, replyAll]
  split
  · split
    · rfl
    next m _ =>
      generalize (s.log e.unit (.noPermissionRaised name e.authorId)).replyAll e [m] = q
      rcases q with ⟨s', x | _⟩ <;> rfl
  · rfl

@[simp] theorem dispatchBound (name : Setting) (c : Command) (arguments : List Setting)
    (chained : Bool) :
    (g.core s).dispatchBound (g.event e) name c arguments chained =
      (g.core (s.dispatchBound e name c arguments chained).1,
        g.event (s.dispatchBound e name c arguments chained).2.1,
        (s.dispatchBound e name c arguments chained).2.2) := by
  simp only [Core.dispatchBound, authorise]
  rcases s.authorise e c.toCommandInfo with ⟨s', f | _ | _⟩
  · rfl
  · simp only [event_unit, event_authorId, log, turnAway]
  · have ha := g.accept s' { e with command := some c.toCommandInfo } name c arguments chained
    exact congrArg (fun q : Core × Verdict => (q.1, g.event { e with command := c.toCommandInfo },
      q.2)) ha

/-- A call of a name. -/
@[simp] theorem dispatch (name : Setting) (arguments : List Setting) (chained : Bool) :
    (g.core s).dispatch (g.event e) name arguments chained =
      (g.core (s.dispatch e name arguments chained).1,
        g.event (s.dispatch e name arguments chained).2.1,
        (s.dispatch e name arguments chained).2.2) := by
  simp only [Core.dispatch, event_unit, log, core_registry, core_notFoundMessage, turnAway,
    dispatchBound]
  split
  · rfl
  · rfl
  next c _ =>
    generalize (s.log e.unit (.commandExecuting name arguments)).dispatchBound e name c arguments
      chained = q
    rcases q with ⟨s', e', d | t | f⟩
    · rfl
    · rfl
    · simp only [notice]

@[simp] theorem withLevels (levels : Except Fault Levels) (l : LogEvent) :
    (g.core s).withLevels (g.event e) levels l =
      (g.core (s.withLevels e levels l).1, g.event (s.withLevels e levels l).2.1,
        (s.withLevels e levels l).2.2) := by
  rcases levels with f | n
  · rfl
  · simp only [Core.withLevels, event_unit, log]
    rfl

/-- A request that is served at once. -/
@[simp] theorem serve (a : Action) :
    (g.core s).serve (g.event e) a =
      (g.core (s.serve e a).1, g.event (s.serve e a).2.1, (s.serve e a).2.2) := by
  cases a with
  | reply t => simp only [Core.serve, event_channel, send]
  | direct t =>
    simp only [Core.serve, event_author, send]
    split <;> rfl
  | file n c => simp only [Core.serve, event_channel, send]
  | append l =>
    simp only [Core.serve, event_unit, record, event_queue]
    rfl
  | drain =>
    simp only [Core.serve, event_unit, record, event_queue]
    rfl
  | setUser id n => simp only [Core.serve, core_levels, withLevels]
  | setRole id n => simp only [Core.serve, core_levels, withLevels]
  | unregister n =>
    simp only [Core.serve, core_registry]
    split <;> rfl
  | _ => rfl

@[simp] theorem deliver (v : Value) :
    (g.core s).deliver (g.event e) v =
      (g.core (s.deliver e v).1, g.event (s.deliver e v).2.1, (s.deliver e v).2.2) := by
  simp only [Core.deliver, drainInto]
  -- From here on only the event behind the queued lines counts.
  generalize s.drainInto e v = q
  obtain ⟨s', e', text⟩ := q
  simp only [event_file, event_channel, send, event_unit]
  rcases e'.file with - | f
  · rcases text with - | t
    · rfl
    · dsimp only
      split
      · rfl
      · rcases s'.send e' (.reply e'.channel t) with ⟨s'', x | m⟩
        · rfl
        · simp only [log]
  · dsimp only
    rcases s'.send e' (.file e'.channel f (.ofText? text)) with ⟨s'', x | m⟩
    · rfl
    · simp only [log]

@[simp] theorem programOfParsed (p : Parsed) :
    (g.core s).programOfParsed (g.event e) p =
      (g.core (s.programOfParsed e p).1, (s.programOfParsed e p).2) := by
  simp only [Core.programOfParsed, event_unit, logAll, log]
  split <;> rfl

/-- A chain text is read alike in the same mode. -/
theorem programOf (text : String) (h : g.advanced s.attributes.advanced = s.attributes.advanced) :
    (g.core s).programOf (g.event e) text =
      (g.core (s.programOf e text).1, (s.programOf e text).2) := by
  have hm : (g.core s).attributes.advanced = s.attributes.advanced := h
  have hp : parseChain (g.core s).attributes text = parseChain s.attributes text := rfl
  simp only [Core.programOf, hm, hp, programOfParsed]
  split <;> rfl

/-! ## Runs -/

/-- The run for the other event. -/
def run (r : Run) : Run := { r with event := g.event r.event }

/-- What the run for the other event comes to. -/
def progress : Progress → Progress
  | .on r => .on (g.run r)
  | .blocked gate r => .blocked gate (g.run r)
  | .yielded r => .yielded (g.run r)
  | .ended e v => .ended (g.event e) v

@[simp] theorem leave (f : Frame) (fs : List Frame) (result : Except Fault Value) :
    Run.leave (g.core s) (g.event e) f fs result =
      (g.core (Run.leave s e f fs result).1, g.run (Run.leave s e f fs result).2) := by
  rcases result with x | v
  · simp only [Run.leave, notice]
    rfl
  · simp only [Run.leave, drainInto]
    rfl

/-- A program may be another for the message of another identifier. Where it is the same, it is
entered alike. -/
theorem enter (r : Run) (e : Event) (name : Setting) (c : Command) (arguments : List Setting)
    (next : Except Fault (Option String) → Program Value)
    (h : c.handler (g.message e.message) = c.handler e.message) :
    (g.run r).enter (g.event e) name c arguments next =
      g.progress (r.enter e name c arguments next) := by
  have h' : c.handler (g.event e).message = c.handler e.message := h
  simp only [Run.enter, h']
  cases c.manner <;> rfl

/-- **A request of a run** is served alike, unless a program looks at the identifier. -/
theorem step (opened : Setting → Bool) (r : Run)
    (h : ∀ b ∈ s.registry.bindings,
      b.command.handler (g.message r.event.message) = b.command.handler r.event.message) :
    (g.run r).step opened (g.core s) =
      (g.core (r.step opened s).1, g.progress (r.step opened s).2) := by
  obtain ⟨e, p, m, fs⟩ := r
  cases p with
  | act a next =>
    simp only [Run.step, run, serve]
    rfl
  | wait gate next =>
    simp only [Run.step, run]
    split <;> rfl
  | done result =>
    rcases fs with - | ⟨f, fs⟩
    · rfl
    · simp only [Run.step, run, leave]
      rfl
  | call name arguments chained next =>
    simp only [Run.step, run, dispatch]
    have hd := @Core.dispatch_enter s e name arguments chained
    generalize s.dispatch e name arguments chained = q at hd ⊢
    rcases q with ⟨s', e', c | t | f⟩
    · -- A command that is entered is one of the registry, so that its program does not look at the
      -- identifier.
      obtain ⟨hc, he⟩ := hd rfl
      obtain ⟨-, rfl, -⟩ := Prod.mk.inj he |>.imp_right Prod.mk.inj
      obtain ⟨b, hb, rfl⟩ := Registry.mem_of_get hc.bound
      have hn := g.enter ⟨e, .call name arguments chained next, m, fs⟩
        { e with command := some b.command.toCommandInfo } name b.command arguments next (h b hb)
      exact congrArg (g.core s', ·) hn
    · rfl
    · rfl

/-- Requests one after another are served alike where the messages stay as they are. -/
theorem advance (hm : ∀ m, g.message m = m) (opened : Setting → Bool) (n : Nat) (r : Run) :
    (g.run r).advance opened n (g.core s) =
      (g.core (r.advance opened n s).1, g.progress (r.advance opened n s).2) := by
  induction n generalizing s r with
  | zero => rfl
  | succ n ih =>
    rw [Run.advance, Run.advance, g.step s opened r fun b _ => by rw [hm]]
    rcases r.step opened s with ⟨s', r' | ⟨gate, r'⟩ | r' | ⟨e, v⟩⟩
    · exact ih s' r'
    · rfl
    · rfl
    · rfl

end Guise

end ChatCommands
