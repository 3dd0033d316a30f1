import ChatCommands.Proofs.Dispatch.Conversation
import ChatCommands.Proofs.Dispatch.Telling

/-!
# Queued lines

A program may queue lines, which go in front of an answer that comes later, or are dropped. What
the journal tells of them is exact: a request queues a line, takes all lines out, or has nothing to
do with the queue. Calls are among the latter, whatever comes of them, and so is a program that ends
with a message it has sent.

What is left in the queue when a run is at its end goes into the final answer, which is sent at most
once. A run of a chain text ends with a text or with nothing, never with a message, so that its
final answer always takes the lines.

## Main definitions

* `Core.queueing`: what the journal tells of the queue of a unit
* `Core.queuedLines`, `Core.takenLines`: the lines that were queued, and those that were taken out
* `Run.Handles`: what a request does to the queue
* `Event.finalCall`, `Core.Delivers`: what the final answer sends, and what becomes of the queue
* `Program.EndsInText`: a program that ends with no message

## Main results

* `Run.step_handles`: every request handles the queue exactly
* `Core.deliver_delivers`: the final answer takes the queue and is sent at most once
* `Core.programOf_endsInText`: the program of a chain text ends with no message
-/

namespace ChatCommands

namespace Happening

/-- Whether a line was queued, or lines were taken out of the queue. -/
def isQueueing : Happening → Bool
  | queued _ => true
  | merged _ => true
  | dropped _ => true
  | _ => false

/-- The line that was queued, if one was. -/
def queuedLine : Happening → List String
  | queued l => [l]
  | _ => []

/-- The lines that were taken out of the queue: put in front of an answer, or dropped. -/
def takenLines : Happening → List String
  | merged ls => ls
  | dropped ls => ls
  | _ => []

end Happening

namespace Core

variable {s s' : Core} {u : Option Nat}

/-- What the journal tells of the queue of a unit. -/
def queueing (s : Core) (u : Option Nat) : List Happening := (s.told u).filter Happening.isQueueing

/-- The lines that were queued for a unit, in order. -/
def queuedLines (s : Core) (u : Option Nat) : List String :=
  (s.queueing u).flatMap Happening.queuedLine

/-- The lines that were taken out of the queue of a unit, in order. -/
def takenLines (s : Core) (u : Option Nat) : List String :=
  (s.queueing u).flatMap Happening.takenLines

/-- What has nothing to do with the queue leaves no trace of it. -/
theorem Tells.queueing (h : s.Tells (fun x => !x.isQueueing) u s') (v : Option Nat) :
    s'.queueing v = s.queueing v := by
  obtain ⟨l, hl, hp⟩ := h
  have hnone : l.filter Happening.isQueueing = [] := by
    rw [List.filter_eq_nil_iff]
    intro x hx
    simpa using hp x hx
  -- Of the same unit nothing new counts, and of another one there is nothing new.
  by_cases hv : u = v
  · subst hv
    rw [Core.queueing, told_of_journal hl, List.filter_append, hnone, List.append_nil]
    rfl
  · rw [Core.queueing, told_of_journal_ne hv hl]
    rfl

theorem queueing_record (s : Core) (u : Option Nat) {h : Happening} (hq : h.isQueueing = true) :
    (s.record u h).queueing u = s.queueing u ++ [h] := by
  rw [queueing, told_record, List.filter_append, List.filter_cons_of_pos hq, List.filter_nil]
  rfl

/-! ## Requests that leave the queue alone -/

variable (s) (e : Event)

theorem isQueueing_of_isGate {h : Happening} (hg : h.isGate = true) : (!h.isQueueing) = true := by
  cases h with
  | queued l => cases hg
  | merged l => cases hg
  | dropped l => cases hg
  | _ => rfl

/-- The gate tells nothing of the queue, whatever comes of a call. -/
theorem dispatch_spares (name : Setting) (arguments : List Setting) (chained : Bool) :
    s.Tells (fun x => !x.isQueueing) e.unit (s.dispatch e name arguments chained).1 :=
  (Tells.log s rfl).trans
    (s.dispatch_tells e ⟨fun _ => isQueueing_of_isGate, rfl, fun _ _ => rfl, rfl⟩ arguments chained)

/-- A call changes nothing of an event but the command that it knows. -/
theorem dispatch_event (name : Setting) (arguments : List Setting) (chained : Bool) :
    ∃ c, (s.dispatch e name arguments chained).2.1 = { e with command := c } := by
  have hb (s : Core) (c : Command) :
      ∃ d, (s.dispatchBound e name c arguments chained).2.1 = { e with command := d } := by
    unfold dispatchBound
    split
    · exact ⟨e.command, rfl⟩
    · exact ⟨_, rfl⟩
    · exact ⟨e.command, rfl⟩
  unfold dispatch
  dsimp only
  split
  · exact ⟨e.command, rfl⟩
  · exact ⟨e.command, rfl⟩
  next c _ =>
    have h := hb (s.log e.unit (.commandExecuting name arguments)) c
    generalize dispatchBound _ e name c arguments chained = q at h ⊢
    rcases q with ⟨s', e', d | t | f⟩ <;> exact h

theorem notice_spares (name : Setting) (f : Fault) :
    s.Tells (fun x => !x.isQueueing) e.unit (s.notice e name f).1 :=
  s.notice_tells e (fun _ => isQueueing_of_isGate) rfl f

end Core

/-- A request that has nothing to do with the queue. -/
def Action.sparesQueue : Action → Bool
  | append _ => false
  | drain => false
  | _ => true

/-- A program whose next request has nothing to do with the queue. Only a program that ends with a
value, which is no message, hands the queue on. -/
def Program.sparesQueue : Program Value → Bool
  | act a _ => a.sparesQueue
  | done (.ok (.plain _)) => false
  | _ => true

theorem Core.serve_spares (s : Core) (e : Event) {a : Action} (ha : a.sparesQueue = true) :
    s.Tells (fun x => !x.isQueueing) e.unit (s.serve e a).1 ∧
      (s.serve e a).2.1.queue = e.queue := by
  constructor
  · refine s.serve_tells_of e ?_ ?_ ?_ (fun _ _ => rfl) fun _ _ => rfl
    · intro h hs
      cases h with
      | sent o => rfl
      | unsent o => rfl
      | _ => cases hs
    · rintro l rfl
      cases ha
    · rintro rfl
      cases ha
  · have hw (levels : Except Fault Levels) (l : LogEvent) :
        (s.withLevels e levels l).2.1.queue = e.queue := by
      cases levels <;> rfl
    cases a with
    | append l => cases ha
    | drain => cases ha
    | direct t =>
      simp only [serve]
      split <;> rfl
    | setUser id n => exact hw _ _
    | setRole id n => exact hw _ _
    | unregister n =>
      simp only [serve]
      split <;> rfl
    | _ => rfl

/-! ## Requests of a run -/

/-- What a request does to the queue of a run, and tells of it: it queues a line, drops the lines,
or puts them in front of the answer that the program below hears; or it has nothing to do with the
queue. -/
inductive Run.Handles (s : Core) (r : Run) (s' : Core) (r' : Run) : Prop where
  | queues {line : String} {next : Unit → Program Value} (hp : r.program = .act (.append line) next)
      (ht : s'.queueing r.event.unit = s.queueing r.event.unit ++ [.queued line])
      (hq : r'.event.queue = r.event.queue ++ [line])
  | drops {next : Unit → Program Value} (hp : r.program = .act .drain next)
      (ht : s'.queueing r.event.unit = s.queueing r.event.unit ++ [.dropped r.event.queue])
      (hq : r'.event.queue = [])
  | merges {v : Setting} {f : Frame} {fs : List Frame} (hp : r.program = .done (.ok (.plain v)))
      (hf : r.frames = f :: fs)
      (ht : s'.queueing r.event.unit = s.queueing r.event.unit ++ [.merged r.event.queue])
      (hq : r'.event.queue = [])
      (hr : r'.program =
        f.resume (.ok (some (r.event.queuedText ++ (Value.plain v).shown))))
      (hfs : r'.frames = fs)
  | spares (hp : r.program.sparesQueue = true)
      (ht : s'.queueing r.event.unit = s.queueing r.event.unit)
      (hq : r'.event.queue = r.event.queue)

/-- **Every request** handles the queue exactly. -/
theorem Run.step_handles {opened : Setting → Bool} {s : Core} {r r' : Run}
    (h : (r.step opened s).2.rest = some r') : r.Handles s (r.step opened s).1 r' := by
  obtain ⟨e, p, m, fs⟩ := r
  cases p with
  | act a next =>
    obtain rfl := Option.some.inj h
    cases ha : a.sparesQueue with
    | true =>
      obtain ⟨ht, hq⟩ := s.serve_spares e ha
      exact .spares ha (ht.queueing _) hq
    | false =>
      cases a with
      | append l => exact .queues rfl (s.queueing_record _ rfl) rfl
      | drain => exact .drops rfl (s.queueing_record _ rfl) rfl
      | _ => cases ha
  | wait g next =>
    simp only [step] at h ⊢
    split at h
    all_goals
      obtain rfl := Option.some.inj h
      exact .spares rfl (by split <;> rfl) rfl
  | call name arguments chained next =>
    -- The gate leaves the queue alone, whether the command is entered or not.
    have ht := s.dispatch_spares e name arguments chained
    have hqueue : (s.dispatch e name arguments chained).2.1.queue = e.queue := by
      obtain ⟨c, he⟩ := s.dispatch_event e name arguments chained
      rw [he]
    simp only [step] at h ⊢
    generalize s.dispatch e name arguments chained = q at h ht hqueue ⊢
    rcases q with ⟨s', e', d | t | f⟩
    · obtain ⟨r'', hr, -, hev, -⟩ := enter_rest ⟨e, .call name arguments chained next, m, fs⟩ e'
        name d arguments next
      obtain rfl := Option.some.inj (hr.symm.trans h)
      exact .spares rfl (ht.queueing _) ((congrArg Event.queue hev).trans hqueue)
    all_goals
      obtain rfl := Option.some.inj h
      exact .spares rfl (ht.queueing _) hqueue
  | done result =>
    rcases fs with - | ⟨f, fs⟩
    · cases h
    · -- A program that is called answers. Only a value that is no message takes the lines along.
      obtain rfl := Option.some.inj h
      rcases result with x | v | sent
      · exact .spares rfl ((s.notice_spares e f.called x).queueing _) rfl
      · exact .merges rfl rfl (s.queueing_record _ rfl) rfl rfl rfl
      · exact .spares rfl rfl rfl

/-! ## The final answer -/

/-- What is sent for the final answer, if anything: the file with the text as its caption, or else
the text unless it is empty. -/
def Event.finalCall (e : Event) (text : String) : Option Outgoing :=
  match e.file with
  | some f => some (.file e.channel f (.text text))
  | none => if text = "" then none else some (.reply e.channel (.text text))

namespace Core

/-- What becomes of a sending. -/
def attempt (s : Core) (o : Outgoing) : Happening :=
  match s.transport.deliver o with
  | .ok () => .sent o
  | .error _ => .unsent o

/-- The final answer of a text, or of nothing: the queued lines go in front of it, and then it is
sent with one call at most. Behind that there is nothing but a report. -/
structure Delivers (s : Core) (e : Event) (t : Option String) (s' : Core) (e' : Event) : Prop where
  event : e' = { e with queue := [] }
  told : ∃ ls : List LogEvent, s'.told e.unit = s.told e.unit ++ .merged e.queue ::
    ((e.finalCall (e.queuedText ++ t.getD "")).toList.map s.attempt ++ ls.map .logged)

variable (s : Core) (e : Event)

theorem send_fst (o : Outgoing) : (s.send e o).1 = s.record e.unit (s.attempt o) := by
  rcases h : s.transport.deliver o with f | _ <;> simp only [send, attempt, h]

theorem shown_ofText? (t : Option String) : (Value.ofText? t).shown = t.getD "" := by
  cases t <;> rfl

/-- **The final answer** takes the queue and is sent at most once. -/
theorem deliver_delivers (t : Option String) :
    s.Delivers e t (s.deliver e (.ofText? t)).1 (s.deliver e (.ofText? t)).2.1 := by
  let text := e.queuedText ++ t.getD ""
  let s₁ := s.record e.unit (.merged e.queue)
  let e₁ : Event := { e with queue := [] }
  have hdrain : s.drainInto e (.ofText? t) = (s₁, e₁, some text) := by
    show (s₁, e₁, some (e.queuedText ++ (Value.ofText? t).shown)) = _
    rw [shown_ofText?]
  have hs₁ : s₁.told e.unit = s.told e.unit ++ [.merged e.queue] := s.told_record _ _
  -- What is sent is told right behind the lines.
  have hsend (o : Outgoing) : (s₁.send e₁ o).1.told e.unit =
      s.told e.unit ++ .merged e.queue :: [s.attempt o] := by
    rw [send_fst, show e₁.unit = e.unit from rfl, told_record, hs₁, List.append_assoc]
    rfl
  -- The report of it, if there is one, comes last.
  have hreported {o : Outgoing} (ho : e.finalCall text = some o) {s₂ : Core}
      (hs : s₂ = (s₁.send e₁ o).1) (l : LogEvent) :
      s.Delivers e t s₂ e₁ ∧ s.Delivers e t (s₂.log e₁.unit l) e₁ := by
    subst hs
    constructor
    · refine ⟨rfl, [], ?_⟩
      rw [hsend, show e.queuedText ++ t.getD "" = text from rfl, ho]
      rfl
    · refine ⟨rfl, [l], ?_⟩
      rw [log, show e₁.unit = e.unit from rfl, told_record, hsend, List.append_assoc,
        show e.queuedText ++ t.getD "" = text from rfl, ho]
      rfl
  unfold deliver
  rw [hdrain]
  rcases hfile : e.file with - | f
  · simp only [show e₁.file = none from hfile]
    by_cases htext : text = ""
    · rw [if_pos htext]
      refine ⟨rfl, [], ?_⟩
      rw [hs₁, Event.finalCall, hfile, if_pos htext]
      rfl
    · rw [if_neg htext]
      have hcall : e.finalCall text = some (.reply e.channel (.text text)) := by
        rw [Event.finalCall, hfile, if_neg htext]
      rcases hq : s₁.send e₁ (.reply e₁.channel text) with ⟨s₂, x | m⟩
      · exact (hreported hcall (congrArg Prod.fst hq).symm (.fileDelivered e.channel)).1
      · exact (hreported hcall (congrArg Prod.fst hq).symm _).2
  · simp only [show e₁.file = some f from hfile]
    have hcall : e.finalCall text = some (.file e.channel f (.text text)) := by
      rw [Event.finalCall, hfile]
    rcases hq : s₁.send e₁ (.file e₁.channel f (.ofText? (some text))) with ⟨s₂, x | m⟩
    · exact (hreported hcall (congrArg Prod.fst hq).symm (.fileDelivered e.channel)).1
    · exact (hreported hcall (congrArg Prod.fst hq).symm _).2

end Core

/-! ## Runs that end in texts -/

/-- A program that ends with a text or with nothing, if it does not end with a fault. -/
def Program.EndsInText : Program Value → Prop
  | done result => ∀ v, result = .ok v → ∃ t, v = .ofText? t
  | act _ next => ∀ r, (next r).EndsInText
  | call _ _ _ next => ∀ a, (next a).EndsInText
  | wait _ next => next.EndsInText

/-- What comes of a text, or of nothing, as a value. -/
theorem Program.bind_ofText?_endsInText (p : Program (Option String)) :
    (p >>= fun t => pure (Value.ofText? t)).EndsInText := by
  show (p.bind fun t => pure (Value.ofText? t)).EndsInText
  induction p with
  | done result =>
    rcases result with f | t
    · nofun
    · rintro v ⟨⟩
      exact ⟨t, rfl⟩
  | act a next ih => exact ih
  | call name arguments chained next ih => exact ih
  | wait g next ih => exact ih

/-- **The program of a chain text** ends with no message. -/
theorem Core.programOf_endsInText (s : Core) (e : Event) (text : String) :
    (s.programOf e text).2.EndsInText := by
  unfold programOf
  split
  · unfold programOfParsed
    rcases (parseChain s.attributes text).chain with f | c
    · nofun
    · exact Program.bind_ofText?_endsInText _
  · exact Program.bind_ofText?_endsInText _

/-- The lowest program of a run ends with no message. -/
def Base.EndsInText : Base → Prop
  | .ready p => p.EndsInText
  | .waiting next => ∀ a, (next a).EndsInText

theorem Base.Goes.endsInText {b b' : Base} {u : List Talk} (h : Goes b u b') (hb : b.EndsInText) :
    b'.EndsInText := by
  cases h with
  | act a next reply => exact hb reply
  | wait g next => exact hb
  | call name arguments chained next => exact hb
  | callAnswered name arguments chained next a => exact hb a
  | above next => exact hb
  | answer next a => exact hb a

end ChatCommands
