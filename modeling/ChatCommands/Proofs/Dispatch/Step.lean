import ChatCommands.Dispatch.Run
import ChatCommands.Proofs.Dispatch.Gate

/-!
# Where programs of commands begin

A request of a run is the beginning of a command's program only if it is a call that enters the
command. All others begin nothing, and the programs that run or wait after them did so before.

## Main definitions

* `Progress.rest`: the run that goes on
* `Run.Enters`: a request that begins the program of a command

## Main results

* `Run.step_enters`: a request enters a command or begins nothing
* `Run.step_message`: the message that is answered stays the same
-/

namespace ChatCommands

/-- The run that goes on, if it has not ended. -/
def Progress.rest : Progress → Option Run
  | on r => some r
  | blocked _ r => some r
  | yielded r => some r
  | ended _ _ => none

/-! ## Requests that begin no program -/

namespace Core

variable (s : Core) (e : Event)

theorem serve_beginnings (a : Action) : (s.serve e a).1.beginnings = s.beginnings := by
  have hw (levels : Except Fault Levels) (l : LogEvent) :
      (s.withLevels e levels l).1.beginnings = s.beginnings := by
    cases levels with
    | ok l' => exact (s.log_keeps e.unit l).beginnings
    | error f => rfl
  cases a with
  | reply t => exact (s.send_keeps e (.reply e.channel t)).beginnings
  | direct t =>
    simp only [serve]
    split
    · rfl
    next u _ => exact (s.send_keeps e (.direct u.id t)).beginnings
  | file n c => exact (s.send_keeps e (.file e.channel n c)).beginnings
  | append l => exact (s.record_keeps e.unit rfl).beginnings
  | drain => exact (s.record_keeps e.unit rfl).beginnings
  | setUser id n => exact hw _ _
  | setRole id n => exact hw _ _
  | unregister n =>
    simp only [serve]
    split <;> rfl
  | _ => rfl

theorem deliver_keeps (v : Value) : s.Keeps (s.deliver e v).1 := by
  have hd := s.drainInto_keeps e v
  unfold deliver
  generalize s.drainInto e v = p at hd ⊢
  obtain ⟨s₁, e₁, text⟩ := p
  have hs (o : Outgoing) := hd.trans (s₁.send_keeps e₁ o)
  rcases hf : e₁.file with - | f
  · rcases text with - | t
    · simpa only [hf] using hd
    · have ht := hs (.reply e₁.channel t)
      simp only [hf]
      split
      · exact hd
      · generalize s₁.send e₁ (.reply e₁.channel t) = q at ht ⊢
        rcases q with ⟨s₂, g | m⟩
        · exact ht
        · exact ht.trans (log_keeps _ _ _)
  · have ht := hs (.file e₁.channel f (.ofText? text))
    simp only [hf]
    generalize s₁.send e₁ (.file e₁.channel f (.ofText? text)) = q at ht ⊢
    rcases q with ⟨s₂, g | m⟩
    · exact ht
    · exact ht.trans (log_keeps _ _ _)

theorem programOfParsed_keeps (p : Parsed) : s.Keeps (s.programOfParsed e p).1 := by
  have h := s.logAll_keeps e.unit p.events
  unfold programOfParsed
  rcases p.chain with f | c
  · exact h
  · exact h.trans (log_keeps _ _ _)

theorem programOf_keeps (text : String) : s.Keeps (s.programOf e text).1 := by
  unfold programOf
  split
  · exact s.programOfParsed_keeps e _
  · exact .refl s

end Core

namespace Run

theorem leave_keeps (s : Core) (e : Event) (f : Frame) (fs : List Frame)
    (result : Except Fault Value) : s.Keeps (leave s e f fs result).1 := by
  rcases result with x | v
  · exact s.notice_keeps e f.called x
  · exact s.drainInto_keeps e v

theorem leave_frames (s : Core) (e : Event) (f : Frame) (fs : List Frame)
    (result : Except Fault Value) : (leave s e f fs result).2.frames = fs := by
  cases result <;> rfl

/-! ## Requests that enter a command -/

/-- A request that begins the program of a command: a call, every condition of the command holding
in the core that serves it. Nothing that the units share changes, and nothing happens before the
program begins but the questions about actions. -/
structure Enters (s : Core) (r : Run) (c : Command) (s' : Core) (r' : Run) : Prop where
  call : ∃ name arguments chained next, r.program = .call name arguments chained next ∧
    Cleared s r.event name c arguments chained ∧
    s'.journal = s.journal ++ ⟨r.event.unit, .logged (.commandExecuting name arguments)⟩ ::
      (c.requiredPermissions.map fun a => ⟨r.event.unit, .asked r.event.authorId a⟩) ++
        [⟨r.event.unit, .began name c.registration arguments⟩] ∧
    r'.program = c.handler r.event.message arguments ∧
    r'.frames = ⟨name, r.manner, next⟩ :: r.frames
  tables : s'.tables = s.tables
  event : r'.event = { r.event with command := some c.toCommandInfo }
  /-- The program goes on at once, unless it was handed to a thread. -/
  atOnce : ∃ opened g, r.step opened s = (s', g) ∧ g.rest = some r' ∧
    (c.manner = .inline → g = .on r')

theorem enter_rest (r : Run) (e : Event) (name : Setting) (c : Command) (arguments : List Setting)
    (next : Except Fault (Option String) → Program Value) :
    ∃ r' : Run, (r.enter e name c arguments next).rest = some r' ∧
      (c.manner = .inline → r.enter e name c arguments next = .on r') ∧ r'.event = e ∧
      r'.program = c.handler e.message arguments ∧
      r'.frames = ⟨name, r.manner, next⟩ :: r.frames := by
  simp only [enter]
  cases c.manner
  · exact ⟨_, rfl, fun _ => rfl, rfl, rfl, rfl⟩
  · exact ⟨_, rfl, nofun, rfl, rfl, rfl⟩
  · exact ⟨_, rfl, nofun, rfl, rfl, rfl⟩

/-- **A request enters a command or begins nothing**: then the programs that wait after it did so
before it. -/
theorem step_enters (opened : Setting → Bool) (s : Core) (r : Run) :
    (∃ c r', (r.step opened s).2.rest = some r' ∧ r.Enters s c (r.step opened s).1 r') ∨
      ((r.step opened s).1.beginnings = s.beginnings ∧
        ∀ r', (r.step opened s).2.rest = some r' → r'.frames <:+ r.frames) := by
  obtain ⟨e, p, m, fs⟩ := r
  cases p with
  | act a next =>
    refine .inr ⟨s.serve_beginnings e a, ?_⟩
    intro r' hr
    obtain rfl := Option.some.inj hr
    exact List.suffix_refl _
  | wait g next =>
    refine .inr ?_
    simp only [step]
    split
    all_goals
      refine ⟨rfl, ?_⟩
      intro r' hr
      obtain rfl := Option.some.inj hr
      exact List.suffix_refl _
  | done result =>
    refine .inr ?_
    rcases fs with - | ⟨f, fs⟩
    · exact ⟨rfl, fun r' hr => nomatch hr⟩
    · refine ⟨(leave_keeps s e f fs result).beginnings, ?_⟩
      intro r' hr
      obtain rfl := Option.some.inj hr
      exact (leave_frames s e f fs result).symm ▸ List.suffix_cons f fs
  | call name arguments chained next =>
    rcases hd : s.dispatch e name arguments chained with ⟨s', e', c | t | f⟩
    · -- The verdict alone tells the core and the event after the call.
      obtain ⟨hc, he⟩ := Core.dispatch_enter (congrArg (·.2.2) hd)
      obtain ⟨rfl, rfl, -⟩ := Prod.mk.inj (hd.symm.trans he) |>.imp_right Prod.mk.inj
      left
      obtain ⟨r', hr, hi, hev, hpr, hfr⟩ := enter_rest
        ⟨e, .call name arguments chained next, m, fs⟩ { e with command := some c.toCommandInfo }
        name c arguments next
      have hs : step opened s ⟨e, .call name arguments chained next, m, fs⟩ =
          (s.entered e name c arguments, enter ⟨e, .call name arguments chained next, m, fs⟩
            { e with command := some c.toCommandInfo } name c arguments next) := by
        simp only [step, hd]
      refine ⟨c, r', by rw [hs]; exact hr, ?_⟩
      rw [hs]
      exact ⟨⟨name, arguments, chained, next, rfl, hc, Core.entered_journal, hpr, hfr⟩,
        Core.entered_tables, hev, opened, _, hs, hr, hi⟩
    all_goals
      refine .inr ?_
      have hk := @Core.dispatch_keeps s e name arguments chained
      rw [hd] at hk
      simp only [step, hd]
      refine ⟨(hk nofun).beginnings, ?_⟩
      intro r' hr
      obtain rfl := Option.some.inj hr
      exact List.suffix_refl _

/-- A run ends where its lowest program is at its end, and changes nothing then. -/
theorem step_ended {opened : Setting → Bool} {s s' : Core} {r : Run} {e : Event}
    {v : Except Fault Value} (h : r.step opened s = (s', .ended e v)) :
    s' = s ∧ r = ⟨e, .done v, r.manner, []⟩ := by
  obtain ⟨e', p, m, fs⟩ := r
  cases p with
  | act a next => cases (Prod.mk.inj h).2
  | wait g next =>
    simp only [step] at h
    split at h <;> cases (Prod.mk.inj h).2
  | call name arguments chained next =>
    simp only [step] at h
    split at h
    · simp only [enter] at h
      split at h <;> cases (Prod.mk.inj h).2
    · cases (Prod.mk.inj h).2
    · cases (Prod.mk.inj h).2
  | done result =>
    rcases fs with - | ⟨f, fs⟩
    · obtain ⟨hs, hend⟩ := Prod.mk.inj h
      obtain ⟨rfl, rfl⟩ := Progress.ended.inj hend
      exact ⟨hs.symm, rfl⟩
    · cases (Prod.mk.inj h).2

end Run

/-! ## What the units share -/

/-- Only a request that is served at once can change what the units share. -/
theorem Run.step_tables (opened : Setting → Bool) (s : Core) (r : Run) :
    (∃ a next, r.program = .act a next) ∨ (r.step opened s).1.tables = s.tables := by
  obtain ⟨e, p, m, fs⟩ := r
  cases p with
  | act a next => exact .inl ⟨a, next, rfl⟩
  | wait g next =>
    right
    simp only [step]
    split <;> rfl
  | done result =>
    right
    rcases fs with - | ⟨f, fs⟩
    · rfl
    · exact (leave_keeps s e f fs result).tables
  | call name arguments chained next =>
    right
    have hk := @Core.dispatch_keeps s e name arguments chained
    rcases hd : s.dispatch e name arguments chained with ⟨s', e', c | t | f⟩
    · obtain ⟨-, he⟩ := Core.dispatch_enter (congrArg (·.2.2) hd)
      rw [hd] at he
      simp only [step, hd, (Prod.mk.inj he).1]
      exact Core.entered_tables
    all_goals
      rw [hd] at hk
      simp only [step, hd]
      exact (hk nofun).tables

/-! ## The message of a run -/

namespace Core

variable (s : Core) (e : Event)

theorem drainInto_message (v : Value) : (s.drainInto e v).2.1.message = e.message := by
  cases v <;> rfl

theorem serve_message (a : Action) : (s.serve e a).2.1.message = e.message := by
  have hw (levels : Except Fault Levels) (l : LogEvent) :
      (s.withLevels e levels l).2.1.message = e.message := by
    cases levels <;> rfl
  cases a with
  | direct t =>
    simp only [serve]
    split <;> rfl
  | setUser id n => exact hw _ _
  | setRole id n => exact hw _ _
  | unregister n =>
    simp only [serve]
    split <;> rfl
  | _ => rfl

theorem dispatch_message (name : Setting) (arguments : List Setting) (chained : Bool) :
    (s.dispatch e name arguments chained).2.1.message = e.message := by
  have hb (s : Core) (c : Command) :
      (s.dispatchBound e name c arguments chained).2.1.message = e.message := by
    unfold dispatchBound
    split <;> rfl
  unfold dispatch
  dsimp only
  split
  · rfl
  · rfl
  next c _ =>
    have h := hb (s.log e.unit (.commandExecuting name arguments)) c
    generalize dispatchBound _ e name c arguments chained = q at h ⊢
    rcases q with ⟨s', e', d | t | f⟩ <;> exact h

end Core

/-- A run answers the same message all the time. -/
theorem Run.step_message {opened : Setting → Bool} {s : Core} {r r' : Run}
    (h : (r.step opened s).2.rest = some r') : r'.event.message = r.event.message := by
  obtain ⟨e, p, m, fs⟩ := r
  cases p with
  | act a next =>
    obtain rfl := Option.some.inj h
    exact s.serve_message e a
  | wait gate next =>
    simp only [step] at h
    split at h
    all_goals
      obtain rfl := Option.some.inj h
      rfl
  | done result =>
    rcases fs with - | ⟨f, fs⟩
    · cases h
    · obtain rfl := Option.some.inj h
      cases result with
      | ok v => exact s.drainInto_message e v
      | error x => rfl
  | call name arguments chained next =>
    have hm := s.dispatch_message e name arguments chained
    simp only [step] at h
    generalize s.dispatch e name arguments chained = q at h hm
    rcases q with ⟨s', e', c | t | f⟩
    · obtain ⟨r'', hr, -, he, -⟩ := enter_rest ⟨e, .call name arguments chained next, m, fs⟩ e' name
        c arguments next
      obtain rfl := Option.some.inj (hr.symm.trans h)
      exact (congrArg Event.message he).trans hm
    all_goals
      obtain rfl := Option.some.inj h
      exact hm

end ChatCommands
