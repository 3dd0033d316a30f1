import ChatCommands.Proofs.Bot.Turns
import ChatCommands.Proofs.Bot.Undisturbed

/-!
# What happens at a bot, one thing at a time

An operation of a bot may give many units their turns. Here it is taken apart into steps: a unit has
its turn, a unit is enrolled, a gate is opened, a cancellation is asked for, or something happens
that is no affair of any unit. A unit sees of a step either its own turn or hardly anything, since
the journal tells of nobody but the one who acts.

## Main definitions

* `Bot.Tick`, `Bot.Step`: a single thing that happens at a bot, administration left out or not
* `Bot.Acts`: the operations of a bot
* `Bot.Receives`: what comes of a message
* `Bot.Reached`: bots that can be come to from before their first units
* `Task.Meanwhile`, `Bot.Life`: what a unit sees of a step

## Main results

* `Bot.receives`: a message triggers nothing, or becomes a unit
* `Bot.acts_steps`: every operation is a sequence of steps
* `Bot.Step.life`: a unit has its turn, or hardly anything changes for it
-/

namespace ChatCommands

open Relation (ReflTransGen)

/-! ## Single steps -/

/-- Something happens that is told of no unit, and that jobs may do. -/
structure Core.Aside (s s' : Core) : Prop where
  tells : s.Tells (fun _ => true) none s'
  later : s.Later s'

namespace Bot

/-- The name of the unit that comes next. -/
def nextName (b : Bot) : String := "ct-" ++ toString (b.units.counter + 1)

/-- A new unit for a chain text. -/
def enrol (b : Bot) (text : String) (m : Message) : Bot :=
  let p := b.units.spawn botHost b.core
    (.chain text { unit := some b.units.units.length, message := m }) .null
  { b with core := p.1, units := p.2.1 }

/-- The bot with these units in line for their turns. -/
def withDue (b : Bot) (due : List Nat) : Bot := { b with units := { b.units with due := due } }

/-- The bot without track of units that have ended. -/
def untrack (b : Bot) : Bot := { b with units := b.units.untrack }

/-- A single thing that happens at a bot, administration left out. -/
inductive Tick (b : Bot) : Bot → Prop where
  /-- A unit has its turn, which it may have stood in line for. -/
  | turn (i : Nat) (due : List Nat) (h : due = b.units.due ∨ b.units.due = i :: due) :
    Tick b ((b.withDue due).turn i)
  | enrol (text : String) (m : Message) : Tick b (b.enrol text m)
  | release (gate : Setting) : Tick b { b with units := b.units.release gate }
  | cancel (i : Nat) : Tick b (b.cancel i).1
  /-- Units that have ended are not tracked any more. -/
  | untrack : Tick b b.untrack
  | aside {s : Core} (h : b.core.Aside s) : Tick b { b with core := s }

/-- A single thing that happens at a bot. -/
inductive Step (b : Bot) : Bot → Prop where
  | tick {b' : Bot} (h : b.Tick b') : Step b b'
  | manage {b' : Bot} (h : b.Manages b') : Step b b'

/-- The operations of a bot, those included that ask nobody for leave: commands that are called
whatever their author may do, and answers that are sent for an event made by hand. -/
inductive Acts (b : Bot) : Bot → Prop where
  | does {b' : Bot} (h : b.Does b') : Acts b b'
  | call {e : Event} (name arguments chained : Setting) (h : e.unit = none) :
    Acts b (b.call e name arguments chained).1
  | deliver {e : Event} (v : Value) (h : e.unit = none) : Acts b (b.deliver e v).1

/-- A bot before its first unit, of which the journal cannot tell anything yet. -/
structure Unused (b : Bot) : Prop where
  units : b.units.units = []
  tracked : b.units.tracked = []
  counter : b.units.counter = 0
  untold : ∀ x ∈ b.core.journal, x.unit = none

/-- A bot that can be come to, at any moment of any operation. -/
def Reached (b : Bot) : Prop := ∃ b₀ : Bot, b₀.Unused ∧ ReflTransGen Step b₀ b

/-- What comes of a message: nothing but a report, or a unit for its chain text. -/
inductive Receives (b : Bot) (m : Message) : Prop where
  | passed (l : List LogEvent)
      (hl : ∀ e ∈ l, e = .chainStartsWithSpace ∨ e = .chainEmpty ∨
        e = .messageWithoutAuthor m.id m.channel)
      (hb : (b.receive m).1 = { b with core := b.core.logAll none l })
      (hr : ∀ name, (b.receive m).2 ≠ .ok (some name))
  | enrolled (u : User) (text : String) (hu : m.author = some u)
      (ht : (b.chainText m.content).2 = .ok (some text))
      (hb : (b.receive m).1 = enrol
        { b with core := b.core.log none (.chainTriggered u.id m.channel text.length) } text m)
      (hr : (b.receive m).2 = .ok (some b.nextName))

/-- Lets the units run on for so many turns. -/
def settleIn (turns : Nat) (b : Bot) : Bot :=
  let p := b.units.settle botHost turns b.core
  { b with core := p.1, units := p.2 }

end Bot

/-! ## Messages that come in -/

/-- What is reported of a message that triggers nothing does not tell what it says. -/
theorem trigger_cases {p : Prefix} {a : Attributes} {content : Setting} {t : Trigger}
    (h : trigger p a content = .ok t) :
    (∃ text, t = ⟨[], some text⟩) ∨
      t.chain = none ∧ ∀ l ∈ t.events, l = .chainStartsWithSpace ∨ l = .chainEmpty := by
  have hgate (chain : String) : (∃ text, gate a chain = ⟨[], some text⟩) ∨
      (gate a chain).chain = none ∧
        ∀ l ∈ (gate a chain).events, l = .chainStartsWithSpace ∨ l = .chainEmpty := by
    unfold gate
    split
    · exact .inr ⟨rfl, fun l hl => .inr (List.mem_singleton.mp hl)⟩
    · split
      · exact .inr ⟨rfl, fun l hl => .inl (List.mem_singleton.mp hl)⟩
      · split
        · exact .inr ⟨rfl, fun l hl => .inr (List.mem_singleton.mp hl)⟩
        · exact .inl ⟨chain, rfl⟩
  obtain ⟨v, -, hv⟩ := except_bind_eq_ok h
  split at hv
  · cases hv
    exact .inr ⟨rfl, List.forall_mem_nil _⟩
  · cases hv
    exact hgate _
  · cases hv

/-- **A message that comes in** becomes a unit or is passed over. -/
theorem Bot.receives (b : Bot) (m : Message) : b.Receives m := by
  have hnone (name : String) :
      (Except.ok none : Except Fault (Option String)) ≠ .ok (some name) := by
    intro h
    cases h
  rcases hu : m.author with - | u
  · refine .passed [.messageWithoutAuthor m.id m.channel] ?_ ?_ ?_
    · intro e he
      exact .inr (.inr (List.mem_singleton.mp he))
    · rw [receive, hu]
      rfl
    · rw [receive, hu]
      exact hnone
  · by_cases hself : b.isSelf u && !b.core.attributes.parseSelf
    · refine .passed [] (List.forall_mem_nil _) ?_ ?_
      · simp only [receive, hu, if_pos hself]
        rfl
      · simp only [receive, hu, if_pos hself]
        exact hnone
    · rcases htr : ChatCommands.trigger b.trigger b.core.attributes m.content with f | t
      · refine .passed [] (List.forall_mem_nil _) ?_ ?_
        · simp only [receive, hu, if_neg hself, chainText, htr]
          rfl
        · simp only [receive, hu, if_neg hself, chainText, htr]
          intro name h
          cases h
      · rcases trigger_cases htr with ⟨text, rfl⟩ | ⟨hc, hl⟩
        · refine .enrolled u text hu ?_ ?_ ?_
          · simp only [chainText, htr]
          · simp only [receive, hu, if_neg hself, chainText, htr]
            rfl
          · simp only [receive, hu, if_neg hself, chainText, htr]
            rfl
        · refine .passed t.events (fun e he => (hl e he).imp_right .inl) ?_ ?_
          · simp only [receive, hu, if_neg hself, chainText, htr, hc]
          · simp only [receive, hu, if_neg hself, chainText, htr, hc]
            exact hnone

/-! ## Operations as steps -/

namespace Core

theorem Aside.refl (s : Core) : s.Aside s := ⟨.refl s, .refl s⟩

theorem Aside.log (s : Core) (l : LogEvent) : s.Aside (s.log none l) :=
  ⟨.log s rfl, s.record_later _ _⟩

theorem Aside.trans {s s₁ s₂ : Core} (h : s.Aside s₁) (h' : s₁.Aside s₂) : s.Aside s₂ :=
  ⟨h.tells.trans h'.tells, h.later.trans h'.later⟩

/-- Nothing changes but the journal. -/
theorem Aside.of_tables {p : Happening → Bool} {s s' : Core} (ht : s'.tables = s.tables)
    (h : s.Tells p none s') : s.Aside s' := by
  refine ⟨h.any, .of_tables ht ?_⟩
  obtain ⟨l, hl, -⟩ := h
  exact ⟨_, hl.symm⟩

theorem Works.later {x y : Core × Option Job} (h : Works x y) : x.1.Later y.1 := by
  induction h with
  | refl => exact .refl _
  | tail _ hy ih =>
    obtain ⟨opened, j, -, rfl⟩ := hy
    exact ih.trans (work_later opened _ j)

/-- A run for an event that was made by hand. -/
theorem Aside.advance (opened : Setting → Bool) (n : Nat) (s : Core) {r : Run}
    (h : r.event.unit = none) : s.Aside (r.advance opened n s).1 := by
  have hw := works_advance opened .stray closeStray (fun _ _ => rfl) (fun _ _ => rfl)
    (fun _ _ => rfl) n s r
  have ht := (r.advance_tells opened n s).1
  rw [h] at ht
  exact ⟨ht.any, hw.later⟩

theorem accept_tables (s : Core) (e : Event) (name : Setting) (c : Command)
    (arguments : List Setting) (chained : Bool) :
    (s.accept e name c arguments chained).1.tables = s.tables := by
  by_cases h : ∃ d, (s.accept e name c arguments chained).2 = .enter d
  · obtain ⟨d, hd⟩ := h
    rw [(accept_enter hd).2]
    rfl
  · exact (accept_keeps fun d hd => h ⟨d, hd⟩).tables

end Core

namespace Bot

section Operations

variable (b : Bot)

/-- Where nobody stands in line nothing happens. -/
theorem settleIn_of_due_nil (h : b.units.due = []) (n : Nat) : b.settleIn n = b := by
  cases n with
  | zero => rfl
  | succ n => simp only [settleIn, Scheduler.settle, h]

/-- The first in line has its turn, and the others follow. -/
theorem settleIn_succ {i : Nat} {due : List Nat} (h : b.units.due = i :: due) (n : Nat) :
    b.settleIn (n + 1) = ((b.withDue due).turn i).settleIn n := by
  simp only [settleIn, Scheduler.settle, h, turn, withDue]

theorem ticks_settle (n : Nat) : ReflTransGen Tick b (b.settleIn n) := by
  induction n generalizing b with
  | zero => exact .refl
  | succ n ih =>
    rcases hd : b.units.due with - | ⟨i, due⟩
    · rw [b.settleIn_of_due_nil hd]
    · rw [b.settleIn_succ hd]
      exact .head (.turn i due (.inr hd)) (ih _)

theorem settle_eq_settleIn : b.settle = (b.settleIn turnLimit).untrack := by
  unfold settle settleIn
  generalize b.units.settle botHost turnLimit b.core = q
  obtain ⟨s, c⟩ := q
  rfl

theorem ticks_settleAll : ReflTransGen Tick b b.settle := by
  rw [settle_eq_settleIn]
  exact (b.ticks_settle turnLimit).tail .untrack

theorem ticks_aside {s : Core} (h : b.core.Aside s) : ReflTransGen Tick b { b with core := s } :=
  .single (.aside h)

theorem ticks_cancelAll (is : List Nat) :
    ReflTransGen Tick b { b with units := b.units.cancelAll is } := by
  induction is generalizing b with
  | nil => exact .refl
  | cons i is ih => exact .head (.cancel i) (ih (b.cancel i).1)

theorem ticks_cancelLeft (turns : Nat) (watched : List Nat) :
    ReflTransGen Tick b
      { b with
        core := (Scheduler.cancelLeft botHost turns b.core b.units watched).1
        units := (Scheduler.cancelLeft botHost turns b.core b.units watched).2.1 } := by
  unfold Scheduler.cancelLeft
  split
  · exact .refl
  · have hsettled := (b.ticks_cancelAll (watched.filter b.units.isPending)).trans
      (ticks_settle _ turns)
    exact (hsettled.tail (.aside (.log _ _))).tail .untrack

theorem ticks_drain (turns : Nat) (timeout : Setting) :
    ReflTransGen Tick b
      { b with
        core := (b.units.drain botHost turns b.core timeout).1
        units := (b.units.drain botHost turns b.core timeout).2.1 } := by
  unfold Scheduler.drain
  split
  · exact .refl
  · exact .refl
  · dsimp only
    split
    · exact ((b.ticks_settle turns).tail .untrack).trans
        (ticks_cancelLeft (b.settleIn turns).untrack turns _)
    · exact (b.ticks_settle turns).tail .untrack

theorem ticks_stop : ReflTransGen Tick b b.stop.1 := by
  have h := b.ticks_drain turnLimit b.timeout
  unfold stop
  generalize b.units.drain botHost turnLimit b.core b.timeout = q at h ⊢
  rcases q with ⟨s, c, f | n⟩
  · exact h
  · exact h.tail (.aside (.log s _))

theorem ticks_receive (m : Message) : ReflTransGen Tick b (b.receive m).1 := by
  cases b.receives m with
  | passed l hl hb hr =>
    rw [hb]
    exact b.ticks_aside
      (.of_tables (b.core.logAll_keeps none l).tables (b.core.logAll_tells none l))
  | enrolled u text hu ht hb hr =>
    rw [hb]
    exact (b.ticks_aside (.log _ _)).tail (.enrol text m)

/-- A run for an event that was made by hand, and the units that have their turns meanwhile. -/
theorem ticks_finish (n : Nat) {r : Run} (h : r.event.unit = none) :
    ReflTransGen Tick b (finish n b r).1 ∧
      ∀ e v, (finish n b r).2 = some (e, v) → e.unit = none := by
  induction n generalizing b r with
  | zero =>
    constructor
    · exact .refl
    · intro e v he
      cases he
  | succ n ih =>
    have ha := b.ticks_aside (.advance b.units.isOpen turnLength b.core h)
    have hu := (r.advance_tells b.units.isOpen turnLength b.core).2
    rw [h] at hu
    rw [finish]
    generalize r.advance b.units.isOpen turnLength b.core = q at ha hu ⊢
    rcases q with ⟨s, r' | ⟨g, r'⟩ | r' | ⟨e, v⟩⟩
    · refine ⟨ha, ?_⟩
      intro e v he
      cases (show none = some (e, v) from he)
    · refine ⟨ha, ?_⟩
      intro e v he
      cases (show none = some (e, v) from he)
    · obtain ⟨ht, he⟩ := ih (b := settle { b with core := s }) (r := r') hu
      exact ⟨(ha.trans (ticks_settleAll _)).trans ht, he⟩
    · refine ⟨ha, ?_⟩
      intro e' v' he
      obtain ⟨rfl, -⟩ := Prod.mk.inj (Option.some.inj he)
      exact hu

theorem ticks_runProgram {e : Event} (program : Program Value) (h : e.unit = none) :
    ReflTransGen Tick b (b.runProgram e program).1 ∧ (b.runProgram e program).2.1.unit = none := by
  obtain ⟨ht, he⟩ := b.ticks_finish turnLimit (r := ⟨e, program, .inline, []⟩) h
  unfold runProgram runToEnd
  generalize finish turnLimit b ⟨e, program, .inline, []⟩ = q at ht he ⊢
  rcases q with ⟨b', - | ⟨e', v⟩⟩
  · exact ⟨ht, h⟩
  · exact ⟨ht, he e' v rfl⟩

theorem ticks_callFound {e : Event} (name : Setting) (c : Command) (arguments : List Setting)
    (chained : Bool) (h : e.unit = none) :
    ReflTransGen Tick b (b.callFound e name c arguments chained).1 := by
  have ha : b.core.Aside (b.core.accept e name c arguments chained).1 :=
    .of_tables (b.core.accept_tables e name c arguments chained)
      (h ▸ b.core.accept_tells e name c arguments chained)
  have hb := b.ticks_aside ha
  unfold callFound
  generalize b.core.accept e name c arguments chained = q at hb ⊢
  rcases q with ⟨s, d | t | f⟩
  · dsimp only at hb ⊢
    -- On a thread the program begins behind whatever is due before.
    have hq : ReflTransGen Tick b
        (if d.manner = .inline then { b with core := s } else settle { b with core := s }) := by
      split
      · exact hb
      · exact hb.trans (ticks_settleAll _)
    generalize (if d.manner = .inline then { b with core := s } else settle { b with core := s }) =
      b₁ at hq ⊢
    obtain ⟨hr, he⟩ := b₁.ticks_runProgram (d.handler e.message arguments) h
    generalize b₁.runProgram e (d.handler e.message arguments) = x at hr he ⊢
    rcases x with ⟨b₂, e₂, f | v⟩
    · exact hq.trans hr
    · have hd := b₂.core.drainInto_tells e₂ v
      rw [show e₂.unit = none from he] at hd
      exact (hq.trans hr).tail (.aside (.of_tables (b₂.core.drainInto_keeps e₂ v).tables hd))
  · exact hb
  · exact hb

theorem ticks_call {e : Event} (name arguments chained : Setting) (h : e.unit = none) :
    ReflTransGen Tick b (b.call e name arguments chained).1 := by
  unfold call
  split
  · exact .refl
  · exact .refl
  · split
    · exact .refl
    · exact .refl
    · exact b.ticks_callFound name _ _ _ h

theorem ticks_deliver {e : Event} (v : Value) (h : e.unit = none) :
    ReflTransGen Tick b (b.deliver e v).1 := by
  have htells : b.core.Tells (fun _ => true) e.unit (b.core.deliver e v).1 :=
    b.core.deliver_tells e (fun _ _ => rfl) rfl (fun _ => rfl) v
  rw [h] at htells
  exact b.ticks_aside (.of_tables (b.core.deliver_keeps e v).tables htells)

end Operations

/-- Ticks are steps. -/
theorem steps_of_ticks {b b' : Bot} (h : ReflTransGen Tick b b') : ReflTransGen Step b b' :=
  ReflTransGen.mono (fun _ _ => .tick) _ _ h

/-- **What goes on at a bot** is a sequence of ticks. -/
theorem goes_ticks {b b' : Bot} {ms : List Message} (h : b.Goes ms b') :
    ReflTransGen Tick b b' := by
  cases h with
  | receive m => exact b.ticks_receive m
  | turn i => exact .single (.turn i b.units.due (.inl rfl))
  | settle => exact b.ticks_settleAll
  | release gate =>
    unfold Bot.release
    split
    · exact .single (.release gate)
    · exact .refl
  | cancel i => exact .single (.cancel i)
  | stop => exact b.ticks_stop
  | execute name arguments chained h =>
    unfold Bot.execute
    split
    · exact .refl
    · exact .refl
    · exact (b.ticks_runProgram _ h).1
  | @runChain e text h =>
    have hp : b.core.Aside (b.core.programOfGiven e text).1 :=
      .of_tables (b.core.programOfGiven_keeps e text).tables
        (h ▸ b.core.programOfGiven_tells e text)
    exact (b.ticks_aside hp).trans (ticks_runProgram _ _ h).1
  | runSimple text h =>
    unfold Bot.runSimple
    split
    · exact (b.ticks_runProgram _ h).1
    · exact .refl

/-- An operation is administration, or a sequence of ticks. -/
theorem acts_ticks {b b' : Bot} (h : b.Acts b') : ReflTransGen Tick b b' ∨ b.Manages b' := by
  cases h with
  | does h =>
    cases h with
    | goes h => exact .inl (goes_ticks h)
    | manages h => exact .inr h
  | call name arguments chained h => exact .inl (b.ticks_call name arguments chained h)
  | deliver v h => exact .inl (b.ticks_deliver v h)

/-- **Every operation** is a sequence of steps. -/
theorem acts_steps {b b' : Bot} (h : b.Acts b') : ReflTransGen Step b b' := by
  rcases acts_ticks h with h | h
  · exact steps_of_ticks h
  · exact .single (.manage h)

/-- What a new unit adds: a unit that has its text still to read, and the report of it. -/
theorem enrol_eq (b : Bot) (text : String) (m : Message) : ∃ n,
    (b.enrol text m).units.units = b.units.units ++ [⟨.text b.nextName,
      .fresh (.chain text { unit := some b.units.units.length, message := m }), false⟩] ∧
    (b.enrol text m).core =
      b.core.log (some b.units.units.length) (.unitSpawned (.text b.nextName) n) :=
  ⟨_, rfl, rfl⟩

/-- Every bot is shown by some scene. -/
theorem exists_shows (b : Bot) : ∃ w, b.Shows w := by
  refine ⟨⟨b.core, b.units.standings.map fun x => ⟨default, x.1, x.2⟩, []⟩, rfl, ?_⟩
  rw [Scene.standings, List.map_map]
  exact List.map_id' _

/-- Whatever goes on makes of the core what jobs can make of it. -/
theorem Tick.later {b b' : Bot} (h : b.Tick b') : b.core.Later b'.core := by
  cases h with
  | turn i due h =>
    obtain ⟨w, hw⟩ := exists_shows (b.withDue due)
    obtain ⟨w', hmoves, hw', -⟩ := (goes_moves (.turn i)).2 hw
    have hl := Scene.later_of_moves hmoves
    rwa [hw.core, hw'.core] at hl
  | enrol text m => exact b.core.record_later _ _
  | release gate => exact .refl _
  | cancel i => exact .refl _
  | untrack => exact .refl _
  | aside h => exact h.later

/-- That a command is registered is told of no unit, and leaves the attributes as they are. -/
theorem registerInfo_tells (b : Bot) (info : CommandInfo) (manner : Manner) (handler : Handler) :
    (b.registerInfo info manner handler).1.core.attributes = b.core.attributes ∧
      b.core.Tells (fun _ => true) none (b.registerInfo info manner handler).1.core := by
  have hr (l : List LogEvent) : b.core.Tells (fun _ => true) none
      { b.core.logAll none l with
        registry := b.core.registry.register info manner handler } := by
    obtain ⟨k, hk, hp⟩ := b.core.logAll_tells none l
    exact ⟨k, hk, hp⟩
  have ha (l : List LogEvent) : (b.core.logAll none l).attributes = b.core.attributes :=
    congrArg (·.attributes) (b.core.logAll_keeps none l).tables
  unfold registerInfo
  dsimp only
  split
  · exact ⟨ha _, (hr _).trans (.log _ rfl)⟩
  · exact ⟨ha _, hr _⟩

/-- A bot that was just built has no units yet, whatever it has reported. -/
theorem unused_build (transport : Transport) (trigger : Prefix) (attributes : Attributes)
    (timeout : Setting) : (Bot.build transport trigger attributes timeout).Unused := by
  unfold build
  dsimp only
  rcases attributes.helpNames.toList with - | ⟨name, aliases⟩
  · exact ⟨rfl, rfl, rfl, fun x hx => nomatch hx⟩
  · let b : Bot :=
      { trigger := trigger, core := { attributes := attributes, transport := transport },
        timeout := timeout }
    obtain ⟨-, l, hl, -⟩ := b.registerInfo_tells (helpInfo name aliases) .inline helpHandler
    have hunits := (b.registerInfo_reports (helpInfo name aliases) .inline helpHandler).2.1
    constructor
    · exact congrArg (·.units) hunits
    · exact congrArg (·.tracked) hunits
    · exact congrArg (·.counter) hunits
    · intro x hx
      have hmap : x ∈ b.core.journal ++ l.map (Entry.mk none) := by
        rw [← hl]
        exact hx
      obtain ⟨h, -, rfl⟩ := List.mem_map.mp hmap
      rfl

/-- Administration is told of no unit, and leaves the attributes as they are. -/
theorem Manages.tells {b b' : Bot} (h : b.Manages b') :
    b'.units = b.units ∧ b'.core.attributes = b.core.attributes ∧
      b.core.Tells (fun _ => true) none b'.core := by
  have hw (levels : Except Fault Levels) (l : LogEvent) :
      (b.withLevels levels l).1.units = b.units ∧
        (b.withLevels levels l).1.core.attributes = b.core.attributes ∧
        b.core.Tells (fun _ => true) none (b.withLevels levels l).1.core := by
    unfold withLevels
    split
    · exact ⟨rfl, rfl, .log _ rfl⟩
    · exact ⟨rfl, rfl, .refl _⟩
  cases h with
  | register names options manner handler =>
    unfold Bot.register
    split
    · exact ⟨rfl, rfl, .refl _⟩
    next info _ =>
      obtain ⟨-, hu, -⟩ := b.registerInfo_reports info manner handler
      obtain ⟨ha, ht⟩ := b.registerInfo_tells info manner handler
      generalize b.registerInfo info manner handler = q at hu ha ht ⊢
      rcases q with ⟨b', - | f⟩
      · exact ⟨hu, ha, ht⟩
      · exact ⟨hu, ha, ht⟩
  | remove name =>
    unfold Bot.remove
    split
    · exact ⟨rfl, rfl, .of_eq rfl⟩
    · exact ⟨rfl, rfl, .refl _⟩
  | setUser id level => exact hw _ _
  | setRole id level => exact hw _ _
  | replace t => exact ⟨rfl, rfl, .of_eq rfl⟩

/-- The attributes stay the same, whatever happens. -/
theorem Step.attributes {b b' : Bot} (h : b.Step b') :
    b'.core.attributes = b.core.attributes := by
  cases h with
  | tick h => exact h.later.attributes
  | manage h => exact h.tells.2.1

/-- Whoever can be come to, so can what an operation makes of it. -/
theorem Reached.acts {b b' : Bot} (hb : b.Reached) (h : b.Acts b') : b'.Reached := by
  obtain ⟨b₀, h₀, hsteps⟩ := hb
  exact ⟨b₀, h₀, hsteps.trans (acts_steps h)⟩

theorem Reached.steps {b b' : Bot} (hb : b.Reached) (h : ReflTransGen Step b b') :
    b'.Reached := by
  obtain ⟨b₀, h₀, hsteps⟩ := hb
  exact ⟨b₀, h₀, hsteps.trans h⟩

theorem Reached.ticks {b b' : Bot} (hb : b.Reached) (h : ReflTransGen Tick b b') : b'.Reached :=
  hb.steps (steps_of_ticks h)

end Bot

/-! ## What a unit sees of a step -/

/-- What may become of a unit while others act: the gate at which it waits may be opened, and its
cancellation may be asked for. -/
structure Task.Meanwhile (u u' : Task Job) : Prop where
  label : u'.label = u.label
  stage : u'.stage = u.stage ∨
    ∃ a, u.stage.activity? = some a ∧ u'.stage = u.stage.withActivity (.due a.rest)
  cancelling : u.cancelling = true → u'.cancelling = true

@[simp] theorem Stage.activity?_withActivity {τ : Type} (a : Activity τ) (g : Stage τ) :
    (g.withActivity a).activity? = some a := by
  cases g <;> rfl

@[simp] theorem Stage.withActivity_withActivity {τ : Type} (a a' : Activity τ) (g : Stage τ) :
    (g.withActivity a).withActivity a' = g.withActivity a' := by
  cases g <;> rfl

namespace Task.Meanwhile

variable {u v w : Task Job} {i : Nat}

theorem refl (u : Task Job) : Meanwhile u u := ⟨rfl, .inl rfl, id⟩

theorem trans (h : Meanwhile u v) (h' : Meanwhile v w) : Meanwhile u w := by
  refine ⟨h'.label.trans h.label, ?_, fun hc => h'.cancelling (h.cancelling hc)⟩
  obtain ⟨-, hs, -⟩ := h
  obtain ⟨-, hs', -⟩ := h'
  rcases hs with hs | ⟨a, ha, hs⟩
  · rw [hs] at hs'
    exact hs'
  · -- A unit that was let go on is due, whatever gate is opened then.
    right
    refine ⟨a, ha, ?_⟩
    rcases hs' with hs' | ⟨a', ha', hs'⟩
    · rw [hs', hs]
    · rw [hs, Stage.activity?_withActivity] at ha'
      obtain rfl := Option.some.inj ha'
      rw [hs', hs, Stage.withActivity_withActivity]
      rfl

/-- What is left of the unit's work stays the same. -/
theorem standing (h : Meanwhile u v) : v.stage.standing = u.stage.standing := by
  obtain ⟨-, hs | ⟨a, ha, hs⟩, -⟩ := h
  · rw [hs]
  · rw [hs]
    rcases hu : u.stage with j | x | - | x <;> rw [hu] at ha
    · cases ha
    · obtain rfl := Option.some.inj ha
      rfl
    · cases ha
    · obtain rfl : x = some a := ha
      rfl

theorem owned (h : Meanwhile u v) (hu : u.Owned i) : v.Owned i := by
  intro j b hj
  rw [h.standing] at hj
  exact hu j b hj

theorem isPending (h : Meanwhile u v) : v.stage.isPending = u.stage.isPending := by
  obtain ⟨-, hs | ⟨a, ha, hs⟩, -⟩ := h
  · rw [hs]
  · rw [hs]
    rcases hu : u.stage with j | x | - | x <;> rw [hu] at ha
    · cases ha
    · rfl
    · cases ha
    · rfl

/-- Of a unit that has ended nothing is left to be let go on. -/
theorem stage_eq (h : Meanwhile u v) (hu : u.stage.activity? = none) : v.stage = u.stage := by
  rcases h.stage with hs | ⟨a, ha, -⟩
  · exact hs
  · rw [hu] at ha
    cases ha

end Task.Meanwhile

namespace Scheduler

variable {c : Scheduler Job} {i k : Nat} {u : Task Job}

@[simp] theorem enlist_units (c : Scheduler Job) (i : Nat) (a : Option (Activity Job)) :
    (c.enlist i a).units = c.units := by
  rcases a with - | a
  · rfl
  · cases a <;> rfl

@[simp] theorem replace_units (c : Scheduler Job) (i : Nat) (u : Task Job) :
    (c.replace i u).units = c.units.set i u := enlist_units _ _ _

theorem makeDue_units (h : (c.makeDue k).units[i]? = some u) :
    ∃ v, c.units[i]? = some v ∧ Task.Meanwhile v u := by
  rw [makeDue, setStage, List.getElem?_modify] at h
  rcases hv : c.units[i]? with - | v
  · rw [hv] at h
    cases h
  · rw [hv] at h
    obtain rfl := Option.some.inj h
    refine ⟨v, rfl, ?_⟩
    split
    · refine ⟨rfl, ?_, id⟩
      dsimp only
      split
      next a ha => exact .inr ⟨a, ha, rfl⟩
      · exact .inl rfl
    · exact .refl v

theorem release_units {gate : Setting} (h : (c.release gate).units[i]? = some u) :
    ∃ v, c.units[i]? = some v ∧ Task.Meanwhile v u := by
  have hfold (is : List Nat) (d : Scheduler Job) (h : (is.foldl makeDue d).units[i]? = some u) :
      ∃ v, d.units[i]? = some v ∧ Task.Meanwhile v u := by
    induction is generalizing d with
    | nil => exact ⟨u, h, .refl u⟩
    | cons k is ih =>
      obtain ⟨v, hv, hm⟩ := ih _ h
      obtain ⟨w, hw, hm'⟩ := makeDue_units hv
      exact ⟨w, hw, hm'.trans hm⟩
  have hu := hfold _ _ h
  exact hu

theorem cancel_units (h : (c.cancel k).1.units[i]? = some u) :
    ∃ v, c.units[i]? = some v ∧ Task.Meanwhile v u := by
  unfold cancel at h
  split at h
  · exact ⟨u, h, .refl u⟩
  next v hv =>
    split at h
    · -- Whether the unit waits at a gate makes no difference to what becomes of it.
      have hset : (c.units.set k { v with cancelling := true })[i]? = some u := by
        dsimp only at h
        split at h <;> exact h
      rw [List.getElem?_set] at hset
      split at hset
      next hk =>
        subst hk
        obtain ⟨hi, -⟩ := List.getElem?_eq_some_iff.mp hv
        rw [if_pos hi] at hset
        obtain rfl := Option.some.inj hset
        exact ⟨v, hv, rfl, .inl rfl, fun _ => rfl⟩
      · exact ⟨u, hset, .refl u⟩
    · exact ⟨u, h, .refl u⟩

end Scheduler

namespace Bot

variable {b b' : Bot} {i : Nat} {u u' : Task Job}

/-- The units are at work on jobs of their own, and of units to come nothing is told yet. -/
structure Owned (b : Bot) : Prop where
  units : ∀ i (u : Task Job), b.units.units[i]? = some u → u.Owned i
  untold : ∀ i, b.units.units.length ≤ i → b.core.told (some i) = []

/-- What a unit sees of a step: it is left alone, it has its turn, or it is new. -/
inductive Life (i : Nat) (b b' : Bot) (u' : Task Job) : Prop where
  | rests {u : Task Job} (hu : b.units.units[i]? = some u) (h : Task.Meanwhile u u')
      (ht : b'.core.told (some i) = b.core.told (some i))
  | turns {u : Task Job} (hu : b.units.units[i]? = some u)
      (h : Task.Turns b.units.isOpen i b.core u b'.core u')
  | begins {label : Setting} {text : String} {m : Message} {n : Nat}
      (hi : i = b.units.units.length)
      (hu : u' = ⟨label, .fresh (.chain text { unit := some i, message := m }), false⟩)
      (ht : b'.core.told (some i) = [.logged (.unitSpawned label n)])

/-- A step is the affair of one unit, or of none: only of this unit it is told, which has its turn
or is new, while all others are left alone. -/
structure Acting (b b' : Bot) (v : Option Nat) : Prop where
  tells : b.core.Tells (fun _ => true) v b'.core
  lt_length : ∀ i, v = some i → i < b'.units.units.length
  length_le : b.units.units.length ≤ b'.units.units.length
  units : ∀ i u', b'.units.units[i]? = some u' →
    (v ≠ some i ∧ ∃ u, b.units.units[i]? = some u ∧ Task.Meanwhile u u') ∨ Life i b b' u'

theorem length_of_standings {c c' : Scheduler Job} (h : c'.standings = c.standings) :
    c'.units.length = c.units.length := by
  simpa [Scheduler.standings] using congrArg List.length h

/-- Where every unit is left alone it is no affair of any. -/
theorem Acting.alone (ht : b.core.Tells (fun _ => true) none b'.core)
    (hs : b'.units.standings = b.units.standings)
    (hu : ∀ (i : Nat) (u' : Task Job), b'.units.units[i]? = some u' →
      ∃ u, b.units.units[i]? = some u ∧ Task.Meanwhile u u') : Acting b b' none where
  tells := ht
  lt_length i hi := by cases hi
  length_le := Nat.le_of_eq (length_of_standings hs).symm
  units i u' hi := .inl ⟨nofun, hu i u' hi⟩

theorem Acting.same (ht : b.core.Tells (fun _ => true) none b'.core) (hu : b'.units = b.units) :
    Acting b b' none := by
  refine .alone ht (by rw [hu]) ?_
  intro i u' hi
  exact ⟨u', hu ▸ hi, .refl u'⟩

/-- A turn: a number that no unit has yet has none, and any other gives its unit a turn. -/
theorem Owned.turn_cases (hb : b.Owned) (k : Nat) (due : List Nat) :
    (b.units.units[k]? = none ∧ (b.withDue due).turn k = b.withDue due) ∨
    ∃ v v', b.units.units[k]? = some v ∧
      Task.Turns b.units.isOpen k b.core v ((b.withDue due).turn k).core v' ∧
      ((b.withDue due).turn k).units = (b.withDue due).units.replace k v' := by
  rcases hk : b.units.units[k]? with - | v
  · refine .inl ⟨rfl, ?_⟩
    have hk' : (b.withDue due).units.units[k]? = none := hk
    simp only [turn, Scheduler.takeTurn, hk']
  · obtain ⟨s', v', ht, he⟩ := Scheduler.takeTurn_turns (c := (b.withDue due).units) b.core hk
      (hb.units k v hk)
    have hcore : ((b.withDue due).turn k).core = s' := congrArg Prod.fst he
    rw [hcore]
    exact .inr ⟨v, v', rfl, ht, congrArg Prod.snd he⟩

/-- The turn of a unit. -/
theorem acting_turn (hb : b.Owned) (k : Nat) (due : List Nat) :
    ∃ v, Acting b ((b.withDue due).turn k) v := by
  obtain ⟨-, hturn⟩ | ⟨u, u', hk, ht, hunits⟩ := hb.turn_cases k due
  · rw [hturn]
    exact ⟨_, .alone (.refl _) rfl fun i u' hi => ⟨u', hi, .refl u'⟩⟩
  · have hset := congrArg Scheduler.units hunits
    rw [Scheduler.replace_units] at hset
    have hlt := (List.getElem?_eq_some_iff.mp hk).1
    refine ⟨some k, ht.tells (hb.units k u hk), ?_, ?_, ?_⟩
    · intro i hi
      obtain rfl := Option.some.inj hi
      rw [hset, List.length_set]
      exact hlt
    · exact Nat.le_of_eq ((congrArg List.length hset).trans List.length_set).symm
    · intro i v hi
      rw [hset, List.getElem?_set] at hi
      split at hi
      next hki =>
        subst hki
        rw [if_pos (show k < (b.withDue due).units.units.length from hlt)] at hi
        obtain rfl := Option.some.inj hi
        exact .inr (.turns hk ht)
      next hki =>
        left
        constructor
        · intro hv
          exact hki (Option.some.inj hv)
        · exact ⟨v, hi, .refl v⟩

/-- Nothing was told of a new unit before, so that its spawning is all that is. -/
theorem Owned.told_enrol (hb : b.Owned) (text : String) (m : Message) : ∃ n,
    (b.enrol text m).core.told (some b.units.units.length) =
      [.logged (.unitSpawned (.text b.nextName) n)] := by
  obtain ⟨n, -, hcore⟩ := b.enrol_eq text m
  rw [hcore, Core.log, Core.told_record, hb.untold _ (Nat.le_refl _)]
  exact ⟨n, rfl⟩

/-- A new unit stands behind all others. -/
theorem acting_enrol (hb : b.Owned) (text : String) (m : Message) :
    Acting b (b.enrol text m) (some b.units.units.length) := by
  obtain ⟨n, hunits, hcore⟩ := b.enrol_eq text m
  obtain ⟨n', htold⟩ := hb.told_enrol text m
  constructor
  · rw [hcore]
    exact .log _ rfl
  · intro i hi
    obtain rfl := Option.some.inj hi
    simp [hunits]
  · simp [hunits]
  · intro i u' hi
    rw [hunits, List.getElem?_append] at hi
    split at hi
    next hlt =>
      left
      constructor
      · intro hv
        exact absurd (Option.some.inj hv) (Nat.ne_of_gt hlt)
      · exact ⟨u', hi, .refl u'⟩
    next hge =>
      right
      rw [List.getElem?_singleton] at hi
      split at hi
      next hz =>
        obtain rfl : i = b.units.units.length := by omega
        exact .begins rfl (Option.some.inj hi).symm htold
      · cases hi

/-- **A step** is the affair of one unit at most. -/
theorem Step.acting (hb : b.Owned) (h : b.Step b') : ∃ v, Acting b b' v := by
  cases h with
  | manage h =>
    obtain ⟨hu, -, ht⟩ := h.tells
    exact ⟨_, .same ht hu⟩
  | tick h =>
    cases h with
    | turn k due h => exact acting_turn hb k due
    | enrol text m => exact ⟨_, acting_enrol hb text m⟩
    | release gate =>
      exact ⟨_, .alone (.refl _) (b.units.standings_release gate) fun i u' hi =>
        Scheduler.release_units hi⟩
    | cancel k =>
      exact ⟨_, .alone (.refl _) (b.units.standings_cancelTask k) fun i u' hi =>
        Scheduler.cancel_units hi⟩
    | untrack => exact ⟨_, .alone (.refl _) rfl fun i u' hi => ⟨u', hi, .refl u'⟩⟩
    | aside h => exact ⟨_, .same h.tells rfl⟩

/-- **What a unit sees of a step.** -/
theorem Step.life (hb : b.Owned) (h : b.Step b') (hu : b'.units.units[i]? = some u') :
    Life i b b' u' := by
  obtain ⟨v, ha⟩ := h.acting hb
  rcases ha.units i u' hu with ⟨hv, u, hu, hm⟩ | hl
  · exact .rests hu hm (ha.tells.told_ne hv)
  · exact hl

/-- Jobs stay with their units, whatever happens. -/
theorem Step.owned (hb : b.Owned) (h : b.Step b') : b'.Owned := by
  constructor
  · intro i u' hu'
    cases h.life hb hu' with
    | rests hu hm ht => exact hm.owned (hb.units i _ hu)
    | turns hu ht => exact ht.owned (hb.units i _ hu)
    | begins hi hu ht =>
      subst hu
      intro j c hj
      cases hj
      exact ⟨rfl, rfl⟩
  · intro i hi
    obtain ⟨v, ha⟩ := h.acting hb
    have hv : v ≠ some i := fun hv => absurd (ha.lt_length i hv) (Nat.not_lt.mpr hi)
    rw [ha.tells.told_ne hv]
    exact hb.untold i (Nat.le_trans ha.length_le hi)

theorem Unused.owned (h : b.Unused) : b.Owned := by
  constructor
  · intro i u hi
    rw [h.units] at hi
    cases hi
  · intro i _
    have hf : b.core.journal.filter (fun x => x.unit = some i) = [] := by
      rw [List.filter_eq_nil_iff]
      intro x hx
      simp [h.untold x hx]
    rw [Core.told, hf]
    rfl

theorem Owned.steps (hb : b.Owned) (h : ReflTransGen Step b b') : b'.Owned := by
  induction h with
  | refl => exact hb
  | tail _ hstep ih => exact hstep.owned ih

theorem Owned.ticks (hb : b.Owned) (h : ReflTransGen Tick b b') : b'.Owned :=
  hb.steps (steps_of_ticks h)

theorem Reached.owned (h : b.Reached) : b.Owned := by
  obtain ⟨b₀, h₀, hsteps⟩ := h
  exact h₀.owned.steps hsteps

/-- A unit is there for good. -/
theorem Step.unit (hb : b.Owned) (h : b.Step b') (hu : b.units.units[i]? = some u) :
    ∃ u', b'.units.units[i]? = some u' ∧
      (Task.Meanwhile u u' ∧ b'.core.told (some i) = b.core.told (some i) ∨
        Task.Turns b.units.isOpen i b.core u b'.core u') := by
  obtain ⟨v, ha⟩ := h.acting hb
  have hlt : i < b'.units.units.length :=
    Nat.lt_of_lt_of_le (List.getElem?_eq_some_iff.mp hu).1 ha.length_le
  refine ⟨_, List.getElem?_eq_getElem hlt, ?_⟩
  cases h.life hb (List.getElem?_eq_getElem hlt) with
  | rests hu' hm ht =>
    obtain rfl := Option.some.inj (hu.symm.trans hu')
    exact .inl ⟨hm, ht⟩
  | turns hu' ht =>
    obtain rfl := Option.some.inj (hu.symm.trans hu')
    exact .inr ht
  | begins hi _ _ =>
    rw [hi, List.getElem?_eq_none (Nat.le_refl _)] at hu
    cases hu

/-- A unit that has ended stays as it ended, done or cancelled. -/
theorem steps_ended (hb : b.Owned) (hs : ReflTransGen Step b b') (hu : b.units.units[i]? = some u)
    (hp : u.stage.isPending = false) :
    ∃ u', b'.units.units[i]? = some u' ∧ u'.stage.isPending = false ∧
      u'.stage.standing.2 = u.stage.standing.2 := by
  induction hs with
  | refl => exact ⟨u, hu, hp, rfl⟩
  | tail hs hstep ih =>
    obtain ⟨u₁, hu₁, hp₁, hc₁⟩ := ih
    obtain ⟨u₂, hu₂, ⟨hm, -⟩ | hturn⟩ := hstep.unit (hb.steps hs) hu₁
    · exact ⟨u₂, hu₂, hm.isPending.trans hp₁, (congrArg Prod.snd hm.standing).trans hc₁⟩
    · obtain ⟨hp₂, hc₂⟩ := hturn.ended hp₁
      exact ⟨u₂, hu₂, hp₂, hc₂.trans hc₁⟩

/-- **Nothing comes any more** of a unit of which nothing is left. -/
theorem steps_over (hb : b.Owned) (hs : ReflTransGen Step b b') (hu : b.units.units[i]? = some u)
    (hover : u.stage = .done ∨ u.stage = .cancelled none) :
    ∃ u', b'.units.units[i]? = some u' ∧ u'.stage = u.stage ∧ u'.label = u.label ∧
      b'.core.told (some i) = b.core.told (some i) := by
  induction hs with
  | refl => exact ⟨u, hu, rfl, rfl, rfl⟩
  | @tail b₁ b₂ hs₁ hstep ih =>
    obtain ⟨u₁, hu₁, hstage, hlabel, htold⟩ := ih
    have hover₁ : u₁.stage = .done ∨ u₁.stage = .cancelled none := by rwa [hstage]
    obtain ⟨u₂, hu₂, ⟨hm, ht⟩ | hturn⟩ := hstep.unit (hb.steps hs₁) hu₁
    · have hidle : u₁.stage.activity? = none := by
        rcases hover₁ with h | h
        · rw [h]
          rfl
        · rw [h]
          rfl
      exact ⟨u₂, hu₂, (hm.stage_eq hidle).trans hstage, hm.label.trans hlabel, ht.trans htold⟩
    · obtain ⟨hcore, rfl⟩ := hturn.of_over hover₁
      exact ⟨u₂, hu₂, hstage, hlabel, (congrArg (Core.told · _) hcore).trans htold⟩

end Bot

end ChatCommands
