import ChatCommands.Bot
import ChatCommands.Proofs.Dispatch.Step

/-!
# Scenes

A scene is what goes on at a bot, without the order in which the scheduler gives turns: the core,
and for every unit what is left of its work. It moves on by single requests, in any order: a unit
may make its next request although others are due before it, or although the gate at which it waits
is closed. Every operation of a bot is a sequence of such steps, so what holds of all scenes holds
of all orders in which units can have their turns.

## Main definitions

* `Core.work`: the next request of a job
* `Member`, `Scene`: units and runs for events that were made by hand
* `Scene.Move`: how a scene moves on by requests, messages and cancellations
* `Scene.Step`: how it moves on if others may change what the units share
-/

namespace ChatCommands

namespace Job

/-- The event that the job is for. -/
def event : Job → Event
  | chain _ e => e
  | run r => r.event
  | stray r => r.event

/-- The run of the job, once it has one. -/
def run? : Job → Option Run
  | chain _ _ => none
  | run r => some r
  | stray r => some r

/-- What goes on of a cancelled job is its program alone. -/
theorem behind_eq {j j' : Job} (h : botHost.behind j = some j') :
    ∃ r, j = run r ∧ j' = stray { r with frames := [] } := by
  cases j with
  | run r =>
    simp only [botHost, Run.behind] at h
    split at h
    · obtain rfl := Option.some.inj h
      exact ⟨r, rfl, rfl⟩
    · cases h
  | _ => cases h

end Job

namespace Core

/-- What is left of a job whose run has come to this. The end of a run is followed by the final
answer, unless nobody waits for it. -/
def close (p : Core × Progress) : Core × Option Job :=
  match p with
  | (s, .ended e v) => ((s.conclude e v).1, none)
  | (s, p) => (s, p.rest.map .run)

/-- What is left of a job that nobody waits for. -/
def closeStray (p : Core × Progress) : Core × Option Job := (p.1, p.2.rest.map .stray)

/-- The next request of a job: reading the chain text, or a request of its run. -/
def work (opened : Setting → Bool) (s : Core) : Job → Core × Option Job
  | .chain text e =>
    let p := (s.log e.unit (.chainParsing text)).programOf e text
    (p.1, some (.run ⟨e, p.2, .inline, []⟩))
  | .run r => close (r.step opened s)
  | .stray r => closeStray (r.step opened s)

end Core

namespace Core

variable (s : Core)

theorem concludeFault_keeps (e : Event) (f : Fault) : s.Keeps (s.concludeFault e f).1 := by
  unfold concludeFault
  split
  · exact s.log_keeps _ _
  · exact .refl s

theorem conclude_keeps (e : Event) (v : Except Fault Value) : s.Keeps (s.conclude e v).1 := by
  rcases v with f | v
  · exact s.concludeFault_keeps e f
  · have hd := s.deliver_keeps e v
    simp only [conclude]
    generalize s.deliver e v = p at hd ⊢
    rcases p with ⟨s', e', f | _⟩ <;> exact hd

end Core

/-- A unit: the message that it answers, what is left of its work, and whether it was cancelled. -/
structure Member where
  message : Message
  job : Option Job
  cancelled : Bool := false

/-- What goes on at a bot. -/
structure Scene where
  core : Core
  units : List Member := []
  /-- What is left of runs for events that were made by hand. -/
  hands : List (Option Job) := []

namespace Scene

/-- Where a job is found. -/
inductive Place where
  | unit (i : Nat)
  | hand (k : Nat)
  deriving DecidableEq

/-- The job at a place. -/
def job (w : Scene) : Place → Option Job
  | .unit i => w.units[i]? >>= Member.job
  | .hand k => w.hands[k]?.join

/-- The scene with what is left of the job at a place, and the core after it. -/
def put (w : Scene) (q : Place) (p : Core × Option Job) : Scene :=
  match q with
  | .unit i => { w with core := p.1, units := w.units.modify i fun u => { u with job := p.2 } }
  | .hand k => { w with core := p.1, hands := w.hands.set k p.2 }

/-- The messages of the units, in the order in which they came. -/
def messages (w : Scene) : List Message := w.units.map (·.message)

/-- A unit that is cancelled, with what is left running of it. -/
def cancel (w : Scene) (i : Nat) (behind : Option Job) : Scene :=
  { w with units := w.units.modify i fun u => { u with job := behind, cancelled := true } }

/-- The unit of a message with a chain text. -/
def arrive (w : Scene) (m : Message) (text : String) : Scene :=
  { w with
    units := w.units ++ [⟨m, some (.chain text { unit := some w.units.length, message := m }),
      false⟩] }

/-- A run that somebody who holds the bot has begun. -/
def begin (w : Scene) (r : Run) : Scene := { w with hands := w.hands ++ [some (.stray r)] }

/-- A message triggers a bot of this prefix by a chain text. -/
structure Triggers (p : Prefix) (s : Core) (m : Message) (text : String) : Prop where
  /-- The bot listens to the author. -/
  heard : ∃ u, m.author = some u ∧
    ¬ ((!s.transport.selfId.isNull && u.id.same s.transport.selfId) && !s.attributes.parseSelf)
  chain : ∃ t, trigger p s.attributes m.content = .ok t ∧ t.chain = some text

/-- Whether a message triggers a bot does not depend on what happened. -/
theorem Triggers.of_tables {p : Prefix} {s s' : Core} {m : Message} {text : String}
    (h : Triggers p s m text) (hs : s'.tables = s.tables) : Triggers p s' m text := by
  have ha : s'.attributes = s.attributes := congrArg (·.attributes) hs
  have ht : s'.transport = s.transport := congrArg (·.transport) hs
  exact ⟨by simpa only [ha, ht] using h.heard, by simpa only [ha] using h.chain⟩

/-- The journal goes on with reports alone. -/
def Reports (s s' : Core) : Prop :=
  ∃ l : List (Option Nat × LogEvent), s'.journal = s.journal ++ l.map fun x => ⟨x.1, .logged x.2⟩

/-- What is told of anything but reports stays the same. -/
theorem Reports.filter_journal {s s' : Core} (h : Reports s s') {k : Entry → Bool}
    (hk : ∀ u l, k ⟨u, .logged l⟩ = false) : s'.journal.filter k = s.journal.filter k := by
  obtain ⟨l, hl⟩ := h
  rw [hl, List.filter_append]
  refine List.append_right_eq_self.mpr (List.filter_eq_nil_iff.mpr ?_)
  intro x hx
  obtain ⟨y, -, rfl⟩ := List.mem_map.mp hx
  rw [hk]
  exact Bool.false_ne_true

/-- How a scene moves on while nobody but its jobs changes what the units share. -/
inductive Move (p : Prefix) (w : Scene) : Scene → Prop where
  /-- A job makes its next request. -/
  | work (q : Place) (j : Job) (opened : Setting → Bool) (h : w.job q = some j) :
    Move p w (w.put q (w.core.work opened j))
  /-- A message comes in that triggers the bot. -/
  | arrive (m : Message) (text : String) (h : Triggers p w.core m text) :
    Move p w (w.arrive m text)
  /-- A unit is cancelled. What runs on of it may be dropped. -/
  | cancel (i : Nat) (j : Job) (behind : Option Job) (h : w.job (.unit i) = some j)
      (hb : behind = none ∨ behind = botHost.behind j) :
    Move p w (w.cancel i behind)
  /-- Somebody who holds the bot runs a program for an event made by hand. -/
  | begin (e : Event) (program : Program Value) (h : e.unit = none) :
    Move p w (w.begin { event := e, program := program })
  /-- Something is reported. -/
  | report (s : Core) (h : Reports w.core s) (ht : s.tables = w.core.tables) :
    Move p w { w with core := s }

/-- How a scene moves on. -/
inductive Step (p : Prefix) (w : Scene) : Scene → Prop where
  | move {w' : Scene} (h : Move p w w') : Step p w w'
  /-- Somebody who holds the bot changes what the units share. -/
  | outside (s : Core) (h : Reports w.core s) : Step p w { w with core := s }

/-! ## Jobs after a step -/

section Jobs

variable {w : Scene} {q q' : Place} {j : Job}

@[simp] theorem put_core (w : Scene) (q : Place) (p : Core × Option Job) :
    (w.put q p).core = p.1 := by
  cases q <;> rfl

theorem job_put_self (h : w.job q = some j) (p : Core × Option Job) : (w.put q p).job q = p.2 := by
  cases q with
  | unit i =>
    obtain ⟨u, hu, -⟩ := Option.bind_eq_some_iff.mp h
    simp [put, job, hu]
  | hand k =>
    obtain ⟨hk, -⟩ := List.getElem?_eq_some_iff.mp (Option.join_eq_some_iff.mp h)
    simp [put, job, hk]

theorem job_put_of_ne (h : q' ≠ q) (p : Core × Option Job) : (w.put q p).job q' = w.job q' := by
  rcases q with i | k <;> rcases q' with i' | k'
  · have hi : i ≠ i' := fun hi => h (hi ▸ rfl)
    simp [put, job, List.getElem?_modify_ne _ _ hi]
  · rfl
  · rfl
  · have hk : k ≠ k' := fun hk => h (hk ▸ rfl)
    simp [put, job, List.getElem?_set_ne hk]

theorem job_arrive {m : Message} {text : String} (h : (w.arrive m text).job q = some j) :
    (q = .unit w.units.length ∧ j = .chain text { unit := some w.units.length, message := m }) ∨
      w.job q = some j := by
  rcases q with i | k
  -- Units before the new one are where they were, and there are none behind it.
  · rcases Nat.lt_trichotomy i w.units.length with hi | rfl | hi
    · exact .inr (by simpa [job, arrive, List.getElem?_append_left hi] using h)
    · exact .inl ⟨rfl, by simpa [job, arrive, eq_comm] using h⟩
    · rw [job, arrive, List.getElem?_eq_none (by simp; omega)] at h
      cases h
  · exact .inr h

theorem job_begin {r : Run} (h : (w.begin r).job q = some j) :
    (q = .hand w.hands.length ∧ j = .stray r) ∨ w.job q = some j := by
  rcases q with i | k
  · exact .inr h
  · rcases Nat.lt_trichotomy k w.hands.length with hk | rfl | hk
    · exact .inr (by simpa [job, begin, List.getElem?_append_left hk] using h)
    · exact .inl ⟨rfl, by simpa [job, begin, eq_comm] using h⟩
    · rw [job, begin, List.getElem?_eq_none (by simp; omega)] at h
      cases h

theorem job_cancel {i : Nat} {behind : Option Job} (h : (w.cancel i behind).job q = some j) :
    (q = .unit i ∧ behind = some j) ∨ w.job q = some j := by
  rcases q with i' | k
  · by_cases hi : i = i'
    · subst hi
      rcases hu : w.units[i]? with - | u
      · simp [job, cancel, hu] at h
      · exact .inl ⟨rfl, by simpa [job, cancel, hu] using h⟩
    · exact .inr (by simpa [job, cancel, List.getElem?_modify_ne _ _ hi] using h)
  · exact .inr h

end Jobs

end Scene

end ChatCommands
