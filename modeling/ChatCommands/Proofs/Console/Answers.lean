import ChatCommands.Console.Transcript
import ChatCommands.Proofs.Bot.Isolation
import ChatCommands.Proofs.Bot.Settling
import ChatCommands.Proofs.Dispatch.Requests

/-!
# What is written for a line

A line that triggers the bot is to be answered with what its chain sends when it runs to its end all
alone, the final answer included. Here this is shown of a unit: whatever was told before, and for
how many turns its run goes on, what its turns send is written for the line, and nothing else is.

## Main definitions

* `Core.Replies`: what is told of a chain text that runs to its end all alone
* `Core.Finishes`: a job comes to its end, and this is written then
* `Bot.Works`: a unit is at work on a job

## Main results

* `Core.exists_replies`, `Core.Replies.unique`: a chain text comes to one end, where commands are
  brief
* `Core.Replies.finishes`: what is written for the unit of a chain text
* `Bot.settleIn_finishes`: a unit that is alone in line comes to its end
-/

namespace ChatCommands

/-! ## What is written -/

theorem written_append (j k : List Entry) : written (j ++ k) = written j ++ written k := by
  simp [written, List.filterMap_append, String.join_append]

theorem written_map {f : Entry → Entry} (hf : ∀ x, (f x).what = x.what) (j : List Entry) :
    written (j.map f) = written j := by
  simp only [written, List.filterMap_map, Function.comp_def, hf]

/-- Reports are not written. -/
@[simp] theorem written_log (s : Core) (u : Option Nat) (l : LogEvent) :
    written (s.log u l).journal = written s.journal := by
  simp [Core.log, Core.record, written]

@[simp] theorem written_logAll (s : Core) (u : Option Nat) (ls : List LogEvent) :
    written (s.logAll u ls).journal = written s.journal := by
  induction ls generalizing s with
  | nil => rfl
  | cons l ls ih => exact (ih _).trans (written_log s u l)

namespace Guise

theorem written_core (g : Guise) (s : Core) :
    written (g.core s).journal = written g.before ++ written s.journal := by
  rw [core, written_append, written_map (f := g.entry) fun _ => rfl]

end Guise

/-! ## A chain text all alone -/

namespace Core

/-- The run of a chain text as it begins. -/
def begun (s : Core) (e : Event) (text : String) : Core × Run :=
  ((s.programOf e text).1, ⟨e, (s.programOf e text).2, .inline, []⟩)

/-- All alone with these tables, which stay as they are, the run of a chain text for a message comes
to its end within so many requests, whatever gates are open. With the final answer this is told
then. -/
def Replies (T : Core) (m : Message) (text : String) (n : Nat) (l : List Entry) : Prop :=
  ∃ s e v, (∀ opened, (T.begun { message := m } text).2.advance opened n
      (T.begun { message := m } text).1 = (s, .ended e v)) ∧
    s.tables = T.tables ∧ l = (s.conclude e v).1.journal

/-- The final answer is a text, or no answer is sent. -/
theorem conclude_tells (s : Core) (e : Event) (v : Except Fault Value) :
    s.Tells Happening.inText e.unit (s.conclude e v).1 := by
  rcases v with f | v
  · simp only [conclude, concludeFault]
    split
    · exact .log s rfl
    · exact .refl s
  · have hd := s.deliver_tells e (fun _ => Happening.inText_of_isSilent) rfl (fun _ => rfl) v
    simp only [conclude]
    generalize s.deliver e v = p at hd ⊢
    rcases p with ⟨s', e', f | _⟩ <;> exact hd

variable {T s : Core} {m : Message} {text : String} {n k : Nat} {l l' : List Entry}

theorem Replies.mono (h : T.Replies m text n l) (hle : n ≤ k) : T.Replies m text k l := by
  obtain ⟨s, e, v, hend, ht, hl⟩ := h
  exact ⟨s, e, v, fun opened => Run.advance_ended_of_le (hend opened) hle, ht, hl⟩

/-- A chain text comes to one end only. -/
theorem Replies.unique (h : T.Replies m text n l) (h' : T.Replies m text k l') : l = l' := by
  obtain ⟨s, e, v, hend, -, rfl⟩ := h
  obtain ⟨s', e', v', hend', -, rfl⟩ := h'
  obtain ⟨rfl, rfl, rfl⟩ := Run.advance_ended_unique (hend fun _ => true) (hend' fun _ => true)
  rfl

/-- **A chain text comes to its end**, where every command is brief; no reply is anything but a
text. -/
theorem exists_replies (hj : T.journal = []) (h : T.registry.Brief k) (m : Message)
    (text : String) :
    ∃ l, T.Replies m text ((text.length + 1) * (k + 2) + 1) l ∧
      ∀ x ∈ l, x.what.inText = true := by
  have htables := (T.programOf_keeps { message := m } text).tables
  have hregistry : (T.programOf { message := m } text).1.registry = T.registry :=
    congrArg (·.registry) htables
  have hrun : (T.begun { message := m } text).2.Ending k ((text.length + 1) * (k + 2)) :=
    .calling (T.programOf_calls _ text)
  obtain ⟨s, e, v, hend, ht, hunit, htells⟩ :=
    hrun.advance (s := (T.begun { message := m } text).1) (hregistry ▸ h)
  refine ⟨_, ⟨s, e, v, hend, ht.trans htables, rfl⟩, ?_⟩
  -- Nothing was told before, so that all of it is told by the reading, the run and its end.
  have hread : T.Tells Happening.inText none (T.begun { message := m } text).1 :=
    T.programOf_tells { message := m } (fun _ _ _ => rfl) (fun _ => rfl) text
  have hall := (hread.trans htells).trans ((show e.unit = none from hunit) ▸ s.conclude_tells e v)
  obtain ⟨told, htold, hp⟩ := hall
  intro x hx
  rw [htold, hj, List.nil_append] at hx
  obtain ⟨y, hy, rfl⟩ := List.mem_map.mp hx
  exact hp y hy

/-! ## The job of a unit -/

/-- The run of a job as it goes on. -/
def started (s : Core) : Job → Core × Run
  | .chain text e => (s.log e.unit (.chainParsing text)).begun e text
  | .run r => (s, r)
  | .stray r => (s, r)

theorem advanceJob_eq (opened : Setting → Bool) (s : Core) (j : Job) :
    s.advanceJob opened j = (s.started j).2.advance opened turnLength (s.started j).1 := by
  cases j <;> rfl

/-- The job comes to its end within so many requests. The tables are these then, and with the final
answer this is all that is written. -/
def Finishes (opened : Setting → Bool) (s : Core) (j : Job) (n : Nat) (T : Core) (w : String) :
    Prop :=
  ∃ s' e v, (s.started j).2.advance opened n (s.started j).1 = (s', .ended e v) ∧ s'.tables = T ∧
    written (s'.conclude e v).1.journal = w

/-- **The unit of a chain text**, among whatever was told before, comes to the end that its text
comes to all alone. -/
theorem Replies.finishes (h : s.tables.Replies m text n l) (opened : Setting → Bool) (i : Nat) :
    s.Finishes opened (.chain text { unit := some i, message := m }) n s.tables
      (written s.journal ++ written l) := by
  obtain ⟨s', e, v, hend, ht, rfl⟩ := h
  -- The run all alone, told behind the journal and for the unit, is the run of the unit.
  let s₀ := s.log (some i) (.chainParsing text)
  let g := Guise.forUnit s₀.journal (some i)
  have hcore : g.core s.tables = s₀ := Guise.core_forUnit_tables s₀ (some i)
  have hbegun : s₀.begun { unit := some i, message := m } text =
      (g.core (s.tables.begun { message := m } text).1,
        g.run (s.tables.begun { message := m } text).2) := by
    have hp := g.programOf s.tables { message := m } text rfl
    rw [hcore] at hp
    have hp' : s₀.programOf { unit := some i, message := m } text = _ := hp
    rw [begun, hp']
    rfl
  have hadvance := g.advance (s.tables.begun { message := m } text).1 (fun _ => rfl) opened n
    (s.tables.begun { message := m } text).2
  rw [hend opened] at hadvance
  refine ⟨g.core s', g.event e, v, ?_, ht, ?_⟩
  · rw [show s.started (.chain text { unit := some i, message := m }) = _ from hbegun]
    exact hadvance
  · rw [g.conclude, g.written_core, show written g.before = _ from written_log s _ _]

end Core

/-! ## The turns of a unit -/

namespace Core

variable {opened : Setting → Bool} {s s₁ T : Core} {j : Job} {n : Nat} {w : String}

/-- Where a run has ended its unit comes to its end. What is reported of that is not written. -/
theorem exists_ends {e : Event} {v : Except Fault Value}
    (h : s.advanceJob opened j = (s₁, .ended e v)) :
    ∃ s' o, s.Ends opened j s' o ∧ s'.tables = s₁.tables ∧
      written s'.journal = written (s₁.conclude e v).1.journal := by
  rcases v with f | v
  · refine ⟨s₁, _, .cut h, rfl, ?_⟩
    simp only [conclude, concludeFault]
    split
    · exact (written_log _ _ _).symm
    · rfl
  · have ht := (s₁.deliver_keeps e v).tables
    rcases hd : s₁.deliver e v with ⟨s', e', f | _⟩ <;> rw [hd] at ht
    · exact ⟨s', _, .undelivered h hd, ht, by simp only [conclude, hd]⟩
    · exact ⟨s', _, .delivered h hd, ht, by simp only [conclude, hd]⟩

theorem logAll_tables (s : Core) (u : Option Nat) (ls : List LogEvent) :
    (s.logAll u ls).tables = s.tables := (s.logAll_keeps u ls).tables

/-- A job that comes to its end within a turn. -/
theorem Finishes.ended (h : s.Finishes opened j n T w) (hn : n ≤ turnLength) :
    ∃ s' o, s.Ends opened j s' o ∧ s'.tables = T ∧ written s'.journal = w := by
  obtain ⟨s₁, e, v, hend, rfl, rfl⟩ := h
  have hadvance := Run.advance_ended_of_le hend hn
  rw [← advanceJob_eq] at hadvance
  exact exists_ends hadvance

/-- A job that comes to its end after a turn and some requests more: it ends in the turn, or it lets
others go first and comes to its end after these requests. -/
theorem Finishes.cases (h : s.Finishes opened j (turnLength + n) T w) :
    (∃ s' o, s.Ends opened j s' o ∧ s'.tables = T ∧ written s'.journal = w) ∨
      ∃ s' r, s.advanceJob opened j = (s', .yielded r) ∧ s'.Finishes opened (.run r) n T w := by
  obtain ⟨s₁, e, v, hend, rfl, rfl⟩ := h
  rcases Run.advance_split turnLength n hend with hadvance | ⟨s', r, hadvance, hrest⟩
  · rw [← advanceJob_eq] at hadvance
    exact .inl (exists_ends hadvance)
  · rw [← advanceJob_eq] at hadvance
    exact .inr ⟨s', r, hadvance, s₁, e, v, hrest, rfl, rfl⟩

end Core

namespace Bot

variable {b : Bot} {i : Nat} {u : Task Job} {j : Job} {n : Nat} {T : Core} {w : String}

/-- The bot with another state of a unit and of what is shared, while these units stand in line. -/
def turned (b : Bot) (i : Nat) (u : Task Job) (due : List Nat) (s : Core) : Bot :=
  { b with core := s, units := { b.units with units := b.units.units.set i u, due := due } }

/-- The unit is at work on a job of its own, and is not to be cancelled. -/
structure Works (b : Bot) (i : Nat) (u : Task Job) (j : Job) : Prop where
  unit : b.units.units[i]? = some u
  standing : u.stage.standing = (some j, false)
  uncancelled : u.cancelling = false
  owned : u.Owned i

theorem turn_of_turns (hu : b.Works i u j) (due : List Nat) :
    ∃ s u', Task.Turns b.units.isOpen i b.core u s u' ∧ (b.withDue due).turn i =
      { b with core := s, units := { b.units with due := due }.replace i u' } := by
  obtain ⟨s, u', ht, he⟩ := Scheduler.takeTurn_turns (c := (b.withDue due).units) b.core
    hu.unit hu.owned
  refine ⟨s, u', ht, ?_⟩
  have he' : (b.withDue due).units.takeTurn botHost (b.withDue due).core i = _ := he
  rw [turn, he']
  rfl

/-- A turn in which the job of a unit comes to its end. -/
theorem turn_of_ends (hu : b.Works i u j) {s : Core} {o : Outcome}
    (h : b.core.Ends b.units.isOpen j s o) (due : List Nat) :
    (b.withDue due).turn i =
      b.turned i { u with stage := .done } due (s.logAll (some i) (o.reports u.label)) := by
  obtain ⟨s', u', ht, he⟩ := turn_of_turns hu due
  obtain ⟨rfl, rfl⟩ := ht.of_ends hu.standing hu.uncancelled h
  exact he

/-- A turn behind which a job is to go on. -/
theorem turn_of_yields (hu : b.Works i u j) {s : Core} {r : Run}
    (h : b.core.advanceJob b.units.isOpen j = (s, .yielded r)) (due : List Nat) :
    (b.withDue due).turn i =
        b.turned i { u with stage := .active (.due (.run r)) } (due ++ [i]) s ∧
      (b.turned i { u with stage := .active (.due (.run r)) } (due ++ [i]) s).Works i
        { u with stage := .active (.due (.run r)) } (.run r) := by
  obtain ⟨s', u', ht, he⟩ := turn_of_turns hu due
  have howned := ht.owned hu.owned
  obtain ⟨rfl, rfl⟩ := ht.of_yielded hu.standing hu.uncancelled h
  refine ⟨he, ?_, rfl, hu.uncancelled, howned⟩
  exact List.getElem?_set_self (List.getElem?_eq_some_iff.mp hu.unit).1

/-- **The turn** of a unit whose job comes to its end within a turn. -/
theorem turn_of_finishes (hu : b.Works i u j) (h : b.core.Finishes b.units.isOpen j n T w)
    (hn : n ≤ turnLength) (due : List Nat) :
    ∃ s, (b.withDue due).turn i = b.turned i { u with stage := .done } due s ∧ s.tables = T ∧
      written s.journal = w := by
  obtain ⟨s, o, hends, ht, hw⟩ := h.ended hn
  exact ⟨_, turn_of_ends hu hends due, (Core.logAll_tables _ _ _).trans ht,
    (written_logAll _ _ _).trans hw⟩

/-- **A unit that is alone in line** comes to its end, if it has turns enough. -/
theorem settleIn_finishes {turns : Nat} (hdue : b.units.due = [i]) (hu : b.Works i u j)
    (h : b.core.Finishes b.units.isOpen j n T w) (hn : n ≤ turns * turnLength) :
    ∃ s, b.settleIn turns = b.turned i { u with stage := .done } [] s ∧ s.tables = T ∧
      written s.journal = w := by
  -- Induction on the turns; behind each that is not the last the unit is in line again.
  induction turns generalizing b u j n with
  | zero =>
    obtain rfl : n = 0 := by omega
    obtain ⟨s, e, v, hend, -⟩ := h
    cases (Prod.mk.inj hend).2
  | succ turns ih =>
    rw [b.settleIn_succ hdue]
    by_cases hturn : n ≤ turnLength
    · obtain ⟨s, hs, ht, hw⟩ := turn_of_finishes hu h hturn []
      rw [hs, settleIn_of_due_nil _ rfl]
      exact ⟨s, rfl, ht, hw⟩
    · obtain ⟨n, rfl⟩ : ∃ k, n = turnLength + k := ⟨n - turnLength, by omega⟩
      rcases h.cases with ⟨s, o, hends, ht, hw⟩ | ⟨s, r, hadvance, hrest⟩
      · rw [turn_of_ends hu hends [], settleIn_of_due_nil _ rfl]
        exact ⟨_, rfl, (Core.logAll_tables _ _ _).trans ht, (written_logAll _ _ _).trans hw⟩
      · obtain ⟨hyields, hu'⟩ := turn_of_yields hu hadvance []
        rw [hyields]
        obtain ⟨s', hs', ht, hw⟩ := ih rfl hu' hrest (by rw [Nat.succ_mul] at hn; omega)
        refine ⟨s', hs'.trans ?_, ht, hw⟩
        simp [turned]

end Bot

end ChatCommands
