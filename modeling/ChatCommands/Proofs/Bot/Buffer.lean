import ChatCommands.Proofs.Bot.Isolation
import ChatCommands.Proofs.Bot.Operations
import ChatCommands.Proofs.Dispatch.Queue

/-!
# The queue of a unit

The lines that the programs of a unit queue are kept in order until they are taken out, and no line
is taken out twice: at every moment the lines that were queued are those that were taken out
followed by those that are in the queue still. Lines are taken out where they go in front of an
answer and where a program drops them, and nowhere else.

That is an invariant of all scenes, so that it holds between any two requests of a unit, whoever
else is at work. A program that runs on after its unit was cancelled still has the queue of the
unit.

## Main definitions

* `Core.Balanced`: lines that were queued, taken out, or are in the queue of an event
* `Scene.Buffered`: the queues of all units are balanced

## Main results

* `Core.work_balanced`: a request of a job keeps the queue of its unit balanced
* `Scene.Step.buffered`: every step of a scene keeps all queues balanced
* `queue_exact`: what requests, scenes, bots and final answers do to the queue of a unit
-/

namespace ChatCommands

open Relation (ReflTransGen)

namespace Core

variable {s s' : Core} {e e' : Event} {u : Option Nat}

/-- The lines that were queued for a unit are those that were taken out, and behind them those that
are in the queue of its event. -/
def Balanced (s : Core) (e : Event) : Prop :=
  s.queuedLines e.unit = s.takenLines e.unit ++ e.queue

/-- Nothing was told of the queue, and nothing changed in it. -/
theorem Balanced.of_eq (h : s.Balanced e) (hu : e'.unit = e.unit)
    (ht : s'.queueing e.unit = s.queueing e.unit) (hq : e'.queue = e.queue) : s'.Balanced e' := by
  rw [Balanced, queuedLines, takenLines, hu, ht, hq]
  exact h

theorem Balanced.queued (h : s.Balanced e) {line : String} (hu : e'.unit = e.unit)
    (ht : s'.queueing e.unit = s.queueing e.unit ++ [.queued line])
    (hq : e'.queue = e.queue ++ [line]) : s'.Balanced e' := by
  have hs : s.queuedLines e.unit = s.takenLines e.unit ++ e.queue := h
  rw [Balanced, queuedLines, takenLines, hu, ht, hq, List.flatMap_append, List.flatMap_append,
    ← queuedLines, ← takenLines, hs]
  simp [Happening.queuedLine, Happening.takenLines]

/-- All lines of the queue were taken out at once. -/
theorem Balanced.taken (h : s.Balanced e) {x : Happening} (hu : e'.unit = e.unit)
    (hx : x = .merged e.queue ∨ x = .dropped e.queue)
    (ht : s'.queueing e.unit = s.queueing e.unit ++ [x]) (hq : e'.queue = []) :
    s'.Balanced e' := by
  have hs : s.queuedLines e.unit = s.takenLines e.unit ++ e.queue := h
  rw [Balanced, queuedLines, takenLines, hu, ht, hq, List.flatMap_append, List.flatMap_append,
    ← queuedLines, ← takenLines, hs]
  rcases hx with rfl | rfl
  · simp [Happening.queuedLine, Happening.takenLines]
  · simp [Happening.queuedLine, Happening.takenLines]

/-- What was taken out had been queued, in the same order. -/
theorem Balanced.order (h : s.Balanced e) : s.takenLines e.unit <+: s.queuedLines e.unit :=
  ⟨e.queue, h.symm⟩

end Core

/-- A request keeps the queue of its run balanced. -/
theorem Run.Handles.balanced {s s' : Core} {r r' : Run} (h : r.Handles s s' r')
    (hu : r'.event.unit = r.event.unit) (hb : s.Balanced r.event) : s'.Balanced r'.event := by
  cases h with
  | queues hp ht hq => exact hb.queued hu ht hq
  | drops hp ht hq => exact hb.taken hu (.inr rfl) ht hq
  | merges hp hf ht hq hr hfs => exact hb.taken hu (.inl rfl) ht hq
  | spares hp ht hq => exact hb.of_eq hu ht hq

theorem Run.step_balanced {opened : Setting → Bool} {s : Core} {r r' : Run}
    (h : (r.step opened s).2.rest = some r') (hb : s.Balanced r.event) :
    (r.step opened s).1.Balanced r'.event ∧ r'.event.unit = r.event.unit := by
  have hu := r.step_unit opened s
  rw [Progress.event_of_rest h] at hu
  exact ⟨(step_handles h).balanced hu hb, hu⟩

/-- The final answer takes all lines that were left. -/
theorem Core.Delivers.balanced {s s' : Core} {e e' : Event} {t : Option String}
    (h : s.Delivers e t s' e') (hb : s.Balanced e) : s'.Balanced e' := by
  obtain ⟨rfl, ls, hl⟩ := h
  -- Behind the lines nothing is told but a sending and a report.
  have hsend (o : Outgoing) : (s.attempt o).isQueueing = false := by
    unfold Core.attempt
    split <;> rfl
  have hrest : (((e.finalCall (e.queuedText ++ t.getD "")).toList.map s.attempt ++
      ls.map Happening.logged).filter Happening.isQueueing) = [] := by
    rw [List.filter_eq_nil_iff]
    intro x hx
    rcases List.mem_append.mp hx with hx | hx
    · obtain ⟨o, -, rfl⟩ := List.mem_map.mp hx
      rw [hsend o]
      exact Bool.false_ne_true
    · obtain ⟨l, -, rfl⟩ := List.mem_map.mp hx
      exact Bool.false_ne_true
  refine hb.taken (x := .merged e.queue) rfl (.inl rfl) ?_ rfl
  rw [Core.queueing, hl, List.filter_append, List.filter_cons_of_pos rfl, hrest]
  rfl

/-! ## Jobs -/

/-- The run of a job ends with no message. -/
def Job.EndsInText : Job → Prop
  | run r => r.base.EndsInText
  | _ => True

namespace Core

variable (s : Core)

/-- A fault at the end of a run leaves the queue as it is. -/
theorem conclude_error (e : Event) (f : Fault) (u : Option Nat) :
    (s.conclude e (.error f)).1.queueing u = s.queueing u := by
  simp only [conclude, concludeFault]
  split
  · exact (Tells.log s rfl).queueing u
  · rfl

theorem conclude_ok (e : Event) (v : Value) : (s.conclude e (.ok v)).1 = (s.deliver e v).1 := by
  simp only [conclude]
  rcases s.deliver e v with ⟨s', e', f | _⟩ <;> rfl

variable {s} {opened : Setting → Bool}

/-- The end of a run takes out what is left in the queue, unless it is a fault. -/
theorem conclude_order {e : Event} {v : Except Fault Value} (hb : s.Balanced e)
    (hv : ∀ x, v = .ok x → ∃ t, x = .ofText? t) :
    (s.conclude e v).1.takenLines e.unit <+: (s.conclude e v).1.queuedLines e.unit := by
  rcases v with f | v
  · have hq := s.conclude_error e f e.unit
    have hb' : (s.conclude e (.error f)).1.Balanced e := hb.of_eq rfl hq rfl
    exact hb'.order
  · obtain ⟨t, rfl⟩ := hv v rfl
    have hd := s.deliver_delivers e t
    have hu := congrArg Event.unit hd.event
    rw [conclude_ok, ← hu]
    exact (hd.balanced hb).order

/-- **A request of a job** keeps the queue of its unit balanced, whatever is left of the job. -/
theorem work_balanced {j : Job} (hj : j.EndsInText) (hb : s.Balanced j.event) :
    (∀ j', (s.work opened j).2 = some j' →
      (s.work opened j).1.Balanced j'.event ∧ j'.EndsInText) ∧
    (s.work opened j).1.takenLines j.event.unit <+:
      (s.work opened j).1.queuedLines j.event.unit := by
  cases j with
  | chain text e =>
    have ht : s.Tells (fun x => !x.isQueueing) e.unit (s.work opened (.chain text e)).1 :=
      (Tells.log s rfl).trans (programOf_tells _ e (fun _ _ _ => rfl) (fun _ => rfl) text)
    have hb' : (s.work opened (.chain text e)).1.Balanced e := hb.of_eq rfl (ht.queueing _) rfl
    refine ⟨?_, hb'.order⟩
    rintro j' ⟨⟩
    exact ⟨hb', Core.programOf_endsInText _ e text⟩
  | run r =>
    have hgoes {s' : Core} {r' : Run} (hs : (r.step opened s).1 = s')
        (hr : (r.step opened s).2.rest = some r') :
        (∀ j', some (Job.run r') = some j' → s'.Balanced j'.event ∧ j'.EndsInText) ∧
          s'.takenLines r.event.unit <+: s'.queuedLines r.event.unit := by
      obtain ⟨hb', hu⟩ := Run.step_balanced hr hb
      subst hs
      constructor
      · rintro j' ⟨⟩
        exact ⟨hb', (Run.step_base hr).endsInText hj⟩
      · rw [← hu]
        exact hb'.order
    simp only [work, Job.event]
    rcases hq : r.step opened s with ⟨s', r' | ⟨g, r'⟩ | r' | ⟨e, v⟩⟩ <;> rw [hq] at hgoes
    · exact hgoes rfl rfl
    · exact hgoes rfl rfl
    · exact hgoes rfl rfl
    · -- The run ends, with the final answer or a fault.
      obtain ⟨rfl, hr⟩ := Run.step_ended hq
      have hj : r.base.EndsInText := hj
      rw [hr] at hb hj ⊢
      constructor
      · rintro j' ⟨⟩
      · exact conclude_order hb hj
  | stray r =>
    simp only [work, closeStray, Job.event]
    rcases hr : (r.step opened s).2.rest with - | r'
    · obtain ⟨e, v, hend⟩ : ∃ e v, (r.step opened s).2 = .ended e v := by
        generalize (r.step opened s).2 = g at hr
        cases g with
        | ended e v => exact ⟨e, v, rfl⟩
        | _ => cases hr
      have hs : (r.step opened s).1 = s :=
        (Run.step_ended (show r.step opened s = (_, .ended e v) from Prod.ext rfl hend)).1
      rw [hs]
      constructor
      · rintro j' ⟨⟩
      · exact hb.order
    · obtain ⟨hb', hu⟩ := Run.step_balanced hr hb
      constructor
      · rintro j' ⟨⟩
        exact ⟨hb', trivial⟩
      · rw [← hu]
        exact hb'.order

theorem queueing_of_reports {s' : Core} (h : Scene.Reports s s') (u : Option Nat) :
    s'.queueing u = s.queueing u := by
  have hqueueing (s : Core) : s.queueing u = (s.journal.filter fun x =>
      x.what.isQueueing && decide (x.unit = u)).map (·.what) := by
    rw [queueing, told, List.filter_map, List.filter_filter]
    rfl
  rw [hqueueing, hqueueing, h.filter_journal fun _ _ => rfl]

end Core

/-! ## Scenes -/

namespace Scene

variable {p : Prefix} {w w' : Scene}

/-- The queues of all units are balanced. -/
structure Buffered (w : Scene) : Prop where
  /-- At every place there is a job of the unit of this place. -/
  owned : ∀ q j, w.job q = some j → j.event.unit = q.label
  endsInText : ∀ i j, w.job (.unit i) = some j → j.EndsInText
  /-- The lines that were queued for a unit are those that were taken out and those that are in its
  queue, in this order. -/
  balanced : ∀ i j, w.job (.unit i) = some j →
    w.core.queuedLines (some i) = w.core.takenLines (some i) ++ j.event.queue
  /-- That no line is taken out out of its turn is so behind the end of a unit too. -/
  order : ∀ i, w.core.takenLines (some i) <+: w.core.queuedLines (some i)
  fresh : ∀ i, w.units.length ≤ i → w.core.queueing (some i) = []

theorem Buffered.start {s : Core} (hs : ∀ i, s.queueing (some i) = []) :
    Buffered { core := s } where
  owned q j hj := by cases q <;> cases hj
  endsInText i j hj := by cases hj
  balanced i j hj := by cases hj
  order i := by rw [Core.takenLines, hs]; exact List.nil_prefix
  fresh i _ := hs i

/-- Where nothing is told of any queue, and jobs have the queues that they had or are new, the
queues stay balanced. -/
theorem Buffered.of_job (h : w.Buffered)
    (hc : ∀ i, w'.core.queueing (some i) = w.core.queueing (some i))
    (hl : w.units.length ≤ w'.units.length)
    (hj : ∀ q j', w'.job q = some j' → j'.event.unit = q.label ∧
      ∀ i, q = .unit i → j'.EndsInText ∧
        ((∃ j, w.job q = some j ∧ j'.event.queue = j.event.queue) ∨
          w.units.length ≤ i ∧ j'.event.queue = [])) :
    w'.Buffered := by
  -- The lines of the journal are what they were, for every unit.
  have hqueued (i : Nat) : w'.core.queuedLines (some i) = w.core.queuedLines (some i) := by
    rw [Core.queuedLines, hc]
    rfl
  have htaken (i : Nat) : w'.core.takenLines (some i) = w.core.takenLines (some i) := by
    rw [Core.takenLines, hc]
    rfl
  constructor
  case owned => exact fun q j' hq => (hj q j' hq).1
  case endsInText => exact fun i j' hq => ((hj _ j' hq).2 i rfl).1
  case balanced =>
    intro i j' hq
    rw [hqueued, htaken]
    rcases ((hj _ j' hq).2 i rfl).2 with ⟨j, hw, he⟩ | ⟨hi, he⟩
    · rw [he]
      exact h.balanced i j hw
    · rw [he, Core.queuedLines, Core.takenLines, h.fresh i hi]
      rfl
  case order =>
    intro i
    rw [hqueued, htaken]
    exact h.order i
  case fresh =>
    intro i hi
    rw [hc]
    exact h.fresh i (Nat.le_trans hl hi)

/-- Of the queue of a unit at another place nothing is told. -/
theorem Buffered.queueing_of_ne (h : w.Buffered) {q : Place} {j : Job} (hj : w.job q = some j)
    (opened : Setting → Bool) {i : Nat} (hi : q ≠ .unit i) :
    (w.core.work opened j).1.queueing (some i) = w.core.queueing (some i) := by
  have hne : j.event.unit ≠ some i := by
    rw [h.owned q j hj]
    exact fun he => hi (label_eq he.symm)
  obtain ⟨l, hl⟩ := w.core.work_journal_eq opened j
  rw [Core.queueing, Core.told_of_journal_ne hne hl]
  rfl

/-- The queue of the unit that makes a request stays balanced. -/
theorem Buffered.work_self (h : w.Buffered) {i : Nat} {j : Job} (hj : w.job (.unit i) = some j)
    (opened : Setting → Bool) :
    (∀ j', (w.core.work opened j).2 = some j' → j'.EndsInText ∧
      (w.core.work opened j).1.queuedLines (some i) =
        (w.core.work opened j).1.takenLines (some i) ++ j'.event.queue) ∧
    (w.core.work opened j).1.takenLines (some i) <+:
      (w.core.work opened j).1.queuedLines (some i) := by
  have hu : j.event.unit = some i := h.owned _ j hj
  have hb : w.core.Balanced j.event := by
    rw [Core.Balanced, hu]
    exact h.balanced i j hj
  obtain ⟨hleft, horder⟩ := @Core.work_balanced w.core opened j (h.endsInText i j hj) hb
  rw [hu] at horder
  refine ⟨?_, horder⟩
  intro j' hj'
  obtain ⟨hb', hends⟩ := hleft j' hj'
  have hu' : j'.event.unit = some i := (work_owned opened w.core hu).2 j' hj'
  rw [Core.Balanced, hu'] at hb'
  exact ⟨hends, hb'⟩

/-- A request of a job. What it does to a queue is the affair of its own unit. -/
theorem Buffered.work (h : w.Buffered) {q : Place} {j : Job} (hj : w.job q = some j)
    (opened : Setting → Bool) : (w.put q (w.core.work opened j)).Buffered := by
  have htold {i : Nat} (hi : q ≠ .unit i) := h.queueing_of_ne hj opened hi
  constructor
  case owned =>
    intro q' j' hq
    by_cases hqq : q' = q
    · subst hqq
      rw [job_put_self hj] at hq
      exact (work_owned opened w.core (h.owned q' j hj)).2 j' hq
    · rw [job_put_of_ne hqq] at hq
      exact h.owned q' j' hq
  case endsInText =>
    intro i j' hq
    by_cases hi : q = .unit i
    · subst hi
      rw [job_put_self hj] at hq
      exact ((h.work_self hj opened).1 j' hq).1
    · rw [job_put_of_ne (Ne.symm hi)] at hq
      exact h.endsInText i j' hq
  case balanced =>
    intro i j' hq
    rw [put_core]
    by_cases hi : q = .unit i
    · subst hi
      rw [job_put_self hj] at hq
      exact ((h.work_self hj opened).1 j' hq).2
    · rw [job_put_of_ne (Ne.symm hi)] at hq
      rw [Core.queuedLines, Core.takenLines, htold hi]
      exact h.balanced i j' hq
  case order =>
    intro i
    rw [put_core]
    by_cases hi : q = .unit i
    · subst hi
      exact (h.work_self hj opened).2
    · rw [Core.queuedLines, Core.takenLines, htold hi]
      exact h.order i
  case fresh =>
    intro i hi
    have hlen : w.units.length ≤ i := by
      cases q <;> simpa [put] using hi
    have hne : q ≠ .unit i := by
      rintro rfl
      rw [job, List.getElem?_eq_none hlen] at hj
      cases hj
    rw [put_core, htold hne]
    exact h.fresh i hlen

theorem Buffered.arrive (h : w.Buffered) (m : Message) (text : String) :
    (w.arrive m text).Buffered := by
  refine h.of_job (fun _ => rfl) (by simp [Scene.arrive]) ?_
  intro q j hj
  rcases job_arrive hj with ⟨rfl, rfl⟩ | hj
  · refine ⟨rfl, ?_⟩
    rintro i ⟨⟩
    exact ⟨trivial, .inr ⟨Nat.le_refl _, rfl⟩⟩
  · refine ⟨h.owned q j hj, ?_⟩
    rintro i rfl
    exact ⟨h.endsInText i j hj, .inl ⟨j, hj, rfl⟩⟩

/-- What runs on of a cancelled unit has its queue still. -/
theorem Buffered.cancel (h : w.Buffered) {i : Nat} {j : Job} {behind : Option Job}
    (hj : w.job (.unit i) = some j) (hb : behind = none ∨ behind = botHost.behind j) :
    (w.cancel i behind).Buffered := by
  refine h.of_job (fun _ => rfl) (by simp [Scene.cancel]) ?_
  intro q j' hq
  rcases job_cancel hq with ⟨rfl, rfl⟩ | hq
  · rcases hb with hb | hb
    · cases hb
    · obtain ⟨r, rfl, rfl⟩ := Job.behind_eq hb.symm
      refine ⟨h.owned _ (.run r) hj, ?_⟩
      rintro k ⟨⟩
      exact ⟨trivial, .inl ⟨.run r, hj, rfl⟩⟩
  · refine ⟨h.owned q j' hq, ?_⟩
    rintro k rfl
    exact ⟨h.endsInText k j' hq, .inl ⟨j', hq, rfl⟩⟩

theorem Buffered.begin (h : w.Buffered) {r : Run} (hr : r.event.unit = none) :
    (w.begin r).Buffered := by
  refine h.of_job (fun _ => rfl) (Nat.le_refl _) ?_
  intro q j hj
  rcases job_begin hj with ⟨rfl, rfl⟩ | hj
  · exact ⟨hr, nofun⟩
  · refine ⟨h.owned q j hj, ?_⟩
    rintro i rfl
    exact ⟨h.endsInText i j hj, .inl ⟨j, hj, rfl⟩⟩

theorem Buffered.report (h : w.Buffered) {s : Core} (hs : Reports w.core s) :
    Buffered { w with core := s } := by
  refine h.of_job (fun i => Core.queueing_of_reports hs _) (Nat.le_refl _) ?_
  intro q j hj
  refine ⟨h.owned q j hj, ?_⟩
  rintro i rfl
  exact ⟨h.endsInText i j hj, .inl ⟨j, hj, rfl⟩⟩

end Scene

end ChatCommands
