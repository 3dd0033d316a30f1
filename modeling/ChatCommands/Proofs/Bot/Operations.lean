import ChatCommands.Proofs.Bot.Scene
import Mathlib.Logic.Relation

/-!
# Operations of a bot as steps of scenes

The scheduler gives units their turns in an order of its own, and a turn goes on for as long as it
can. All of it can be seen as single requests of units, one after another: a scene that shows what
goes on at a bot can move on to one that shows what goes on after any of its operations. Operations
that are not administration come down to moves, so that whatever the units share is changed by
their jobs only.

## Main definitions

* `Core.Works`: requests of one job
* `Shows`, `Bot.Shows`: a scene shows what goes on at a bot
* `Bot.Goes`, `Bot.Manages`, `Bot.Does`: what can happen at a bot

## Main results

* `Bot.goes_moves`: what goes on at a bot is a sequence of moves
* `Bot.does_steps`, `Bot.does_shown`: whatever happens at a bot is a sequence of steps
-/

namespace ChatCommands

open Relation (ReflTransGen)

/-- An element of a list is changed in the same way by what agrees on it. -/
theorem modify_congr {α : Type} {f g : α → α} {l : List α} {i : Nat}
    (h : ∀ x, l[i]? = some x → f x = g x) : l.modify i f = l.modify i g := by
  apply List.ext_getElem?
  intro k
  simp only [List.getElem?_modify]
  split
  next hk =>
    subst hk
    rcases hx : l[i]? with - | x
    · rfl
    · exact congrArg some (h x hx)
  · rfl

/-! ## The turn of a job -/

namespace Core

/-- Requests of a job, one after another, while nobody else changes the core. -/
def Works : Core × Option Job → Core × Option Job → Prop :=
  ReflTransGen fun a b => ∃ opened j, a.2 = some j ∧ b = a.1.work opened j

theorem works_work (opened : Setting → Bool) (s : Core) (j : Job) :
    Works (s, some j) (s.work opened j) := .single ⟨opened, j, rfl, rfl⟩

/-- A run that goes on for a while is a job that makes requests. -/
theorem works_advance (opened : Setting → Bool) (wrap : Run → Job)
    (close : Core × Progress → Core × Option Job)
    (hw : ∀ s r, work opened s (wrap r) = close (r.step opened s))
    (ho : ∀ s r, close (s, .on r) = (s, some (wrap r)))
    (hy : ∀ s r, close (s, .yielded r) = (s, some (wrap r))) (n : Nat) (s : Core) (r : Run) :
    Works (s, some (wrap r)) (close (r.advance opened n s)) := by
  induction n generalizing s r with
  | zero =>
    rw [Run.advance, hy]
    exact .refl
  | succ n ih =>
    have h := works_work opened s (wrap r)
    rw [hw] at h
    rw [Run.advance]
    generalize r.step opened s = q at h ⊢
    obtain ⟨s', p⟩ := q
    cases p with
    | on r' =>
      rw [ho] at h
      exact h.trans (ih s' r')
    | _ => exact h

end Core

/-- What is left of work after a turn. -/
def Turn.rest {τ : Type} : Turn τ → Option τ
  | blocked _ w => some w
  | yielded w => some w
  | ended _ => none

namespace Core

theorem conclude_rest (s : Core) (e : Event) (v : Except Fault Value) :
    (s.conclude e v).2.rest = none := by
  rcases v with f | v
  · simp only [conclude, concludeFault]
    split <;> rfl
  · simp only [conclude]
    split <;> rfl

theorem works_resumeRun (opened : Setting → Bool) (s : Core) (r : Run) :
    Works (s, some (.run r)) ((s.resumeRun opened r).1, (s.resumeRun opened r).2.rest) := by
  have h := works_advance opened .run close (fun _ _ => rfl) (fun _ _ => rfl) (fun _ _ => rfl)
    turnLength s r
  unfold resumeRun
  generalize r.advance opened turnLength s = q at h ⊢
  obtain ⟨s', p⟩ := q
  cases p with
  | ended e v => simpa only [conclude_rest, close] using h
  | _ => exact h

theorem works_resumeStray (opened : Setting → Bool) (s : Core) (r : Run) :
    Works (s, some (.stray r)) ((s.resumeStray opened r).1, (s.resumeStray opened r).2.rest) := by
  have h := works_advance opened .stray closeStray (fun _ _ => rfl) (fun _ _ => rfl)
    (fun _ _ => rfl) turnLength s r
  unfold resumeStray
  generalize r.advance opened turnLength s = q at h ⊢
  obtain ⟨s', p⟩ := q
  cases p <;> exact h

/-- **The turn of a job** is a sequence of requests. -/
theorem works_resumeJob (opened : Setting → Bool) (s : Core) (j : Job) :
    Works (s, some j) ((s.resumeJob opened j).1, (s.resumeJob opened j).2.rest) := by
  cases j with
  | chain text e => exact (works_work opened s (.chain text e)).trans (works_resumeRun opened _ _)
  | run r => exact works_resumeRun opened s r
  | stray r => exact works_resumeStray opened s r

end Core

namespace Scene

variable {p : Prefix} {w : Scene} {q : Place} {j : Job}

theorem put_put (w : Scene) (q : Place) (x y : Core × Option Job) :
    (w.put q x).put q y = w.put q y := by
  cases q with
  | unit i => simp [put, List.modify_modify_eq, Function.comp_def]
  | hand k => simp [put]

theorem put_job (h : w.job q = some j) : w.put q (w.core, some j) = w := by
  obtain ⟨s, us, hs⟩ := w
  cases q with
  | unit i =>
    obtain ⟨u, hu, hj⟩ := Option.bind_eq_some_iff.mp h
    have hm : us.modify i (fun u => { u with job := some j }) = us.modify i id :=
      modify_congr fun v hv => by
        obtain rfl := Option.some.inj (hu.symm.trans hv)
        rw [← hj]
        rfl
    simpa only [put, List.modify_id, mk.injEq, true_and, and_true] using hm
  | hand k =>
    obtain ⟨hk, hj⟩ := List.getElem?_eq_some_iff.mp (Option.join_eq_some_iff.mp h)
    simp only [put, ← hj, List.set_getElem_self]

/-- Requests of a job move a scene on. -/
theorem moves_put {x : Core × Option Job} (h : w.job q = some j)
    (hx : Core.Works (w.core, some j) x) : ReflTransGen (Move p) w (w.put q x) := by
  induction hx with
  | refl =>
    rw [put_job h]
  | @tail y z _ hz ih =>
    obtain ⟨opened, j', hj, rfl⟩ := hz
    have hs := Move.work (p := p) (w := w.put q y) q j' opened ((job_put_self h y).trans hj)
    rw [put_put, put_core] at hs
    exact ih.tail hs

end Scene

/-! ## Where units stand -/

/-- What is left of the work of a unit, and whether it was cancelled. -/
def Stage.standing : Stage Job → Option Job × Bool
  | fresh j => (some j, false)
  | active a => (some a.rest, false)
  | done => (none, false)
  | cancelled b => (b.map Activity.rest, true)

/-- Where the units of a scheduler stand. -/
def Scheduler.standings (c : Scheduler Job) : List (Option Job × Bool) :=
  c.units.map fun t => t.stage.standing

/-- Where the units of a scene stand. -/
def Scene.standings (w : Scene) : List (Option Job × Bool) :=
  w.units.map fun u => (u.job, u.cancelled)

theorem map_modify {α β : Type} {f : α → α} {g : β → β} {m : α → β}
    (h : ∀ x, m (f x) = g (m x)) (l : List α) (i : Nat) :
    (l.modify i f).map m = (l.map m).modify i g := by
  apply List.ext_getElem?
  intro k
  simp only [List.getElem?_map, List.getElem?_modify]
  split <;> rcases l[k]? with - | x <;> simp [h]

namespace Scene

variable (w : Scene) (i : Nat)

theorem standings_put (x : Core × Option Job) :
    (w.put (.unit i) x).standings = w.standings.modify i fun y => (x.2, y.2) := by
  simp only [standings, put]
  refine map_modify (fun u => ?_) w.units i
  rfl

theorem standings_cancel (behind : Option Job) :
    (w.cancel i behind).standings = w.standings.modify i fun _ => (behind, true) := by
  simp only [standings, cancel]
  refine map_modify (fun u => ?_) w.units i
  rfl

theorem standings_arrive (m : Message) (text : String) :
    (w.arrive m text).standings = w.standings ++
      [(some (.chain text { unit := some w.units.length, message := m }), false)] := by
  simp [standings, arrive]

end Scene

namespace Scheduler

variable (c : Scheduler Job) (i : Nat)

theorem standings_setStage {f : Stage Job → Stage Job}
    {g : Option Job × Bool → Option Job × Bool} (h : ∀ t, (f t).standing = g t.standing) :
    (c.setStage i f).standings = c.standings.modify i g := by
  unfold standings setStage
  exact map_modify (fun t => h t.stage) c.units i

theorem standings_enlist (a : Option (Activity Job)) : (c.enlist i a).standings = c.standings := by
  rcases a with - | a
  · rfl
  · cases a <;> rfl

theorem standings_goOn (a : Activity Job) :
    (c.goOn i a).standings = c.standings.modify i fun y => (some a.rest, y.2) := by
  rw [goOn, standings_enlist]
  exact standings_setStage c i fun t => by cases t <;> rfl

theorem standings_conclude (b : Option (Activity Job)) :
    (c.conclude i b).standings = c.standings.modify i fun _ => (b.map Activity.rest, true) := by
  rw [conclude, standings_enlist]
  exact standings_setStage c i fun _ => rfl

/-- Whether a cancellation has been asked for does not count yet. -/
theorem standings_set {t u : Task Job} (ht : c.units[i]? = some t) (hu : u.stage = t.stage) :
    standings { c with units := c.units.set i u } = c.standings := by
  apply List.ext_getElem?
  intro k
  simp only [standings, List.getElem?_map, List.getElem?_set]
  split
  next hk =>
    subst hk
    obtain ⟨hi, rfl⟩ := List.getElem?_eq_some_iff.mp ht
    simp [hi, hu]
  · rfl

theorem standings_release (gate : Setting) : (c.release gate).standings = c.standings := by
  have hm (is : List Nat) (d : Scheduler Job) : (is.foldl makeDue d).standings = d.standings := by
    induction is generalizing d with
    | nil => rfl
    | cons k is ih =>
      rw [List.foldl_cons, ih, makeDue, standings_setStage d k (g := id), List.modify_id]
      rintro (w | a | - | - | a) <;> rfl
  exact hm _ _

theorem standings_cancelTask : (c.cancel i).1.standings = c.standings := by
  unfold cancel
  split
  · rfl
  next u hu =>
    have hs := standings_set c i (u := { u with cancelling := true }) hu rfl
    split
    · dsimp only
      split <;> exact hs
    · rfl

theorem standings_cancelAll (is : List Nat) : (c.cancelAll is).standings = c.standings := by
  unfold cancelAll
  induction is generalizing c with
  | nil => rfl
  | cons i is ih => exact (ih _).trans (standings_cancelTask c i)

end Scheduler

/-! ## Turns of units -/

/-- A scene shows what goes on with units that share a core. -/
structure Shows (s : Core) (c : Scheduler Job) (w : Scene) : Prop where
  core : w.core = s
  standings : w.standings = c.standings

/-- No message came in, and runs for events made by hand wait. -/
structure Scene.Alongside (w w' : Scene) : Prop where
  messages : w'.messages = w.messages
  hands : w'.hands = w.hands

theorem map_message_modify {f : Member → Member} (hf : ∀ u, (f u).message = u.message)
    (l : List Member) (i : Nat) : (l.modify i f).map (·.message) = l.map (·.message) := by
  rw [map_modify (g := id) hf, List.modify_id]

theorem Scene.alongside_put (w : Scene) (i : Nat) (x : Core × Option Job) :
    w.Alongside (w.put (.unit i) x) :=
  ⟨map_message_modify (f := fun u => { u with job := x.2 }) (fun _ => rfl) w.units i, rfl⟩

theorem Scene.alongside_cancel (w : Scene) (i : Nat) (behind : Option Job) :
    w.Alongside (w.cancel i behind) :=
  ⟨map_message_modify (f := fun u => { u with job := behind, cancelled := true }) (fun _ => rfl)
    w.units i, rfl⟩

/-- The scene can move on to one that shows this, with no other jobs than before. -/
def Reaches (p : Prefix) (w : Scene) (s : Core) (c : Scheduler Job) : Prop :=
  ∃ w', ReflTransGen (Scene.Move p) w w' ∧ Shows s c w' ∧ w.Alongside w'

namespace Reaches

variable {p : Prefix} {w : Scene} {s s' : Core} {c c' : Scheduler Job}

theorem refl (h : Shows s c w) : Reaches p w s c := ⟨w, .refl, h, rfl, rfl⟩

theorem trans (h : Reaches p w s c) (h' : ∀ {w}, Shows s c w → Reaches p w s' c') :
    Reaches p w s' c' := by
  obtain ⟨w₁, h₁, hs₁, ha₁⟩ := h
  obtain ⟨w₂, h₂, hs₂, ha₂⟩ := h' hs₁
  exact ⟨w₂, h₁.trans h₂, hs₂, ha₂.messages.trans ha₁.messages, ha₂.hands.trans ha₁.hands⟩

/-- Something is reported. -/
theorem report (h : Shows s c w) (hr : Scene.Reports s s') (ht : s'.tables = s.tables) :
    Reaches p w s' c := by
  obtain ⟨rfl, hs⟩ := h
  exact ⟨_, .single (.report s' hr ht), ⟨rfl, hs⟩, rfl, rfl⟩

theorem log (h : Shows s c w) (u : Option Nat) (l : LogEvent) : Reaches p w (s.log u l) c :=
  report h ⟨[(u, l)], rfl⟩ rfl

/-- The same units, whatever is due or waits. -/
theorem of_standings (h : Reaches p w s c) (hc : c'.standings = c.standings) :
    Reaches p w s c' := by
  obtain ⟨w', h, hs, hh⟩ := h
  exact ⟨w', h, ⟨hs.core, hs.standings.trans hc.symm⟩, hh⟩

end Reaches

/-- The job of a unit is found where it stands. -/
theorem Scene.job_of_standings {w : Scene} {i : Nat} {j : Job} {b : Bool}
    (h : w.standings[i]? = some (some j, b)) : w.job (.unit i) = some j := by
  simp only [standings, List.getElem?_map, Option.map_eq_some_iff] at h
  obtain ⟨u, hu, hj⟩ := h
  simp only [job, hu]
  exact (Prod.mk.inj hj).1

theorem Core.conclude_ne_cancelled (s : Core) (e : Event) (v : Except Fault Value) :
    (s.conclude e v).2 ≠ .ended .cancelled := by
  intro h
  rcases v with f | v
  · simp only [conclude, concludeFault] at h
    split at h <;> cases h
  · simp only [conclude] at h
    split at h <;> cases h

/-- A unit is cancelled only from outside. -/
theorem Core.resumeJob_ne_cancelled (opened : Setting → Bool) (s : Core) (j : Job) :
    (s.resumeJob opened j).2 ≠ .ended .cancelled := by
  have hr (s : Core) (r : Run) : (s.resumeRun opened r).2 ≠ .ended .cancelled := by
    unfold resumeRun
    rcases r.advance opened turnLength s with ⟨s', r' | ⟨g, r'⟩ | r' | ⟨e, v⟩⟩
    case ended => exact s'.conclude_ne_cancelled e v
    all_goals nofun
  cases j with
  | chain text e => exact hr _ _
  | run r => exact hr s r
  | stray r =>
    simp only [resumeJob, resumeStray]
    rcases r.advance opened turnLength s with ⟨s', r' | ⟨g, r'⟩ | r' | ⟨e, v⟩⟩ <;> nofun

namespace Scheduler

variable {p : Prefix} {w : Scene} {s : Core} {c : Scheduler Job} {i : Nat}

/-- The turn of a unit that was not cancelled. -/
theorem reaches_turn {j : Job} (h : Shows s c w) (hi : c.standings[i]? = some (some j, false))
    (opened : Setting → Bool) (label : Setting) (b : Option (Activity Job)) :
    Reaches p w
      (c.settleTurn botHost (s.resumeJob opened j).1 i label b (s.resumeJob opened j).2).1
      (c.settleTurn botHost (s.resumeJob opened j).1 i label b (s.resumeJob opened j).2).2 := by
  obtain ⟨rfl, hs⟩ := h
  have hw := Core.works_resumeJob opened w.core j
  have hn := Core.resumeJob_ne_cancelled opened w.core j
  have hsteps := Scene.moves_put (p := p) (Scene.job_of_standings (hs ▸ hi)) hw
  generalize w.core.resumeJob opened j = q at hn hsteps ⊢
  obtain ⟨s', t⟩ := q
  have hput : (w.put (.unit i) (s', t.rest)).standings =
      c.standings.modify i fun y => (t.rest, y.2) := by
    rw [Scene.standings_put, hs]
  have hdone : (c.setStage i fun _ => .done).standings =
      c.standings.modify i fun y => (none, y.2) := by
    rw [standings_setStage c i (g := fun _ => (none, false)) fun _ => rfl]
    refine modify_congr ?_
    intro x hx
    rw [Option.some.inj (hi.symm.trans hx).symm]
  -- However the turn ended, the scheduler and the scene keep the same rest of the job.
  have hreach {c'} (hc : c'.standings = c.standings.modify i fun y => (t.rest, y.2)) :
      Reaches p w s' c' :=
    ⟨_, hsteps, ⟨Scene.put_core _ _ _, hput.trans hc.symm⟩, Scene.alongside_put _ _ _⟩
  rcases t with ⟨g, j'⟩ | j' | - | f | -
  · exact hreach (standings_goOn c i _)
  · exact hreach (standings_goOn c i _)
  · exact hreach hdone
  · refine (hreach hdone).trans ?_
    intro v h
    simp only [settleTurn]
    split
    · exact .log h _ _
    · exact .refl h
  · exact absurd rfl hn

/-- The turn of what is left running of a cancelled unit. -/
theorem reaches_runBehind {j : Job} (h : Shows s c w)
    (hi : c.standings[i]? = some (some j, true)) :
    Reaches p w (c.runBehind botHost s i j).1 (c.runBehind botHost s i j).2 := by
  obtain ⟨rfl, hs⟩ := h
  have hw := Core.works_resumeJob c.isOpen w.core j
  have hsteps := Scene.moves_put (p := p) (Scene.job_of_standings (hs ▸ hi)) hw
  refine ⟨_, hsteps, ⟨Scene.put_core _ _ _, ?_⟩, Scene.alongside_put _ _ _⟩
  rw [Scene.standings_put, hs, runBehind, standings_conclude]
  refine modify_congr ?_
  intro x hx
  rw [Option.some.inj (hi.symm.trans hx).symm]
  simp only [botHost]
  rcases (w.core.resumeJob c.isOpen j).2 with ⟨g, j'⟩ | j' | - <;> rfl

/-- The cancellation of a unit. -/
theorem reaches_conclude {j : Job} {b : Bool} {a : Option (Activity Job)} (h : Shows s c w)
    (hi : c.standings[i]? = some (some j, b))
    (ha : a.map Activity.rest = none ∨ a.map Activity.rest = botHost.behind j) :
    Reaches p w s (c.conclude i a) := by
  obtain ⟨rfl, hs⟩ := h
  refine ⟨_, .single (.cancel i j _ (Scene.job_of_standings (hs ▸ hi)) ha), ⟨rfl, ?_⟩,
    Scene.alongside_cancel _ _ _⟩
  rw [Scene.standings_cancel, hs, standings_conclude]

theorem standings_of_units {u : Task Job} (h : c.units[i]? = some u) :
    c.standings[i]? = some u.stage.standing := by
  simp [standings, h]

/-- **The turn of a unit** is a sequence of steps. -/
theorem reaches_takeTurn (h : Shows s c w) (i : Nat) :
    Reaches p w (c.takeTurn botHost s i).1 (c.takeTurn botHost s i).2 := by
  unfold takeTurn
  split
  · exact .refl h
  next u hu =>
    have hi := standings_of_units hu
    rcases hstage : u.stage with j | a | - | - | a <;> rw [hstage] at hi
    · dsimp only
      split
      · exact reaches_conclude (a := none) h hi (.inl rfl)
      · exact reaches_turn h hi c.isOpen u.label none
    · dsimp only
      split
      · -- The host interrupts at once, so that nothing is left but what runs on by itself.
        have hc := standings_set c i (u := { u with cancelling := false }) hu rfl
        have hr : ((botHost.behind a.rest).map a.withRest).map Activity.rest =
            botHost.behind a.rest := by
          cases a <;> simp [Function.comp_def, Activity.rest, Activity.withRest]
        simp only [hstage] at hc
        exact (reaches_conclude ⟨h.core, h.standings.trans hc.symm⟩ (hc ▸ hi) (.inr hr)).trans
          fun h => .log h _ _
      · exact reaches_turn h hi c.isOpen u.label none
    · exact .refl h
    · exact .refl h
    · exact reaches_runBehind h hi

/-- Turns in order are a sequence of steps. -/
theorem reaches_settle (n : Nat) (h : Shows s c w) :
    Reaches p w (settle botHost n s c).1 (settle botHost n s c).2 := by
  induction n generalizing s c w with
  | zero => exact .refl h
  | succ n ih =>
    rw [settle]
    rcases hd : c.due with - | ⟨i, rest⟩
    · exact .refl h
    · exact (reaches_takeTurn (c := { c with due := rest }) ⟨h.core, h.standings⟩ i).trans ih

/-- What is tracked makes no difference to a scene. -/
theorem reaches_untrack (n : Nat) (h : Shows s c w) :
    Reaches p w (settle botHost n s c).1 (settle botHost n s c).2.untrack :=
  (reaches_settle n h).of_standings rfl

theorem reaches_cancelLeft (turns : Nat) (watched : List Nat) (h : Shows s c w) :
    Reaches p w (cancelLeft botHost turns s c watched).1
      (cancelLeft botHost turns s c watched).2.1 := by
  unfold cancelLeft
  split
  · exact .refl h
  · have hc := h.standings.trans (standings_cancelAll c (watched.filter c.isPending)).symm
    exact (reaches_untrack turns ⟨h.core, hc⟩).trans fun h => .log h _ _

/-- The end of the work is a sequence of steps. -/
theorem reaches_drain (turns : Nat) (timeout : Setting) (h : Shows s c w) :
    Reaches p w (drain botHost turns s c timeout).1 (drain botHost turns s c timeout).2.1 := by
  unfold drain
  split
  · exact .refl h
  · exact .refl h
  · dsimp only
    split
    · exact (reaches_untrack turns h).trans fun h => reaches_cancelLeft turns _ h
    · exact reaches_untrack turns h

end Scheduler

/-! ## Operations of a bot -/

namespace Scene.Reports

variable {s s₁ s₂ : Core}

theorem refl (s : Core) : Reports s s := ⟨[], by simp⟩

theorem trans (h : Reports s s₁) (h' : Reports s₁ s₂) : Reports s s₂ := by
  obtain ⟨l, hl⟩ := h
  obtain ⟨l', hl'⟩ := h'
  exact ⟨l ++ l', by simp [hl', hl]⟩

theorem log (s : Core) (u : Option Nat) (l : LogEvent) : Reports s (s.log u l) := ⟨[(u, l)], rfl⟩

theorem logAll (s : Core) (u : Option Nat) (ls : List LogEvent) : Reports s (s.logAll u ls) := by
  induction ls generalizing s with
  | nil => exact refl s
  | cons l ls ih => exact (log s u l).trans (ih _)

theorem programOfParsed (s : Core) (e : Event) (p : Parsed) :
    Reports s (s.programOfParsed e p).1 := by
  have h := logAll s e.unit p.events
  unfold Core.programOfParsed
  rcases p.chain with f | c
  · exact h
  · exact h.trans (log _ _ _)

theorem programOfGiven (s : Core) (e : Event) (v : Setting) :
    Reports s (s.programOfGiven e v).1 := by
  unfold Core.programOfGiven Core.programOf
  split
  · split
    · exact programOfParsed s e _
    · exact refl s
  · exact programOfParsed s e _

end Scene.Reports

theorem Core.programOfGiven_keeps (s : Core) (e : Event) (v : Setting) :
    s.Keeps (s.programOfGiven e v).1 := by
  unfold programOfGiven
  split
  · exact s.programOf_keeps e _
  · exact s.programOfParsed_keeps e _

namespace Bot

/-- A scene shows what goes on at a bot. -/
abbrev Shows (b : Bot) (w : Scene) : Prop := ChatCommands.Shows b.core b.units w

/-- Gives a unit its turn. -/
def turn (b : Bot) (i : Nat) : Bot :=
  let p := b.units.takeTurn botHost b.core i
  { b with core := p.1, units := p.2 }

/-- The message that comes in, if it triggers the bot. -/
def accepted (b : Bot) (m : Message) : List Message :=
  match (b.receive m).2 with
  | .ok (some _) => [m]
  | _ => []

/-- What goes on at a bot: messages and turns of units in any order, cancellations, opened gates,
and commands for events that are made by hand, with the messages that became units. Commands that
are called whatever their author may do are not among it. -/
inductive Goes (b : Bot) : List Message → Bot → Prop where
  | receive (m : Message) : Goes b (b.accepted m) (b.receive m).1
  | turn (i : Nat) : Goes b [] (b.turn i)
  | settle : Goes b [] b.settle
  | release (gate : Setting) : Goes b [] (b.release gate).1
  | cancel (i : Nat) : Goes b [] (b.cancel i).1
  | stop : Goes b [] b.stop.1
  | execute {e : Event} (name arguments chained : Setting) (h : e.unit = none) :
    Goes b [] (b.execute e name arguments chained).1
  | runChain {e : Event} (text : Setting) (h : e.unit = none) : Goes b [] (b.runChain e text).1
  | runSimple {e : Event} (text : Setting) (h : e.unit = none) : Goes b [] (b.runSimple e text).1

/-- Administration, which changes what the units share. -/
inductive Manages (b : Bot) : Bot → Prop where
  | register (names : Setting) (options : Fields) (manner : Manner) (handler : Handler) :
    Manages b (b.register names options manner handler).1
  | remove (name : Setting) : Manages b (b.remove name).1
  | setUser (id : Id) (level : Setting) : Manages b (b.setUser id level).1
  | setRole (id : Id) (level : Setting) : Manages b (b.setRole id level).1
  | replace (t : Transport) : Manages b { b with core := { b.core with transport := t } }

/-- What can happen at a bot. -/
inductive Does (b : Bot) : Bot → Prop where
  | goes {ms : List Message} {b' : Bot} (h : b.Goes ms b') : Does b b'
  | manages {b' : Bot} (h : b.Manages b') : Does b b'

/-- A scene that shows a bot can move on to one that shows another bot of the same prefix, with
units for these messages. -/
def MovesTo (b : Bot) (ms : List Message) (b' : Bot) : Prop :=
  b'.trigger = b.trigger ∧
    ∀ {w}, b.Shows w → ∃ w', ReflTransGen (Scene.Move b.trigger) w w' ∧ b'.Shows w' ∧
      w'.messages = w.messages ++ ms

namespace MovesTo

variable {b b' b'' : Bot} {ms ms' : List Message}

theorem refl (b : Bot) : b.MovesTo [] b :=
  ⟨rfl, fun h => ⟨_, .refl, h, (List.append_nil _).symm⟩⟩

theorem trans (h : b.MovesTo ms b') (h' : b'.MovesTo ms' b'') : b.MovesTo (ms ++ ms') b'' := by
  refine ⟨h'.1.trans h.1, ?_⟩
  intro w hw
  obtain ⟨w₁, h₁, hs₁, hm₁⟩ := h.2 hw
  obtain ⟨w₂, h₂, hs₂, hm₂⟩ := h'.2 hs₁
  refine ⟨w₂, h₁.trans (h.1 ▸ h₂), hs₂, ?_⟩
  rw [hm₂, hm₁, List.append_assoc]

theorem of_reaches (ht : b'.trigger = b.trigger)
    (h : ∀ {w}, b.Shows w → Reaches b.trigger w b'.core b'.units) : b.MovesTo [] b' := by
  refine ⟨ht, ?_⟩
  intro w hw
  obtain ⟨w', hs, hs', ha⟩ := h hw
  exact ⟨w', hs, hs', ha.messages.trans (List.append_nil _).symm⟩

/-- The units do nothing, and something is reported. -/
theorem of_reports (ht : b'.trigger = b.trigger) (hu : b'.units.standings = b.units.standings)
    (hr : Scene.Reports b.core b'.core) (hT : b'.core.tables = b.core.tables) :
    b.MovesTo [] b' :=
  of_reaches ht fun h => (Reaches.report h hr hT).of_standings hu

end MovesTo

section Operations

variable (b : Bot)

theorem settle_moves : b.MovesTo [] b.settle :=
  .of_reaches rfl (Scheduler.reaches_untrack turnLimit)

theorem stop_moves : b.MovesTo [] b.stop.1 := by
  have h {w : Scene} (hw : b.Shows w) :=
    Scheduler.reaches_drain (p := b.trigger) turnLimit b.timeout hw
  unfold stop
  generalize b.units.drain botHost turnLimit b.core b.timeout = q at h ⊢
  rcases q with ⟨s, c, f | n⟩
  · exact .of_reaches rfl h
  · exact .of_reaches rfl fun hw => (h hw).trans fun hw => .log hw _ _

theorem release_moves (gate : Setting) : b.MovesTo [] (b.release gate).1 := by
  unfold release
  split
  · exact .of_reports rfl (b.units.standings_release gate) (.refl _) rfl
  · exact .refl b

/-- A unit that is spawned is one whose message has come in. -/
theorem spawn_moves {m : Message} {u : User} {text : String}
    (ht : Scene.Triggers b.trigger b.core m text) : b.MovesTo [m] (b.spawn m u text).1 := by
  refine ⟨rfl, ?_⟩
  intro w hw
  have hl : w.units.length = b.units.units.length := by
    simpa [Scene.standings, Scheduler.standings] using congrArg List.length hw.standings
  obtain ⟨hc, hs⟩ := hw
  have ha : ChatCommands.Shows b.core (b.spawn m u text).1.units (w.arrive m text) := by
    refine ⟨hc, ?_⟩
    rw [Scene.standings_arrive, hs, hl]
    simp [spawn, Scheduler.spawn, Scheduler.standings, Stage.standing]
  obtain ⟨w', h', hs', hm⟩ := Reaches.report (p := b.trigger) ha
    ((Scene.Reports.log _ none _).trans (.log _ (some b.units.units.length) _)) rfl
  refine ⟨w', .head (.arrive m text (hc ▸ ht)) h', hs', hm.messages.trans ?_⟩
  simp [Scene.messages, Scene.arrive]

theorem receive_moves (m : Message) : b.MovesTo (b.accepted m) (b.receive m).1 := by
  suffices h : ∀ q, b.receive m = q →
      b.MovesTo (match q.2 with | .ok (some _) => [m] | _ => []) q.1 from h _ rfl
  intro q hq
  rw [receive] at hq
  split at hq
  · subst hq
    exact .of_reports rfl rfl (.log _ _ _) rfl
  next u hu =>
    split at hq
    · subst hq
      exact .refl b
    next hself =>
      rcases htr : ChatCommands.trigger b.trigger b.core.attributes m.content with f | t
      · simp only [chainText, htr] at hq
        subst hq
        exact .refl b
      · have ht := (b.core.logAll_keeps none t.events).tables
        have hl : b.MovesTo [] { b with core := b.core.logAll none t.events } :=
          .of_reports rfl rfl (.logAll _ _ _) ht
        rcases hc : t.chain with - | text
        · simp only [chainText, htr, hc] at hq
          subst hq
          exact hl
        · have htext : Scene.Triggers b.trigger b.core m text := ⟨⟨u, hu, hself⟩, t, htr, hc⟩
          simp only [chainText, htr, hc] at hq
          subst hq
          exact hl.trans (spawn_moves _ (htext.of_tables ht))

theorem finish_trigger (n : Nat) (b : Bot) (r : Run) : (finish n b r).1.trigger = b.trigger := by
  induction n generalizing b r with
  | zero => rfl
  | succ n ih =>
    rw [finish]
    rcases r.advance b.units.isOpen turnLength b.core with ⟨s', r' | ⟨g, r'⟩ | r' | ⟨e, v⟩⟩
    case yielded => exact ih _ r'
    all_goals rfl

/-- A run for an event made by hand goes on until it ends, or for as long as it can. -/
theorem finish_moves (n : Nat) {b : Bot} {r : Run} {w : Scene} {k : Nat} (hw : b.Shows w)
    (hk : w.hands[k]? = some (some (.stray r))) :
    ∃ w', ReflTransGen (Scene.Move b.trigger) w w' ∧ (finish n b r).1.Shows w' ∧
      w'.messages = w.messages := by
  induction n generalizing b r w with
  | zero => exact ⟨w, .refl, hw, rfl⟩
  | succ n ih =>
    have hx := Core.works_advance b.units.isOpen .stray Core.closeStray (fun _ _ => rfl)
      (fun _ _ => rfl) (fun _ _ => rfl) turnLength w.core r
    have hj : w.job (.hand k) = some (.stray r) := by simp [Scene.job, hk]
    have hs := Scene.moves_put (p := b.trigger) hj hx
    rw [finish, ← hw.core]
    generalize r.advance b.units.isOpen turnLength w.core = q at hs ⊢
    obtain ⟨s', g⟩ := q
    have hshow (x : Option Job) : Shows { b with core := s' } (w.put (.hand k) (s', x)) :=
      ⟨rfl, hw.standings⟩
    cases g with
    | yielded r' =>
      -- While others have their turns, the run waits where it is.
      obtain ⟨w₁, h₁, hs₁, ha⟩ := Scheduler.reaches_untrack turnLimit (hshow (some (.stray r')))
      have hk' : w₁.hands[k]? = some (some (.stray r')) := by
        have hlt := (List.getElem?_eq_some_iff.mp hk).1
        rw [ha.hands]
        simp [Scene.put, hlt]
      obtain ⟨w₂, h₂, hs₂, hm⟩ := ih (b := { b with core := s' }.settle) hs₁ hk'
      exact ⟨w₂, (hs.trans h₁).trans h₂, hs₂, hm.trans ha.messages⟩
    | _ => exact ⟨_, hs, hshow _, rfl⟩

theorem runProgram_moves {e : Event} (program : Program Value) (h : e.unit = none) :
    b.MovesTo [] (b.runProgram e program).1 := by
  -- What becomes of the bot does not depend on whether the run came to its end.
  have hb : (b.runProgram e program).1 =
      (finish turnLimit b { event := e, program := program }).1 := by
    unfold runProgram runToEnd
    generalize finish turnLimit b { event := e, program := program } = q
    rcases q with ⟨b', - | ⟨e', v⟩⟩ <;> rfl
  rw [hb]
  refine ⟨finish_trigger _ b _, ?_⟩
  intro w hw
  have hbegin := Scene.Move.begin (p := b.trigger) (w := w) e program h
  obtain ⟨w', hs, hw', hm⟩ := finish_moves turnLimit (b := b) (r := ⟨e, program, .inline, []⟩)
    (w := w.begin ⟨e, program, .inline, []⟩) (k := w.hands.length) ⟨hw.core, hw.standings⟩
    (by simp [Scene.begin])
  exact ⟨w', .head hbegin hs, hw', hm.trans (List.append_nil _).symm⟩

theorem execute_moves {e : Event} (name arguments chained : Setting) (h : e.unit = none) :
    b.MovesTo [] (b.execute e name arguments chained).1 := by
  unfold execute
  split
  · exact .refl b
  · exact .refl b
  · exact b.runProgram_moves _ h

theorem runChain_moves {e : Event} (text : Setting) (h : e.unit = none) :
    b.MovesTo [] (b.runChain e text).1 := by
  have hr : b.MovesTo [] { b with core := (b.core.programOfGiven e text).1 } :=
    .of_reports rfl rfl (.programOfGiven b.core e text) (b.core.programOfGiven_keeps e text).tables
  exact hr.trans (runProgram_moves _ _ h)

theorem runSimple_moves {e : Event} (text : Setting) (h : e.unit = none) :
    b.MovesTo [] (b.runSimple e text).1 := by
  unfold runSimple
  split
  · exact b.runProgram_moves _ h
  · exact .refl b

theorem registerInfo_reports (info : CommandInfo) (manner : Manner) (handler : Handler) :
    (b.registerInfo info manner handler).1.trigger = b.trigger ∧
      (b.registerInfo info manner handler).1.units = b.units ∧
      Scene.Reports b.core (b.registerInfo info manner handler).1.core := by
  have hr (l : List LogEvent) : Scene.Reports b.core
      { b.core.logAll none l with registry := b.core.registry.register info manner handler } := by
    obtain ⟨k, hk⟩ := Scene.Reports.logAll b.core none l
    exact ⟨k, hk⟩
  unfold registerInfo
  dsimp only
  split
  · exact ⟨rfl, rfl, (hr _).trans (.log _ _ _)⟩
  · exact ⟨rfl, rfl, hr _⟩

theorem withLevels_reports (levels : Except Fault Levels) (l : LogEvent) :
    (b.withLevels levels l).1.trigger = b.trigger ∧ (b.withLevels levels l).1.units = b.units ∧
      Scene.Reports b.core (b.withLevels levels l).1.core := by
  unfold withLevels
  split
  · exact ⟨rfl, rfl, [(none, l)], rfl⟩
  · exact ⟨rfl, rfl, .refl _⟩

end Operations

/-- **What goes on at a bot** is a sequence of moves of the scene that shows it. -/
theorem goes_moves {b b' : Bot} {ms : List Message} (h : b.Goes ms b') : b.MovesTo ms b' := by
  cases h with
  | receive m => exact b.receive_moves m
  | turn i => exact .of_reaches rfl fun hw => Scheduler.reaches_takeTurn hw i
  | settle => exact b.settle_moves
  | release gate => exact b.release_moves gate
  | cancel i => exact .of_reports rfl (b.units.standings_cancelTask i) (.refl _) rfl
  | stop => exact b.stop_moves
  | execute name arguments chained h => exact b.execute_moves name arguments chained h
  | runChain text h => exact b.runChain_moves text h
  | runSimple text h => exact b.runSimple_moves text h

/-- Administration changes nothing of the units, and nothing of the journal but by reports. -/
theorem Manages.reports {b b' : Bot} (h : b.Manages b') :
    b'.trigger = b.trigger ∧ b'.units = b.units ∧ Scene.Reports b.core b'.core := by
  cases h with
  | register names options manner handler =>
    unfold Bot.register
    split
    · exact ⟨rfl, rfl, .refl _⟩
    next info _ =>
      have h := b.registerInfo_reports info manner handler
      generalize b.registerInfo info manner handler = q at h ⊢
      rcases q with ⟨b', - | f⟩ <;> exact h
  | remove name =>
    unfold Bot.remove
    split
    · exact ⟨rfl, rfl, [], by simp⟩
    · exact ⟨rfl, rfl, .refl _⟩
  | setUser id level => exact b.withLevels_reports _ _
  | setRole id level => exact b.withLevels_reports _ _
  | replace t => exact ⟨rfl, rfl, [], by simp⟩

/-- **Whatever happens at a bot** is a sequence of steps of the scene that shows it. -/
theorem does_steps {b b' : Bot} (h : b.Does b') :
    b'.trigger = b.trigger ∧
      ∀ {w}, b.Shows w → ∃ w', ReflTransGen (Scene.Step b.trigger) w w' ∧ b'.Shows w' := by
  cases h with
  | goes h =>
    obtain ⟨ht, hm⟩ := goes_moves h
    refine ⟨ht, ?_⟩
    intro w hw
    obtain ⟨w', h', hw', -⟩ := hm hw
    exact ⟨w', ReflTransGen.mono (fun _ _ => .move) _ _ h', hw'⟩
  | manages h =>
    obtain ⟨ht, hu, hr⟩ := h.reports
    refine ⟨ht, fun {w} hw => ⟨_, .single (.outside b'.core (hw.core ▸ hr)), rfl, ?_⟩⟩
    rw [hu]
    exact hw.standings

/-- Operations one after another are steps of the scenes that show the bots. -/
theorem does_shown {b b' : Bot} {w : Scene} (h : ReflTransGen Does b b') (hw : b.Shows w) :
    b'.trigger = b.trigger ∧ ∃ w', ReflTransGen (Scene.Step b.trigger) w w' ∧ b'.Shows w' := by
  induction h with
  | refl => exact ⟨rfl, w, .refl, hw⟩
  | tail _ hd ih =>
    obtain ⟨ht, w₁, hs₁, hw₁⟩ := ih
    obtain ⟨ht', hd⟩ := does_steps hd
    obtain ⟨w₂, hs₂, hw₂⟩ := hd hw₁
    exact ⟨ht'.trans ht, w₂, hs₁.trans (ht ▸ hs₂), hw₂⟩

end Bot

end ChatCommands
