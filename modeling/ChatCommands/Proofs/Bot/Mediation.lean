import ChatCommands.Proofs.Bot.Operations

/-!
# No program begins but through the gate

A step of a scene begins the program of a command only at a call whose every condition holds in
the scene as it stands. What was checked for an earlier call, or before others had their turns,
counts for nothing.

## Main definitions

* `Scene.frames`: the programs of commands at a place
* `Scene.Mediated`: a step that begins a program through the gate, or none

## Main results

* `begins_through_gate`: every step does so, and so does whatever happens at a bot
-/

namespace ChatCommands

/-- The programs that wait, and the name by which the one that runs was called. -/
def Job.frames (j : Job) : List Frame := (j.run?.map (·.frames)).getD []

/-- The request of a job enters a command or begins nothing. -/
theorem Core.work_enters (opened : Setting → Bool) (s : Core) (j : Job) :
    (∃ r c j' r', j.run? = some r ∧ (s.work opened j).2 = some j' ∧ j'.run? = some r' ∧
      r.Enters s c (s.work opened j).1 r') ∨
      ((s.work opened j).1.beginnings = s.beginnings ∧
        ∀ j', (s.work opened j).2 = some j' → j'.frames <:+ j.frames) := by
  cases j with
  | chain text e =>
    have h := (s.log_keeps e.unit (.chainParsing text)).trans (programOf_keeps _ e text)
    refine .inr ⟨h.beginnings, ?_⟩
    intro j' hj
    obtain rfl := Option.some.inj hj
    exact List.suffix_refl _
  | run r =>
    rcases hp : r.step opened s with ⟨s', p⟩
    have hs := r.step_enters opened s
    rw [hp] at hs
    obtain ⟨c, r', hr, hs⟩ | ⟨hs, hf⟩ := hs
    · refine .inl ⟨r, c, .run r', r', rfl, ?_⟩
      -- The run goes on, so that what is left of the job is this run, however it goes on.
      have hc : close (s', p) = (s', some (.run r')) := by
        cases p <;> cases hr <;> rfl
      rw [work, hp, hc]
      exact ⟨rfl, rfl, hs⟩
    · refine .inr ?_
      cases p
      -- The final answer is sent behind the last program, so no program begins with it.
      case ended e v =>
        refine ⟨?_, fun j' hj => by simp [work, hp, close] at hj⟩
        simpa only [work, hp, hs, close] using (s'.conclude_keeps e v).beginnings
      all_goals
        refine ⟨by simpa [work, hp, close] using hs, ?_⟩
        intro j' hj
        simp only [work, hp, close, Progress.rest, Option.map_some, Option.some.injEq] at hj
        exact hj ▸ hf _ rfl
  | stray r =>
    obtain ⟨c, r', hr, hs⟩ | ⟨hs, hf⟩ := r.step_enters opened s
    · exact .inl ⟨r, c, .stray r', r', rfl, by simp [work, closeStray, hr], rfl, hs⟩
    · refine .inr ⟨hs, ?_⟩
      intro j' hj
      obtain ⟨r', hr, rfl⟩ := Option.map_eq_some_iff.mp hj
      exact hf r' hr

namespace Scene

variable {p : Prefix} {w w' : Scene}

/-- The run at a place. -/
def run? (w : Scene) (q : Place) : Option Run := w.job q >>= Job.run?

/-- The programs at a place. -/
def frames (w : Scene) (q : Place) : List Frame := ((w.job q).map Job.frames).getD []

/-- A step begins the program of a command through the gate, in the core as it stands and for a
call that is made at that moment; or it begins none, and the programs that run or wait after it did
so before it. -/
def Mediated (w w' : Scene) : Prop :=
  (∃ q r c r', w.run? q = some r ∧ w'.run? q = some r' ∧ r.Enters w.core c w'.core r' ∧
    ∀ q' ≠ q, w'.job q' = w.job q') ∨
  (w'.core.beginnings = w.core.beginnings ∧ ∀ q, w'.frames q <:+ w.frames q)

/-- Nothing begins where all jobs are as they were, or new, or what is left of them. -/
theorem mediated_of_job (hc : w'.core.beginnings = w.core.beginnings)
    (hj : ∀ q j', w'.job q = some j' → j'.frames = [] ∨ w.job q = some j') : Mediated w w' := by
  refine .inr ⟨hc, ?_⟩
  intro q
  unfold frames
  rcases hq : w'.job q with - | j'
  · exact List.nil_suffix
  · obtain hf | hw := hj q j' hq
    · simp [hf]
    · simp [hw]

theorem mediated_work {q : Place} {j : Job} (opened : Setting → Bool) (h : w.job q = some j) :
    Mediated w (w.put q (w.core.work opened j)) := by
  obtain ⟨r, c, j', r', hr, hj', hr', he⟩ | ⟨hc, hf⟩ := w.core.work_enters opened j
  · refine .inl ⟨q, r, c, r', by simp [run?, h, hr], by simp [run?, job_put_self h, hj', hr'], ?_,
      fun q' hq => job_put_of_ne hq _⟩
    simpa using he
  · refine .inr ⟨by simpa using hc, ?_⟩
    intro q'
    by_cases hq : q' = q
    · subst hq
      rcases hj : (w.core.work opened j).2 with - | j'
      · simp [frames, job_put_self h, hj]
      · simpa [frames, job_put_self h, hj, h] using hf j' hj
    · simp [frames, job_put_of_ne hq]

theorem beginnings_of_reports {s s' : Core} (h : Reports s s') : s'.beginnings = s.beginnings :=
  h.filter_journal fun _ _ => rfl

theorem Move.mediated (h : Move p w w') : Mediated w w' := by
  cases h with
  | work q j opened h => exact mediated_work opened h
  | arrive m text h =>
    refine mediated_of_job rfl ?_
    intro q j' hj
    obtain ⟨-, rfl⟩ | hw := job_arrive hj
    · exact .inl rfl
    · exact .inr hw
  | cancel i j behind h hb =>
    refine mediated_of_job rfl ?_
    intro q j' hj
    obtain ⟨-, rfl⟩ | hw := job_cancel hj
    · obtain hb | hb := hb
      · cases hb
      · -- What goes on of a cancelled job waits for no answer.
        obtain ⟨r, -, rfl⟩ := Job.behind_eq hb.symm
        exact .inl rfl
    · exact .inr hw
  | begin e program h =>
    refine mediated_of_job rfl ?_
    intro q j' hj
    obtain ⟨-, rfl⟩ | hw := job_begin hj
    · exact .inl rfl
    · exact .inr hw
  | report s h ht => exact mediated_of_job (beginnings_of_reports h) fun q j' hj => .inr hj

/-- Every step begins a program through the gate or not at all. -/
theorem Step.mediated (h : Step p w w') : Mediated w w' := by
  cases h with
  | move h => exact h.mediated
  | outside s h => exact mediated_of_job (beginnings_of_reports h) fun q j' hj => .inr hj

end Scene

open Relation (ReflTransGen)

/-- **No program begins but through the gate**: every step of a scene is mediated, and whatever
happens at a bot is a sequence of such steps. -/
theorem begins_through_gate :
    (∀ {p : Prefix} {w w' : Scene}, Scene.Step p w w' → Scene.Mediated w w') ∧
    ∀ {b b' : Bot} {w : Scene}, ReflTransGen Bot.Does b b' → b.Shows w →
      ∃ w', ReflTransGen (fun x y => Scene.Step b.trigger x y ∧ Scene.Mediated x y) w w' ∧
        b'.Shows w' := by
  refine ⟨Scene.Step.mediated, ?_⟩
  intro b b' w h hw
  -- Operations follow each other, and so do the steps that show them; the prefix stays the same.
  have hm : b'.trigger = b.trigger ∧
      ∃ w', ReflTransGen (Scene.Step b.trigger) w w' ∧ b'.Shows w' := by
    induction h with
    | refl => exact ⟨rfl, w, .refl, hw⟩
    | tail _ hd ih =>
      obtain ⟨ht, w₁, hs₁, hw₁⟩ := ih
      obtain ⟨ht', hd⟩ := Bot.does_steps hd
      obtain ⟨w₂, hs₂, hw₂⟩ := hd hw₁
      exact ⟨ht'.trans ht, w₂, hs₁.trans (ht ▸ hs₂), hw₂⟩
  obtain ⟨-, w', hs, hw'⟩ := hm
  exact ⟨w', ReflTransGen.mono (fun _ _ h => ⟨h, h.mediated⟩) _ _ hs, hw'⟩

/-- A bot, a message to it, and a call of its help command for an event made by hand. -/
theorem begins_through_gate_help :
    ∃ (b b' : Bot) (w w' : Scene), ReflTransGen Bot.Does b b' ∧ b.Shows w ∧
      Scene.Step b.trigger w w' ∧
      w.core.beginnings = [] ∧ w'.core.beginnings.map (·.what.isBeginning) = [true] ∧
      Scene.Mediated w w' ∧
      ∃ v, ReflTransGen (fun x y => Scene.Step b.trigger x y ∧ Scene.Mediated x y) w v ∧
        b'.Shows v := by
  let b := Bot.build (.fixed .null [] [] []) (.literal "!") {} .null
  let m : Message := ⟨"!help", some ⟨"u", "", []⟩, "c", none, .null⟩
  let r : Run := { event := { message := m }, program := .call "help" [] false fun _ => pure .null }
  let w : Scene := { core := b.core, hands := [some (.stray r)] }
  have hw : b.Shows w := ⟨rfl, rfl⟩
  have hd : ReflTransGen Bot.Does b (b.receive m).1.settle :=
    .tail (.single (.goes (.receive m))) (.goes .settle)
  have hs : Scene.Step b.trigger w _ := .move (.work (.hand 0) (.stray r) (fun _ => true) rfl)
  exact ⟨b, _, w, _, hd, hw, hs, rfl, rfl, begins_through_gate.1 hs, begins_through_gate.2 hd hw⟩

end ChatCommands
