import ChatCommands.Proofs.Bot.Operations
import ChatCommands.Proofs.Dispatch.Telling

/-!
# The turn of a unit

A unit that has its turn goes on until it waits, lets others go first or ends; or it is cancelled.
All that can come of a turn is said here once, for the unit and for what the units share: the other
units are as they were, and the journal tells of no unit but this one.

Jobs have to be where they belong for that: what a unit is at work on is for its own number, and
what nobody waits for is found with cancelled units only.

## Main definitions

* `Core.advanceJob`: a job goes on as far as it can
* `Outcome`, `Core.Ends`: how the run of a unit comes to its end, and what is reported of it
* `Task.Owned`: the job of a unit is its own
* `Task.Turns`: what comes of the turn of a unit

## Main results

* `Scheduler.takeTurn_turns`: the turn of a unit in the scheduler
* `Task.Turns.tells`, `Task.Turns.owned`: a turn tells of its unit only, whose job stays its own
-/

namespace ChatCommands

/-! ## How a job goes on -/

namespace Core

/-- A job goes on until its run is suspended or ends. -/
def advanceJob (opened : Setting → Bool) (s : Core) : Job → Core × Progress
  | .chain text e =>
    let p := (s.log e.unit (.chainParsing text)).programOf e text
    Run.advance opened turnLength p.1 ⟨e, p.2, .inline, []⟩
  | .run r => r.advance opened turnLength s
  | .stray r => r.advance opened turnLength s

end Core

/-- How the run of a unit came to its end: the final answer was delivered, it could not be
delivered, or the chain of this author was cut short before. -/
inductive Outcome where
  | delivered
  | undelivered (f : Fault)
  | cut (author : Id) (f : Fault)

/-- The report of a unit that failed. A fault that cannot be displayed is not reported. -/
def Fault.reports (label : Setting) (f : Fault) : List LogEvent :=
  if f.showable then [.unitFailed label f.shown f.name] else []

/-- What is reported of a unit at its end. Only of a chain it is told apart that it nests too
deep. -/
def Outcome.reports (label : Setting) : Outcome → List LogEvent
  | delivered => []
  | undelivered f => f.reports label
  | cut author (.failure ⟨.chainDepth limit, _, _, _, _⟩) => [.chainTooDeep limit author]
  | cut _ f => f.reports label

namespace Core

/-- The run of a job comes to its end, with this core before anything is reported of it. -/
inductive Ends (opened : Setting → Bool) (s : Core) (j : Job) : Core → Outcome → Prop where
  | delivered {s₁ s' : Core} {e e' : Event} {v : Value}
      (h : s.advanceJob opened j = (s₁, .ended e (.ok v)))
      (hd : s₁.deliver e v = (s', e', .ok ())) : Ends opened s j s' .delivered
  | undelivered {s₁ s' : Core} {e e' : Event} {v : Value} {f : Fault}
      (h : s.advanceJob opened j = (s₁, .ended e (.ok v)))
      (hd : s₁.deliver e v = (s', e', .error f)) : Ends opened s j s' (.undelivered f)
  | cut {s' : Core} {e : Event} {f : Fault}
      (h : s.advanceJob opened j = (s', .ended e (.error f))) :
    Ends opened s j s' (.cut e.authorId f)

end Core

/-- Whether nobody waits for a job. -/
def Job.isStray : Job → Bool
  | stray _ => true
  | _ => false

namespace Core

variable {opened : Setting → Bool} {s s' : Core} {j : Job} {u : Option Nat}

/-- A job tells of its own unit, to which its run belongs from then on. -/
theorem advanceJob_tells (opened : Setting → Bool) (s : Core) (j : Job) :
    s.Tells Happening.isRoutine j.event.unit (s.advanceJob opened j).1 ∧
      (s.advanceJob opened j).2.event.unit = j.event.unit := by
  cases j with
  | chain text e =>
    have hl : s.Tells Happening.isRoutine e.unit (s.log e.unit (.chainParsing text)) := .log s rfl
    have hp := hl.trans (programOf_tells _ e Note.isRoutine (fun _ => rfl) text)
    obtain ⟨ha, hu⟩ := Run.advance_tells opened turnLength
      ((s.log e.unit (.chainParsing text)).programOf e text).1
      ⟨e, ((s.log e.unit (.chainParsing text)).programOf e text).2, .inline, []⟩
    exact ⟨hp.trans ha, hu⟩
  | run r => exact Run.advance_tells opened turnLength s r
  | stray r => exact Run.advance_tells opened turnLength s r

/-- Up to the end of a run no end is told. -/
theorem Ends.tells {o : Outcome} (h : Ends opened s j s' o) :
    s.Tells Happening.isRoutine j.event.unit s' := by
  obtain ⟨ht, hu⟩ := s.advanceJob_tells opened j
  cases h with
  | @delivered s₁ _ e e' v h hd =>
    rw [h] at ht hu
    have hs := s₁.deliver_tells e (fun _ => Happening.isRoutine_of_isSilent) rfl (fun _ => rfl) v
    rw [hd] at hs
    exact ht.trans ((show e.unit = _ from hu) ▸ hs)
  | @undelivered s₁ _ e e' v f h hd =>
    rw [h] at ht hu
    have hs := s₁.deliver_tells e (fun _ => Happening.isRoutine_of_isSilent) rfl (fun _ => rfl) v
    rw [hd] at hs
    exact ht.trans ((show e.unit = _ from hu) ▸ hs)
  | cut h =>
    rw [h] at ht
    exact ht

theorem Ends.exists_ended {o : Outcome} (h : Ends opened s j s' o) :
    ∃ s₁ e v, s.advanceJob opened j = (s₁, .ended e v) := by
  cases h with
  | delivered h hd => exact ⟨_, _, _, h⟩
  | undelivered h hd => exact ⟨_, _, _, h⟩
  | cut h => exact ⟨_, _, _, h⟩

/-- The run of a job comes to its end in one way only. -/
theorem Ends.unique {s₁ s₂ : Core} {o₁ o₂ : Outcome} (h₁ : Ends opened s j s₁ o₁)
    (h₂ : Ends opened s j s₂ o₂) : s₁ = s₂ ∧ o₁ = o₂ := by
  cases h₁ with
  | delivered h hd =>
    cases h₂ with
    | delivered h' hd' =>
      cases h.symm.trans h'
      cases hd.symm.trans hd'
      exact ⟨rfl, rfl⟩
    | undelivered h' hd' =>
      cases h.symm.trans h'
      cases hd.symm.trans hd'
    | cut h' => cases h.symm.trans h'
  | undelivered h hd =>
    cases h₂ with
    | delivered h' hd' =>
      cases h.symm.trans h'
      cases hd.symm.trans hd'
    | undelivered h' hd' =>
      cases h.symm.trans h'
      cases hd.symm.trans hd'
      exact ⟨rfl, rfl⟩
    | cut h' => cases h.symm.trans h'
  | cut h =>
    cases h₂ with
    | delivered h' hd' => cases h.symm.trans h'
    | undelivered h' hd' => cases h.symm.trans h'
    | cut h' =>
      cases h.symm.trans h'
      exact ⟨rfl, rfl⟩

end Core

/-- What is left running of a run that nobody waits for. -/
def Progress.strayed : Progress → Option (Activity Job)
  | on r => some (.due (.stray r))
  | blocked g r => some (.blocked g (.stray r))
  | yielded r => some (.due (.stray r))
  | ended _ _ => none

/-- A run waits only at a gate that is closed. -/
theorem Run.advance_blocked {opened : Setting → Bool} {n : Nat} {s s' : Core} {r r' : Run}
    {g : Setting} (h : r.advance opened n s = (s', .blocked g r')) : opened g = false := by
  have hstep {r : Run} {s : Core} (h : r.step opened s = (s', .blocked g r')) :
      opened g = false := by
    obtain ⟨e, p, m, fs⟩ := r
    cases p with
    | act a next => cases (Prod.mk.inj h).2
    | wait g' next =>
      simp only [step] at h
      split at h
      · cases (Prod.mk.inj h).2
      next hg =>
        obtain ⟨rfl, -⟩ := Progress.blocked.inj (Prod.mk.inj h).2
        exact Bool.eq_false_iff.mpr hg
    | call name arguments chained next =>
      simp only [step] at h
      split at h
      · simp only [enter] at h
        split at h <;> cases (Prod.mk.inj h).2
      · cases (Prod.mk.inj h).2
      · cases (Prod.mk.inj h).2
    | done result =>
      rcases fs with - | ⟨f, fs⟩
      · cases (Prod.mk.inj h).2
      · cases (Prod.mk.inj h).2
  induction n generalizing s r with
  | zero => cases (Prod.mk.inj h).2
  | succ n ih =>
    rw [advance] at h
    rcases hq : r.step opened s with ⟨s₁, r₁ | ⟨g₁, r₁⟩ | r₁ | ⟨e, v⟩⟩ <;> rw [hq] at h
    · exact ih h
    · obtain ⟨rfl, hp⟩ := Prod.mk.inj h
      exact hstep (hq.trans (Prod.ext rfl hp))
    · cases (Prod.mk.inj h).2
    · cases (Prod.mk.inj h).2

theorem Core.advanceJob_blocked {opened : Setting → Bool} {s s' : Core} {j : Job} {g : Setting}
    {r : Run} (h : s.advanceJob opened j = (s', .blocked g r)) : opened g = false := by
  cases j <;> exact Run.advance_blocked h

namespace Core

/-- What a unit comes to whose run has come to this. -/
def turnOf (p : Core × Progress) : Core × Turn Job :=
  match p with
  | (s, .on r) => (s, .yielded (.run r))
  | (s, .blocked g r) => (s, .blocked g (.run r))
  | (s, .yielded r) => (s, .yielded (.run r))
  | (s, .ended e v) => s.conclude e v

/-- A job that somebody waits for goes on as a run until the run has ended. -/
theorem resumeJob_eq (s : Core) (opened : Setting → Bool) {j : Job} (hj : j.isStray = false) :
    s.resumeJob opened j = turnOf (s.advanceJob opened j) := by
  have hrun (s : Core) (r : Run) :
      s.resumeRun opened r = turnOf (r.advance opened turnLength s) := by
    unfold resumeRun
    generalize r.advance opened turnLength s = q
    rcases q with ⟨s', r' | ⟨g, r'⟩ | r' | ⟨e, v⟩⟩ <;> rfl
  cases j with
  | chain text e => exact hrun _ _
  | run r => exact hrun s r
  | stray r => cases hj

/-- What is left running of a job that nobody waits for. -/
theorem resumeStray_eq (s : Core) (opened : Setting → Bool) (r : Run) :
    (s.resumeStray opened r).1 = (r.advance opened turnLength s).1 ∧
      Scheduler.leftRunning (s.resumeStray opened r).2 =
        (r.advance opened turnLength s).2.strayed := by
  unfold resumeStray
  generalize r.advance opened turnLength s = q
  rcases q with ⟨s', r' | ⟨g, r'⟩ | r' | ⟨e, v⟩⟩ <;> exact ⟨rfl, rfl⟩

end Core

/-! ## The turn of a unit -/

/-- The job of a unit is for its own number, and it is one that nobody waits for exactly if the
unit was cancelled. -/
def Task.Owned (i : Nat) (u : Task Job) : Prop :=
  ∀ j b, u.stage.standing = (some j, b) → j.event.unit = some i ∧ j.isStray = b

/-- What comes of the turn of the unit `i`, for the core and for the unit. -/
inductive Task.Turns (opened : Setting → Bool) (i : Nat) (s : Core) (u : Task Job) :
    Core → Task Job → Prop where
  /-- It waits at a closed gate. -/
  | waits {j : Job} {s' : Core} {g : Setting} {r : Run} (hj : u.stage.standing = (some j, false))
      (hc : u.cancelling = false) (h : s.advanceJob opened j = (s', .blocked g r)) :
    Turns opened i s u s' { u with stage := .active (.blocked g (.run r)) }
  /-- It lets others go first. -/
  | yields {j : Job} {s' : Core} {r : Run} (hj : u.stage.standing = (some j, false))
      (hc : u.cancelling = false)
      (h : s.advanceJob opened j = (s', .on r) ∨ s.advanceJob opened j = (s', .yielded r)) :
    Turns opened i s u s' { u with stage := .active (.due (.run r)) }
  /-- Its run comes to its end, and that is reported if it was cut short. -/
  | ends {j : Job} {s' : Core} {o : Outcome} (hj : u.stage.standing = (some j, false))
      (hc : u.cancelling = false) (h : s.Ends opened j s' o) :
    Turns opened i s u (s'.logAll (some i) (o.reports u.label)) { u with stage := .done }
  /-- It is cancelled before anything of it has happened. -/
  | dropped {j : Job} (hs : u.stage = .fresh j) (hc : u.cancelling = true) :
    Turns opened i s u s { u with stage := .cancelled none }
  /-- It is cancelled where it waits. Only a program on a thread goes on. -/
  | interrupted {a : Activity Job} (hs : u.stage = .active a) (hc : u.cancelling = true) :
    Turns opened i s u (s.log (some i) (.unitCancelled u.label))
      { u with
        stage := .cancelled ((botHost.behind a.rest).map a.withRest), cancelling := false }
  /-- What is left running of it goes on. -/
  | strays {a : Activity Job} {r : Run} (hs : u.stage = .cancelled (some a))
      (ha : a.rest = .stray r) :
    Turns opened i s u (r.advance opened turnLength s).1
      { u with stage := .cancelled (r.advance opened turnLength s).2.strayed }
  /-- Nothing is left of it. -/
  | idle (hs : u.stage = .done ∨ u.stage = .cancelled none) : Turns opened i s u s u

namespace Scheduler

variable (c : Scheduler Job) (i : Nat)

/-- The scheduler with another state of a unit, which is kept where it belongs. -/
def replace (u : Task Job) : Scheduler Job :=
  enlist { c with units := c.units.set i u } i u.stage.activity?

variable {c i} {s s' : Core} {u : Task Job}

/-- A unit that is changed is one that is replaced. -/
theorem setStage_eq_set (hu : c.units[i]? = some u) (f : Stage Job → Stage Job) :
    c.setStage i f = { c with units := c.units.set i { u with stage := f u.stage } } := by
  obtain ⟨hi, rfl⟩ := List.getElem?_eq_some_iff.mp hu
  have h : c.units.modify i (fun v => { v with stage := f v.stage }) =
      c.units.set i { c.units[i] with stage := f c.units[i].stage } := by
    apply List.ext_getElem?
    intro k
    rw [List.getElem?_modify, List.getElem?_set]
    split
    next hk =>
      subst hk
      simp [hi]
    · simp
  rw [setStage, h]

theorem replace_self (hu : c.units[i]? = some u) (ha : u.stage.activity? = none) :
    c.replace i u = c := by
  obtain ⟨hi, rfl⟩ := List.getElem?_eq_some_iff.mp hu
  simp [replace, ha, enlist]

/-- A fault is reported if it can be displayed. -/
theorem settleTurn_failed (c : Scheduler Job) (s : Core) (i : Nat) (label : Setting)
    (b : Option (Activity Job)) (f : Fault) :
    c.settleTurn botHost s i label b (.ended (.failed f)) =
      (s.logAll (some i) (f.reports label), c.setStage i fun _ => .done) := by
  simp only [settleTurn, Fault.reports]
  split <;> rfl

/-- The end of a chain that was cut short, and what is reported of it. -/
theorem settleTurn_concludeFault (c : Scheduler Job) (s : Core) {e : Event} {i : Nat}
    (he : e.unit = some i) (label : Setting) (b : Option (Activity Job)) (f : Fault) :
    c.settleTurn botHost (s.concludeFault e f).1 i label b (s.concludeFault e f).2 =
      (s.logAll (some i) ((Outcome.cut e.authorId f).reports label),
        c.setStage i fun _ => .done) := by
  unfold Core.concludeFault
  split
  next limit _ _ _ _ =>
    rw [he]
    rfl
  next hf =>
    -- A fault of any other kind is reported by the scheduler.
    have hr : (Outcome.cut e.authorId f).reports label = f.reports label := by
      unfold Outcome.reports
      split
      next heq => cases heq
      next heq => cases heq
      next heq =>
        obtain ⟨-, rfl⟩ := Outcome.cut.inj heq
        exact (hf _ _ _ _ _ rfl).elim
      next heq => rw [(Outcome.cut.inj heq).2]
    rw [hr]
    exact settleTurn_failed c s i label b f

/-- The end of a run ends its unit, and what cut it short is reported. -/
theorem settleTurn_conclude {opened : Setting → Bool} {j : Job} {s₁ : Core} {e : Event}
    {v : Except Fault Value} (h : s.advanceJob opened j = (s₁, .ended e v)) (he : e.unit = some i)
    (label : Setting) (b : Option (Activity Job)) :
    ∃ s' o, s.Ends opened j s' o ∧
      c.settleTurn botHost (s₁.conclude e v).1 i label b (s₁.conclude e v).2 =
        (s'.logAll (some i) (o.reports label), c.setStage i fun _ => .done) := by
  rcases v with f | v
  · exact ⟨s₁, _, .cut h, settleTurn_concludeFault c s₁ he label b f⟩
  · rcases hd : s₁.deliver e v with ⟨s', e', f | _⟩
    · refine ⟨s', _, .undelivered h hd, ?_⟩
      simp only [Core.conclude, hd]
      exact settleTurn_failed c s' i label b f
    · refine ⟨s', _, .delivered h hd, ?_⟩
      simp only [Core.conclude, hd]
      rfl

/-- The turn of a unit that waits for its job. -/
theorem settleTurn_turns {j : Job} (hu : c.units[i]? = some u)
    (hj : u.stage.standing = (some j, false)) (hc : u.cancelling = false) (ho : u.Owned i)
    (b : Option (Activity Job)) :
    ∃ s' u', Task.Turns c.isOpen i s u s' u' ∧
      c.settleTurn botHost (s.resumeJob c.isOpen j).1 i u.label b (s.resumeJob c.isOpen j).2 =
        (s', c.replace i u') := by
  obtain ⟨hunit, hstray⟩ := ho j false hj
  have hresume := s.resumeJob_eq c.isOpen hstray
  -- A unit that is not cancelled is active again if it goes on.
  have hwith (a : Activity Job) : u.stage.withActivity a = .active a := by
    rcases hs : u.stage with j' | a' | - | b' <;> rw [hs] at hj
    · rfl
    · rfl
    · cases hj
    · cases (Prod.mk.inj hj).2
  have hgo (a : Activity Job) : c.goOn i a = c.replace i { u with stage := .active a } := by
    rw [goOn, setStage_eq_set hu, hwith]
    rfl
  have hgone := (s.advanceJob_tells c.isOpen j).2
  rw [hresume]
  rcases h : s.advanceJob c.isOpen j with ⟨s', r | ⟨g, r⟩ | r | ⟨e, v⟩⟩
  · exact ⟨s', _, .yields hj hc (.inl h), congrArg (s', ·) (hgo (.due (.run r)))⟩
  · exact ⟨s', _, .waits hj hc h, congrArg (s', ·) (hgo (.blocked g (.run r)))⟩
  · exact ⟨s', _, .yields hj hc (.inr h), congrArg (s', ·) (hgo (.due (.run r)))⟩
  · rw [h] at hgone
    obtain ⟨s₂, o, hends, hset⟩ := settleTurn_conclude (c := c) h (hgone.trans hunit) u.label b
    refine ⟨_, _, .ends hj hc hends, ?_⟩
    rw [show Core.turnOf (s', .ended e v) = s'.conclude e v from rfl, hset, setStage_eq_set hu]
    rfl

/-- What is left running of a cancelled unit. -/
theorem runBehind_turns {a : Activity Job} (hu : c.units[i]? = some u)
    (hs : u.stage = .cancelled (some a)) (ho : u.Owned i) :
    ∃ s' u', Task.Turns c.isOpen i s u s' u' ∧
      c.runBehind botHost s i a.rest = (s', c.replace i u') := by
  have hj : u.stage.standing = (some a.rest, true) := by
    rw [hs]
    rfl
  obtain ⟨-, hstray⟩ := ho a.rest true hj
  rcases hr : a.rest with ⟨text, e⟩ | r | r <;> rw [hr] at hstray
  · cases hstray
  · cases hstray
  · refine ⟨_, _, .strays hs hr, ?_⟩
    obtain ⟨hcore, hl⟩ := s.resumeStray_eq c.isOpen r
    have hb : c.runBehind botHost s i (.stray r) = ((Core.resumeStray c.isOpen s r).1,
        c.conclude i (leftRunning (Core.resumeStray c.isOpen s r).2)) := rfl
    rw [hb, hl, hcore, conclude, setStage_eq_set hu]
    rfl

/-- **The turn of a unit** leaves all other units as they are. -/
theorem takeTurn_turns (s : Core) (hu : c.units[i]? = some u) (ho : u.Owned i) :
    ∃ s' u', Task.Turns c.isOpen i s u s' u' ∧
      c.takeTurn botHost s i = (s', c.replace i u') := by
  rw [takeTurn, hu]
  dsimp only
  split
  next w hs =>
    split
    next hc =>
      refine ⟨s, _, .dropped hs hc, ?_⟩
      rw [show botHost.unbegun w = none from rfl, conclude, setStage_eq_set hu]
      rfl
    next hc =>
      refine settleTurn_turns hu ?_ (Bool.eq_false_iff.mpr hc) ho none
      rw [hs]
      rfl
  next a hs =>
    split
    next hc =>
      refine ⟨_, _, .interrupted hs hc, ?_⟩
      have hu' : ({ c with units := c.units.set i { u with cancelling := false } } :
          Scheduler Job).units[i]? = some { u with cancelling := false } := by
        simp [(List.getElem?_eq_some_iff.mp hu).1]
      -- The host interrupts at once, whatever the job was at.
      show (botHost.report s (some i) (.unitCancelled u.label), conclude _ i _) = _
      rw [conclude, setStage_eq_set hu', List.set_set]
      rfl
    next hc =>
      refine settleTurn_turns hu ?_ (Bool.eq_false_iff.mpr hc) ho none
      rw [hs]
      rfl
  next a hs => exact runBehind_turns hu hs ho
  next hfresh hactive hbehind =>
    have hover : u.stage = .done ∨ u.stage = .cancelled none := by
      rcases hs : u.stage with w | a | - | (- | a)
      · exact (hfresh w hs).elim
      · exact (hactive a hs).elim
      · exact .inl rfl
      · exact .inr rfl
      · exact (hbehind a hs).elim
    refine ⟨s, u, .idle hover, ?_⟩
    rw [replace_self hu]
    rcases hover with h | h <;> rw [h] <;> rfl

end Scheduler

/-! ## What stays the same in a turn -/

/-- Nothing is left of a unit that has ended, unless something was left running of it. -/
theorem Stage.standing_of_over {g : Stage Job} (h : g = .done ∨ g = .cancelled none) :
    g.standing.1 = none := by
  rcases h with rfl | rfl
  · rfl
  · rfl

namespace Core

variable {s : Core} {u : Option Nat}

theorem Tells.any {p : Happening → Bool} {s' : Core} (h : s.Tells p u s') :
    s.Tells (fun _ => true) u s' := h.mono fun _ _ => rfl

theorem logAll_tells (s : Core) (u : Option Nat) (ls : List LogEvent) :
    s.Tells (fun _ => true) u (s.logAll u ls) := .logAll s fun _ _ => rfl

end Core

theorem Stage.eq_cancelled {g : Stage Job} (h : g.standing.2 = true) :
    ∃ behind, g = .cancelled behind := by
  rcases g with j | a | - | behind
  case cancelled => exact ⟨behind, rfl⟩
  all_goals cases h

/-- What nobody waits for is left running of a cancelled unit. -/
theorem Stage.standing_stray {a : Activity Job} {r : Run} (ha : a.rest = .stray r) :
    (Stage.cancelled (some a)).standing = (some (.stray r), true) := by
  rw [← ha]
  rfl

/-- What goes on of a unit that was interrupted is the run that it was at, without the programs that
waited for it. -/
theorem Stage.standing_interrupted {a : Activity Job} {k : Job} {c : Bool}
    (h : (Stage.cancelled ((botHost.behind a.rest).map a.withRest)).standing = (some k, c)) :
    c = true ∧ ∃ r : Run, (Stage.active a).standing = (some (.run r), false) ∧
      k = .stray { r with frames := [] } := by
  obtain ⟨hk, rfl⟩ := Prod.mk.inj h
  have hbehind : botHost.behind a.rest = some k := by
    rw [← hk]
    rcases botHost.behind a.rest with - | j
    · rfl
    · cases a <;> rfl
  obtain ⟨r, hr, rfl⟩ := Job.behind_eq hbehind
  refine ⟨rfl, r, ?_, rfl⟩
  rw [← hr]
  rfl

/-- What is left running of a cancelled unit is the rest of its run. -/
theorem Progress.standing_strayed {p : Progress} {k : Job} {c : Bool}
    (h : (Stage.cancelled p.strayed).standing = (some k, c)) :
    c = true ∧ ∃ r : Run, p.rest = some r ∧ k = .stray r := by
  cases p with
  | ended e v => cases h
  | _ =>
    cases h
    exact ⟨rfl, _, rfl, rfl⟩

namespace Task.Turns

variable {opened : Setting → Bool} {i : Nat} {s s' : Core} {u u' : Task Job}

/-- A turn tells of its own unit only. -/
theorem tells (h : Turns opened i s u s' u') (ho : u.Owned i) :
    s.Tells (fun _ => true) (some i) s' := by
  have hjob {j : Job} (hj : u.stage.standing = (some j, false)) {x : Core × Progress}
      (hx : s.advanceJob opened j = x) : s.Tells (fun _ => true) (some i) x.1 := by
    rw [← hx, ← (ho j false hj).1]
    exact (s.advanceJob_tells opened j).1.any
  cases h with
  | waits hj hc h => exact hjob hj h
  | yields hj hc h => exact h.elim (hjob hj) (hjob hj)
  | @ends j s₁ o hj hc h =>
    have ht := h.tells.any
    rw [(ho j false hj).1] at ht
    exact ht.trans (s₁.logAll_tells _ _)
  | dropped hs hc => exact .refl s
  | interrupted hs hc => exact .log s rfl
  | @strays a r hs ha =>
    rw [← (ho _ true (hs ▸ Stage.standing_stray ha)).1]
    exact (r.advance_tells opened turnLength s).1.any
  | idle hs => exact .refl s

/-- Whatever comes of a job is still for the unit that it was for. -/
theorem owned (h : Turns opened i s u s' u') (ho : u.Owned i) : u'.Owned i := by
  have hrun {j : Job} (hj : u.stage.standing = (some j, false)) {p : Progress} {r : Run}
      (hp : (s.advanceJob opened j).2 = p) (hr : p.rest = some r) : r.event.unit = some i := by
    rw [← Progress.event_of_rest hr, ← hp, ← (ho j false hj).1]
    exact (s.advanceJob_tells opened j).2
  intro k b hk
  cases h with
  | waits hj hc h =>
    cases hk
    exact ⟨hrun hj (congrArg Prod.snd h) rfl, rfl⟩
  | yields hj hc h =>
    cases hk
    rcases h with h | h
    · exact ⟨hrun hj (congrArg Prod.snd h) rfl, rfl⟩
    · exact ⟨hrun hj (congrArg Prod.snd h) rfl, rfl⟩
  | ends hj hc h => cases hk
  | dropped hs hc => cases hk
  | interrupted hs hc =>
    obtain ⟨rfl, r, hj, rfl⟩ := Stage.standing_interrupted hk
    exact ⟨(ho (.run r) false (hs ▸ hj)).1, rfl⟩
  | @strays a r hs ha =>
    obtain ⟨rfl, r', hr, rfl⟩ := Progress.standing_strayed hk
    refine ⟨?_, rfl⟩
    show r'.event.unit = some i
    rw [← Progress.event_of_rest hr, (r.advance_tells opened turnLength s).2]
    exact (ho (.stray r) true (hs ▸ Stage.standing_stray ha)).1
  | idle hs => exact ho k b hk

/-- Nothing comes of a unit of which nothing is left. -/
theorem of_over (h : Turns opened i s u s' u') (hs : u.stage = .done ∨ u.stage = .cancelled none) :
    s' = s ∧ u' = u := by
  have hnone := Stage.standing_of_over hs
  cases h with
  | waits hj hc h =>
    rw [hj] at hnone
    cases hnone
  | yields hj hc h =>
    rw [hj] at hnone
    cases hnone
  | ends hj hc h =>
    rw [hj] at hnone
    cases hnone
  | dropped hs hc =>
    rw [hs] at hnone
    cases hnone
  | interrupted hs hc =>
    rw [hs] at hnone
    cases hnone
  | strays hs ha =>
    rw [hs] at hnone
    cases hnone
  | idle hs => exact ⟨rfl, rfl⟩

/-- What becomes of a unit that is cancelled before it has begun. -/
theorem of_fresh {j : Job} (h : Turns opened i s u s' u') (hs : u.stage = .fresh j)
    (hc : u.cancelling = true) : s' = s ∧ u' = { u with stage := .cancelled none } := by
  cases h with
  | waits hj hc' h => cases hc.symm.trans hc'
  | yields hj hc' h => cases hc.symm.trans hc'
  | ends hj hc' h => cases hc.symm.trans hc'
  | dropped hs' hc' => exact ⟨rfl, rfl⟩
  | interrupted hs' hc' => cases hs.symm.trans hs'
  | strays hs' ha => cases hs.symm.trans hs'
  | idle hs' =>
    have hnone := Stage.standing_of_over hs'
    rw [hs] at hnone
    cases hnone

/-- What becomes of a unit that is cancelled where it waits. -/
theorem of_active {a : Activity Job} (h : Turns opened i s u s' u') (hs : u.stage = .active a)
    (hc : u.cancelling = true) :
    s' = s.log (some i) (.unitCancelled u.label) ∧
      u' = { u with
        stage := .cancelled ((botHost.behind a.rest).map a.withRest), cancelling := false } := by
  cases h with
  | waits hj hc' h => cases hc.symm.trans hc'
  | yields hj hc' h => cases hc.symm.trans hc'
  | ends hj hc' h => cases hc.symm.trans hc'
  | dropped hs' hc' => cases hs.symm.trans hs'
  | interrupted hs' hc' =>
    obtain rfl := Stage.active.inj (hs.symm.trans hs')
    exact ⟨rfl, rfl⟩
  | strays hs' ha => cases hs.symm.trans hs'
  | idle hs' =>
    have hnone := Stage.standing_of_over hs'
    rw [hs] at hnone
    cases hnone

/-- What becomes of what is left running of a unit. -/
theorem of_behind {a : Activity Job} {r : Run} (h : Turns opened i s u s' u')
    (hs : u.stage = .cancelled (some a)) (ha : a.rest = .stray r) :
    s' = (r.advance opened turnLength s).1 ∧
      u' = { u with stage := .cancelled (r.advance opened turnLength s).2.strayed } := by
  have hstanding : u.stage.standing = (some (.stray r), true) := hs ▸ Stage.standing_stray ha
  cases h with
  | waits hj hc h => cases (Prod.mk.inj (hstanding.symm.trans hj)).2
  | yields hj hc h => cases (Prod.mk.inj (hstanding.symm.trans hj)).2
  | ends hj hc h => cases (Prod.mk.inj (hstanding.symm.trans hj)).2
  | dropped hs' hc => cases hs.symm.trans hs'
  | interrupted hs' hc => cases hs.symm.trans hs'
  | strays hs' ha' =>
    cases hs.symm.trans hs'
    cases ha.symm.trans ha'
    exact ⟨rfl, rfl⟩
  | idle hs' =>
    have hnone := Stage.standing_of_over hs'
    rw [hstanding] at hnone
    cases hnone

/-- What becomes of a unit that is at work and is not to be cancelled. -/
theorem of_standing {j : Job} (h : Turns opened i s u s' u')
    (hj : u.stage.standing = (some j, false)) (hc : u.cancelling = false) :
    (∃ g r, s.advanceJob opened j = (s', .blocked g r) ∧
        u' = { u with stage := .active (.blocked g (.run r)) }) ∨
      (∃ r, (s.advanceJob opened j = (s', .on r) ∨ s.advanceJob opened j = (s', .yielded r)) ∧
        u' = { u with stage := .active (.due (.run r)) }) ∨
      ∃ s₁ o, s.Ends opened j s₁ o ∧ s' = s₁.logAll (some i) (o.reports u.label) ∧
        u' = { u with stage := .done } := by
  have hsame {j' : Job} (hj' : u.stage.standing = (some j', false)) : j' = j :=
    Option.some.inj (Prod.mk.inj (hj'.symm.trans hj)).1
  cases h with
  | waits hj' hc' h =>
    cases hsame hj'
    exact .inl ⟨_, _, h, rfl⟩
  | yields hj' hc' h =>
    cases hsame hj'
    exact .inr (.inl ⟨_, h, rfl⟩)
  | ends hj' hc' h =>
    cases hsame hj'
    exact .inr (.inr ⟨_, _, h, rfl, rfl⟩)
  | dropped hs hc' => cases hc.symm.trans hc'
  | interrupted hs hc' => cases hc.symm.trans hc'
  | strays hs ha =>
    rw [hs] at hj
    cases hj
  | idle hs =>
    have hnone := Stage.standing_of_over hs
    rw [hj] at hnone
    cases hnone

/-- What becomes of a unit whose run comes to its end. -/
theorem of_ends {j : Job} {s₁ : Core} {o : Outcome} (h : Turns opened i s u s' u')
    (hj : u.stage.standing = (some j, false)) (hc : u.cancelling = false)
    (he : s.Ends opened j s₁ o) :
    s' = s₁.logAll (some i) (o.reports u.label) ∧ u' = { u with stage := .done } := by
  obtain ⟨s₂, e, v, hended⟩ := he.exists_ended
  rcases h.of_standing hj hc with ⟨g, r, h, -⟩ | ⟨r, h | h, -⟩ | ⟨s₂, o₂, h, hs, hu⟩
  · cases hended.symm.trans h
  · cases hended.symm.trans h
  · cases hended.symm.trans h
  · obtain ⟨rfl, rfl⟩ := he.unique h
    exact ⟨hs, hu⟩

/-- What becomes of a unit whose run lets others go first. -/
theorem of_yielded {j : Job} {s₁ : Core} {r : Run} (h : Turns opened i s u s' u')
    (hj : u.stage.standing = (some j, false)) (hc : u.cancelling = false)
    (he : s.advanceJob opened j = (s₁, .yielded r)) :
    s' = s₁ ∧ u' = { u with stage := .active (.due (.run r)) } := by
  rcases h.of_standing hj hc with ⟨g, r', h, -⟩ | ⟨r', h | h, hu⟩ | ⟨s₂, o, h, -⟩
  · cases he.symm.trans h
  · cases he.symm.trans h
  · cases he.symm.trans h
    exact ⟨rfl, hu⟩
  · obtain ⟨s₃, e, v, hended⟩ := h.exists_ended
    cases he.symm.trans hended

/-- A unit that has ended stays as it ended. -/
theorem ended (h : Turns opened i s u s' u') (hp : u.stage.isPending = false) :
    u'.stage.isPending = false ∧ u'.stage.standing.2 = u.stage.standing.2 := by
  have hwaits {j : Job} (hj : u.stage.standing = (some j, false)) : u.stage.isPending = true := by
    rcases hs : u.stage with w | a | - | x <;> rw [hs] at hj
    · rfl
    · rfl
    · cases hj
    · cases (Prod.mk.inj hj).2
  cases h with
  | waits hj hc h => cases hp.symm.trans (hwaits hj)
  | yields hj hc h => cases hp.symm.trans (hwaits hj)
  | ends hj hc h => cases hp.symm.trans (hwaits hj)
  | dropped hs hc =>
    rw [hs] at hp
    cases hp
  | interrupted hs hc =>
    rw [hs] at hp
    cases hp
  | strays hs ha =>
    rw [hs]
    exact ⟨rfl, rfl⟩
  | idle hs => exact ⟨hp, rfl⟩

/-- A unit that goes on after its turn has not been told to be cancelled, and its run goes on. -/
theorem goes_on {k : Job} (h : Turns opened i s u s' u')
    (hk : u'.stage.standing = (some k, false)) :
    ∃ j r, u.stage.standing = (some j, false) ∧ u.cancelling = false ∧ k = .run r ∧
      (s.advanceJob opened j).1 = s' ∧ (s.advanceJob opened j).2.rest = some r := by
  cases h with
  | waits hj hc h =>
    cases hk
    exact ⟨_, _, hj, hc, rfl, by rw [h], by rw [h]; rfl⟩
  | yields hj hc h =>
    cases hk
    rcases h with h | h
    · exact ⟨_, _, hj, hc, rfl, by rw [h], by rw [h]; rfl⟩
    · exact ⟨_, _, hj, hc, rfl, by rw [h], by rw [h]; rfl⟩
  | ends hj hc h => cases hk
  | dropped hs hc => cases hk
  | interrupted hs hc => cases (Prod.mk.inj hk).2
  | strays hs ha => cases (Prod.mk.inj hk).2
  | idle hs =>
    have hnone := Stage.standing_of_over hs
    rw [hk] at hnone
    cases hnone

end Task.Turns

end ChatCommands
