import ChatCommands.Proofs.Bot.Ticks
import ChatCommands.Proofs.Dispatch.Straight

/-!
# Failures stay in their units

A fault that a command does not catch goes out through all commands that called it, up to the chain,
and ends the run of the unit. What the unit did before stays done. Nothing of it happens behind the
fault but one report, of a kind of its own for chains that nest too deep; and no other unit notices.

The report tells the fault in words. A fault that has none is not reported, and its unit ends
without a trace.

## Main definitions

* `Outcome.fault?`, `Outcome.tooDeep?`: what a unit failed by
* `Job.Runs`: the run with which a job goes on
* `Bot.Sound`: what holds of units that have not ended

## Main results

* `Bot.Reached.sound`: units that have not ended let faults pass, and no end was told of them
* `Bot.turn_ends`: the turn in which a run comes to its end
* `failure_contained`: a failure is contained in its unit
-/

namespace ChatCommands

open Relation (ReflTransGen)

namespace Outcome

/-- The fault by which a run failed. -/
def fault? : Outcome → Option Fault
  | delivered => none
  | undelivered f => some f
  | cut _ f => some f

/-- The report of a chain that nests too deep. -/
def tooDeep? : Outcome → Option LogEvent
  | cut author (.failure ⟨.chainDepth limit, _, _, _, _⟩) => some (.chainTooDeep limit author)
  | _ => none

variable {o : Outcome} {f : Fault} {label : Setting}

/-- A run that failed is reported once, unless there are no words for its fault. -/
theorem reports_eq (h : o.fault? = some f) :
    o.reports label = if o.tooDeep?.isSome || f.showable then
      [o.tooDeep?.getD (.unitFailed label f.shown f.name)] else [] := by
  unfold reports tooDeep?
  split
  · cases h
  · obtain rfl := Option.some.inj h
    rfl
  · obtain rfl := Option.some.inj h
    rfl
  next author g hg =>
    obtain rfl := Option.some.inj h
    split
    next heq =>
      obtain ⟨-, rfl⟩ := Outcome.cut.inj heq
      exact (hg _ _ _ _ _ rfl).elim
    · rfl

theorem reports_isDiagnosis : ∀ l ∈ o.reports label, (Happening.logged l).isDiagnosis = true := by
  have hf (f : Fault) : ∀ l ∈ f.reports label, (Happening.logged l).isDiagnosis = true := by
    intro l hl
    unfold Fault.reports at hl
    split at hl
    · obtain rfl := List.mem_singleton.mp hl
      rfl
    · cases hl
  intro l hl
  unfold reports at hl
  split at hl
  · cases hl
  · exact hf _ l hl
  · obtain rfl := List.mem_singleton.mp hl
    rfl
  · exact hf _ l hl

end Outcome

/-! ## Runs of units -/

/-- The run with which a job goes on that somebody waits for: its own, or that of its text once it
is read. -/
inductive Job.Runs : Job → Run → Prop where
  | read (s : Core) (text : String) (e : Event) :
    Runs (.chain text e) ⟨e, (s.programOf e text).2, .inline, []⟩
  | on (r : Run) : Runs (.run r) r

theorem Run.advance_straight (opened : Setting → Bool) (n : Nat) (s : Core) {r r' : Run}
    (hr : r.base.Straight) (h : (r.advance opened n s).2.rest = some r') : r'.base.Straight := by
  induction n generalizing s r with
  | zero =>
    obtain rfl := Option.some.inj h
    exact hr
  | succ n ih =>
    have hstep (r₁ : Run) := @step_straight r r₁ opened s hr
    rw [advance] at h
    generalize r.step opened s = q at h hstep
    obtain ⟨s', p⟩ := q
    cases p with
    | on r₁ => exact ih s' (hstep r₁ rfl) h
    | _ => exact hstep r' h

/-- A job whose run lets faults pass. -/
def Job.Straight (j : Job) : Prop := ∀ r, j.Runs r → r.base.Straight

theorem Job.straight_chain (text : String) (e : Event) : (Job.chain text e).Straight := by
  intro r hr
  cases hr with
  | read s => exact s.programOf_straight e text

theorem Core.advanceJob_straight {opened : Setting → Bool} {s : Core} {j : Job} {r : Run}
    (hj : j.Straight) (hs : j.isStray = false) (h : (s.advanceJob opened j).2.rest = some r) :
    r.base.Straight := by
  cases j with
  | chain text e => exact Run.advance_straight opened turnLength _ (hj _ (.read _ text e)) h
  | run r₀ => exact Run.advance_straight opened turnLength s (hj r₀ (.on r₀)) h
  | stray r₀ => cases hs

/-- The fault with which a run has ended. -/
def Progress.failedBy? : Progress → Option Fault
  | ended _ (.error f) => some f
  | _ => none

theorem Core.ends_of_failedBy {opened : Setting → Bool} {s : Core} {j : Job} {f : Fault}
    (h : (s.advanceJob opened j).2.failedBy? = some f) :
    ∃ s' author, s.Ends opened j s' (.cut author f) := by
  rcases hq : s.advanceJob opened j with ⟨s', r | ⟨g, r⟩ | r | ⟨e, g | v⟩⟩ <;> rw [hq] at h
  case ended.error =>
    obtain rfl := Option.some.inj h
    exact ⟨s', _, .cut hq⟩
  all_goals cases h

/-- An answer that cannot be delivered: the last that happens is that its sending fails. -/
theorem Core.deliver_error {s s' : Core} {e e' : Event} {v : Value} {f : Fault}
    (h : s.deliver e v = (s', e', .error f)) :
    ∃ o, s.transport.deliver o = .error f ∧ s'.journal.getLast? = some ⟨e.unit, .unsent o⟩ := by
  have hd : (s.drainInto e v).1.transport = s.transport := by cases v <;> rfl
  have hu : (s.drainInto e v).2.1.unit = e.unit := by cases v <;> rfl
  have hsend {s₁ s₂ : Core} {e₁ : Event} {o : Outgoing} (hs : s₁.send e₁ o = (s₂, .error f)) :
      s₁.transport.deliver o = .error f ∧
        s₂.journal.getLast? = some ⟨e₁.unit, .unsent o⟩ := by
    unfold send at hs
    split at hs
    · cases (Prod.mk.inj hs).2
    next g hg =>
      obtain ⟨rfl, hf⟩ := Prod.mk.inj hs
      obtain rfl := Except.error.inj hf
      exact ⟨hg, by simp [record]⟩
  unfold deliver at h
  generalize s.drainInto e v = x at h hd hu
  obtain ⟨s₁, e₁, text⟩ := x
  dsimp only at h hd hu
  rw [← hd, ← hu]
  -- With a file or without one, the answer goes out in one sending.
  split at h
  · split at h
    · cases (Prod.mk.inj (Prod.mk.inj h).2).2
    next hs =>
      simp only [Prod.mk.injEq, Except.error.injEq] at h
      obtain ⟨rfl, -, rfl⟩ := h
      exact ⟨_, hsend hs⟩
  · split at h
    · cases (Prod.mk.inj (Prod.mk.inj h).2).2
    · split at h
      · cases (Prod.mk.inj (Prod.mk.inj h).2).2
      next hs =>
        simp only [Prod.mk.injEq, Except.error.injEq] at h
        obtain ⟨rfl, -, rfl⟩ := h
        exact ⟨_, hsend hs⟩
  · cases (Prod.mk.inj (Prod.mk.inj h).2).2

namespace Bot

variable {b b' : Bot} {i : Nat} {u : Task Job} {j : Job}

/-- Units that have not ended let faults pass, and no end was told of them. -/
structure Sound (b : Bot) : Prop where
  owned : b.Owned
  job : ∀ {i : Nat} {u : Task Job} {j : Job}, b.units.units[i]? = some u →
    u.stage.standing = (some j, false) → j.Straight
  told : ∀ {i : Nat} {u : Task Job} {j : Job}, b.units.units[i]? = some u →
    u.stage.standing = (some j, false) → ∀ h ∈ b.core.told (some i), h.isRoutine = true

theorem Sound.step (h : b.Sound) (hs : b.Step b') : b'.Sound := by
  refine ⟨hs.owned h.owned, ?_, ?_⟩
  -- A unit that is left alone keeps its job, one that had its turn goes on with what its run left,
  -- and a new one has a chain text still to read.
  · intro i u' j' hu' hj'
    cases hs.life h.owned hu' with
    | rests hu hm ht => exact h.job hu (hm.standing ▸ hj')
    | @turns u hu ht =>
      obtain ⟨j, r, hj, -, rfl, -, hr⟩ := ht.goes_on hj'
      rintro r' ⟨⟩
      exact Core.advanceJob_straight (h.job hu hj) (h.owned.units i u hu j false hj).2 hr
    | begins hi hu ht =>
      subst hu
      obtain ⟨rfl⟩ := Option.some.inj (Prod.mk.inj hj').1
      exact Job.straight_chain _ _
  · intro i u' j' hu' hj'
    cases hs.life h.owned hu' with
    | rests hu hm ht =>
      rw [ht]
      exact h.told hu (hm.standing ▸ hj')
    | @turns u hu ht =>
      obtain ⟨j, r, hj, -, -, hcore, -⟩ := ht.goes_on hj'
      have hadv := (b.core.advanceJob_tells b.units.isOpen j).1
      rw [(h.owned.units i u hu j false hj).1, hcore] at hadv
      obtain ⟨l, hl, hp⟩ := hadv
      rw [Core.told_of_journal hl]
      intro x hx
      rcases List.mem_append.mp hx with hx | hx
      · exact h.told hu hj x hx
      · exact hp x hx
    | begins hi hu ht =>
      rw [ht]
      intro x hx
      obtain rfl := List.mem_singleton.mp hx
      rfl

theorem Unused.sound (h : b.Unused) : b.Sound := by
  have hnone (i : Nat) (u : Task Job) : b.units.units[i]? ≠ some u := by
    intro hu
    rw [h.units] at hu
    cases hu
  exact ⟨h.owned, fun hu => (hnone _ _ hu).elim, fun hu => (hnone _ _ hu).elim⟩

/-- **Units that have not ended** let faults pass, and no end was told of them. -/
theorem Reached.sound (h : b.Reached) : b.Sound := by
  obtain ⟨b₀, h₀, hsteps⟩ := h
  induction hsteps with
  | refl => exact h₀.sound
  | tail _ hstep ih => exact ih.step hstep

/-- **The turn in which a run comes to its end** ends its unit, and nothing else changes but what
the units share. -/
theorem turn_ends {s' : Core} {o : Outcome} (hb : b.Owned) (hu : b.units.units[i]? = some u)
    (hj : u.stage.standing = (some j, false)) (hc : u.cancelling = false)
    (he : b.core.Ends b.units.isOpen j s' o) (due : List Nat) :
    (b.withDue due).turn i =
      { b with
        core := s'.logAll (some i) (o.reports u.label)
        units := { b.units with
          due := due, units := b.units.units.set i { u with stage := .done } } } := by
  obtain ⟨hk, -⟩ | ⟨v, v', hk, ht, hunits⟩ := hb.turn_cases i due
  · cases hk.symm.trans hu
  · obtain rfl := Option.some.inj (hk.symm.trans hu)
    obtain ⟨hcore, rfl⟩ := ht.of_ends hj hc he
    -- A turn leaves the prefix and the time limit of the bot alone.
    have hturn : (b.withDue due).turn i = { b with
        core := ((b.withDue due).turn i).core, units := ((b.withDue due).turn i).units } := rfl
    rw [hturn, hcore, hunits]
    rfl

/-- Of a run that has failed there is one diagnosis, unless the fault cannot be displayed. -/
theorem Sound.diagnosis {s' : Core} {o : Outcome} {f : Fault} (hb : b.Sound)
    (hu : b.units.units[i]? = some u) (hj : u.stage.standing = (some j, false))
    (he : b.core.Ends b.units.isOpen j s' o) (hf : o.fault? = some f) :
    ((s'.logAll (some i) (o.reports u.label)).told (some i)).filter Happening.isDiagnosis =
      if o.tooDeep?.isSome || f.showable then
        [.logged (o.tooDeep?.getD (.unitFailed u.label f.shown f.name))] else [] := by
  obtain ⟨l, hl, hp⟩ := he.tells
  rw [(hb.owned.units i u hu j false hj).1] at hl
  -- Up to the end of the run no diagnosis is told, and all that is reported then is one.
  have hroutine : ∀ h ∈ b.core.told (some i) ++ l, ¬ h.isDiagnosis = true := by
    intro h hh
    rcases List.mem_append.mp hh with hh | hh
    · simpa [Happening.isRoutine] using hb.told hu hj h hh
    · simpa [Happening.isRoutine] using hp h hh
  have hreports : ∀ h ∈ (o.reports u.label).map Happening.logged, h.isDiagnosis = true := by
    intro h hh
    obtain ⟨l, hl, rfl⟩ := List.mem_map.mp hh
    exact Outcome.reports_isDiagnosis l hl
  rw [Core.told_logAll, Core.told_of_journal hl, List.filter_append,
    List.filter_eq_nil_iff.mpr hroutine, List.filter_eq_self.mpr hreports, List.nil_append,
    Outcome.reports_eq hf]
  split <;> rfl

/-- A message is received without a fault if it can be told whether it triggers the bot. -/
theorem receive_ok {m : Message} {t : Trigger}
    (ht : ChatCommands.trigger b.trigger b.core.attributes m.content = .ok t) :
    ∃ name, (b.receive m).2 = .ok name := by
  rw [receive]
  split
  · exact ⟨none, rfl⟩
  · split
    · exact ⟨none, rfl⟩
    · rcases hc : t.chain with - | text
      · exact ⟨none, by simp only [chainText, ht, hc]⟩
      · exact ⟨_, by simp only [chainText, ht, hc]; rfl⟩

end Bot

/-- **A failure is contained in its unit.** Messages are received whatever their units come to. A
unit that has not ended hears nothing and calls nothing behind a fault, but ends with it. Its turn
then leaves it done, the core as it was at the fault but for the reports, and all else unchanged; if
the final answer was what failed, nothing was sent behind it. Whatever happens later, the unit stays
done, and nothing is told of it any more: of all that was, there is one diagnosis, of its own kind
for a chain that nests too deep, unless the fault cannot be displayed. -/
theorem failure_contained {b : Bot} (hb : b.Reached) :
    (∀ {m : Message} {t : Trigger}, trigger b.trigger b.core.attributes m.content = .ok t →
      ∃ name, (b.receive m).2 = .ok name) ∧
    ∀ {i : Nat} {u : Task Job} {j : Job}, b.units.units[i]? = some u →
      u.stage.standing = (some j, false) →
      (∀ {r r' : Run} {t t' : List Talk} {f : Fault}, j.Runs r →
        Run.Course r (t ++ .answered (.error f) :: t') r' →
        t' = [] ∧ ∀ opened n s,
          r'.advance opened (n + 1) s = (s, .ended r'.event (.error f))) ∧
      ∀ {s' : Core} {o : Outcome} {f : Fault}, u.cancelling = false →
        b.core.Ends b.units.isOpen j s' o → o.fault? = some f → ∀ due : List Nat,
        let b' := (b.withDue due).turn i
        b' = { b with
          core := s'.logAll (some i) (o.reports u.label)
          units := { b.units with
            due := due, units := b.units.units.set i { u with stage := .done } } } ∧
        b.core.journal <+: s'.journal ∧
        (o = .undelivered f → ∃ out, s'.journal.getLast? = some ⟨some i, .unsent out⟩) ∧
        ∀ b'', ReflTransGen Bot.Step b' b'' →
          (∃ u', b''.units.units[i]? = some u' ∧ u'.stage = .done) ∧
          b''.core.told (some i) = b'.core.told (some i) ∧
          (b''.core.told (some i)).filter Happening.isDiagnosis =
            if o.tooDeep?.isSome || f.showable then
              [.logged (o.tooDeep?.getD (.unitFailed u.label f.shown f.name))] else [] := by
  refine ⟨Bot.receive_ok, ?_⟩
  intro i u j hu hj
  have hsound := hb.sound
  obtain ⟨hunit, -⟩ := hsound.owned.units i u hu j false hj
  constructor
  · intro r r' t t' f hr hcourse
    obtain ⟨ht, hstep⟩ := hcourse.ends_with_fault (hsound.job hu hj r hr) rfl
    refine ⟨ht, ?_⟩
    intro opened n s
    rw [Run.advance, hstep]
  · intro s' o f hc he hf due b'
    -- The turn in which the run ends is known as a whole; what comes later is by induction on it.
    have hb' : b' = _ := Bot.turn_ends hsound.owned hu hj hc he due
    obtain ⟨l, hl, -⟩ := he.tells
    refine ⟨hb', ⟨_, hl.symm⟩, ?_, ?_⟩
    · rintro rfl
      cases he with
      | @undelivered s₁ _ e _ v _ h hd =>
        obtain ⟨out, -, hlast⟩ := Core.deliver_error hd
        have he := (b.core.advanceJob_tells b.units.isOpen j).2
        rw [h, hunit] at he
        exact ⟨out, (show e.unit = _ from he) ▸ hlast⟩
    · intro b'' hsteps
      have hlt := (List.getElem?_eq_some_iff.mp hu).1
      have hdone : b'.units.units[i]? = some { u with stage := .done } := by
        rw [hb']
        simp [hlt]
      -- Which units stand in line makes no difference to what their jobs are for.
      have howned : b'.Owned := by
        have hb₀ : (b.withDue due).Owned :=
          ⟨hsound.owned.units, hsound.owned.untold⟩
        exact Bot.Step.owned hb₀ (.tick (.turn i due (.inl rfl)))
      obtain ⟨u', hu', hstage, -, ht⟩ := Bot.steps_over howned hsteps hdone (.inl rfl)
      refine ⟨⟨u', hu', hstage⟩, ht, ?_⟩
      rw [ht, hb']
      exact hsound.diagnosis hu hj he hf

/-- A sub-chain fails by its command, which has sent something before. Neither the command whose
argument it is nor the one behind it begins, and the unit of another message stays as it was. -/
theorem failure_contained_nested :
    ∃ (b b' : Bot) (r r' : Run) (f : Fault),
      f = .runtime "boom" ∧ b.Reached ∧
      b.units.overview = [("ct-1", "pending"), ("ct-2", "pending")] ∧
      Run.Course r [.called ⟨"b", [], true⟩, .answered (.error f)] r' ∧
      (∀ opened n s, r'.advance opened (n + 1) s = (s, .ended r'.event (.error f))) ∧
      ReflTransGen Bot.Step b b' ∧
      b'.units.overview = [("ct-1", "done"), ("ct-2", "pending")] ∧
      (b'.core.journal.filterMap fun x =>
        match x.what with | .sent o => some o | _ => none) = [.reply "c" "x"] ∧
      (b'.core.told (some 0)).filter Happening.isDiagnosis =
        [.logged (.unitFailed "ct-1" "boom" "RuntimeError")] := by
  let core : Core :=
    { attributes := { advanced := true }, transport := .fixed .null [] [] []
      registry := (({} : Registry).register { name := "a" } .inline
        fun _ _ => pure .null).register { name := "b" } .inline fun _ _ => do
          let _ ← Program.reply "x"
          Program.fail (.runtime "boom") }
  let b₀ : Bot := { trigger := .literal "!", core := core }
  let m : Message := ⟨"!a [b]>a", some ⟨"u", "", []⟩, "c", none, .null⟩
  let b : Bot := ((b₀.receive m).1.receive m).1
  have hb₀ : b₀.Reached := ⟨b₀, ⟨rfl, rfl, rfl, fun x hx => nomatch hx⟩, .refl⟩
  have hb : b.Reached :=
    (hb₀.acts (.does (.goes (.receive m)))).acts (.does (.goes (.receive m)))
  let e : Event := { unit := some 0, message := m }
  let j : Job := .chain "a [b]>a" e
  let r : Run := ⟨e, do
    return Value.ofText? (← chainProgram [.call "a" [[.sub [.call "b" []]]], .call "a" []]),
    .inline, []⟩
  have hr : j.Runs r := by
    have hparse : (parseChain { advanced := true } "a [b]>a").chain =
        .ok [.call "a" [[.sub [.call "b" []]]], .call "a" []] := rfl
    have hchain : (parseChain core.attributes "a [b]>a").chain = _ := hparse
    have hprogram : (core.programOf e "a [b]>a").2 = r.program := by
      rw [Core.programOf, if_pos (show core.attributes.advanced = true from rfl),
        Core.programOfParsed, hchain]
    have hread := Job.Runs.read core "a [b]>a" e
    rw [hprogram] at hread
    exact hread
  have h₁ : Run.Course r [.called ⟨"b", [], true⟩] _ :=
    Run.Course.start.step (fun _ => true) core rfl
  have h₂ := h₁.step (fun _ => true) core rfl
  have h₃ : Run.Course r [.called ⟨"b", [], true⟩, .answered (.error (.runtime "boom"))] _ :=
    h₂.step (fun _ => true) core rfl
  have hfails : (b.core.advanceJob b.units.isOpen j).2.failedBy? = some (.runtime "boom") := by
    decide +kernel
  obtain ⟨s', author, hends⟩ := Core.ends_of_failedBy hfails
  obtain ⟨-, hunit⟩ := failure_contained hb
  have hu : b.units.units[0]? = some ⟨"ct-1", .fresh j, false⟩ := by
    rw [show ("ct-1" : String) = "ct-" ++ toString 1 by decide +kernel]
    rfl
  obtain ⟨hcourse, hturn⟩ := hunit hu rfl
  obtain ⟨-, hover⟩ := hcourse (t := [.called ⟨"b", [], true⟩]) hr h₃
  obtain ⟨-, -, -, htold⟩ := hturn rfl hends rfl b.units.due
  obtain ⟨-, -, hdiagnosis⟩ := htold _ .refl
  exact ⟨b, b.turn 0, r, _, _, rfl, hb, by decide +kernel, h₃, hover,
    .single (.tick (.turn 0 b.units.due (.inl rfl))), by decide +kernel, by decide +kernel,
    hdiagnosis⟩

/-- A failure whose message is no text cannot be displayed. Its unit ends, and no diagnosis is told
of it. -/
theorem failure_unspoken :
    ∃ (b : Bot) (s' : Core) (o : Outcome) (f : Fault) (u : Task Job) (j : Job),
      f = .failure (.of .general (.int 5)) ∧ b.Reached ∧ b.units.units = [u] ∧
      u.stage.standing = (some j, false) ∧ b.core.Ends b.units.isOpen j s' o ∧
      o.fault? = some f ∧ (b.turn 0).units.overview = [("ct-1", "done")] ∧
      ((b.turn 0).core.told (some 0)).countP Happening.isDiagnosis = 0 := by
  let core : Core :=
    { attributes := {}, transport := .fixed .null [] [] []
      registry := ({} : Registry).register { name := "a" } .inline
        fun _ _ => Program.fail (.failure (.of .general (.int 5))) }
  let b₀ : Bot := { trigger := .literal "!", core := core }
  let m : Message := ⟨"!a", some ⟨"u", "", []⟩, "c", none, .null⟩
  let b : Bot := (b₀.receive m).1
  have hb₀ : b₀.Reached := ⟨b₀, ⟨rfl, rfl, rfl, fun x hx => nomatch hx⟩, .refl⟩
  let j : Job := .chain "a" { unit := some 0, message := m }
  have hfails : (b.core.advanceJob b.units.isOpen j).2.failedBy? =
      some (.failure (.of .general (.int 5))) := by decide +kernel
  obtain ⟨s', author, hends⟩ := Core.ends_of_failedBy hfails
  exact ⟨b, s', _, _, _, _, rfl, hb₀.acts (.does (.goes (.receive m))), rfl, rfl, hends, rfl,
    by decide +kernel, by decide +kernel⟩

end ChatCommands
