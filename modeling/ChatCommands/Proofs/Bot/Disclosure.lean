import ChatCommands.Proofs.Bot.Ticks
import ChatCommands.Proofs.Log.Redaction

/-!
# What the log shows of a key

A chain text may carry a key behind the word of an authorization header. The text as a whole is
reported, and there the key is found and replaced. But the words of a call are reported one by one,
and redaction looks at each of them alone: if the header is taken apart on the way from the text to
the call, nothing tells the key from any other word.

So what is reported of a unit is told apart here. Most reports hold nothing that was not checked
before: the chain text, the names of calls that were reported already, the author, the channel, the
unit and numbers. The others say what commands and faults say. If those keep the key behind its
header, or do not show it at all, then nothing that is ever reported of the unit shows it.

## Main definitions

* `LogEvent.Betrays`: a report shows a key after redaction
* `LogEvent.Keeps`, `LogEvent.isSpoken`: reports that can be redacted, and those that commands and
  faults decide about
* `Core.Discreet`: what commands and faults say of a unit can be redacted
* `Run.Hides`, `Bot.Hides`: runs and bots with nothing at hand that would show the key

## Main results

* `Run.step_hides`, `Run.advance_hides`: what a request of a run reports, and a whole turn
* `Task.Hides.turns`, `Bot.Hides.steps`: what is reported in the turn of a unit, and over time
* `secret_redacted`: no report on a message shows a key, as long as its calls keep the header whole
* `secret_split`: a header that is taken apart
-/

namespace ChatCommands

open Relation (ReflTransGen)

variable {w : List Char}

/-! ## Reports -/

namespace LogEvent

/-- A report shows a key after redaction. -/
def Betrays (w : List Char) (l : LogEvent) : Prop := ∃ f ∈ sanitize l.entry.fields, f.2.Shows w

/-- A report whose fields can be redacted. -/
def Keeps (w : List Char) (l : LogEvent) : Prop := ∀ f ∈ l.entry.fields, f.2.FieldKeeps w

/-- Whether commands and faults decide about what is reported: what is called, the levels that are
set, and what a unit failed by. -/
def isSpoken : LogEvent → Bool
  | commandExecuting _ _ => true
  | userLevelSet _ _ => true
  | roleLevelSet _ _ => true
  | chainTooDeep _ _ => true
  | unitFailed _ _ _ => true
  | _ => false

theorem Keeps.not_betrays {l : LogEvent} (h : l.Keeps w) (hw : SecretKey w) : ¬l.Betrays w := by
  rintro ⟨f, hf, hs⟩
  obtain ⟨f', hf', rfl⟩ := List.mem_map.mp hf
  exact not_shows_sanitizeField hw (h f' hf') hs

end LogEvent

namespace Setting

theorem fieldKeeps_of_not_shows {v : Setting} (h : ¬v.Shows w) : v.FieldKeeps w :=
  (keeps_of_not_shows h).field

theorem not_shows_null : ¬Setting.null.Shows w := by
  rintro ⟨s, hs, -⟩
  cases hs

theorem not_shows_int (i : Int) : ¬(Setting.int i).Shows w := by
  rintro ⟨s, hs, -⟩
  cases hs

/-- A number shows no text. -/
theorem not_shows_of_number {v : Setting} (h : v.number?.isSome = true) : ¬v.Shows w := by
  rintro ⟨s, hs, -⟩
  cases v with
  | scalar v =>
    cases v with
    | text t => cases h
    | _ => cases hs
  | _ => cases h

end Setting

open scoped Classical in
/-- Whether what happens can be redacted if it is reported, or is up to commands and faults. -/
noncomputable def Happening.isKept (w : List Char) : Happening → Bool
  | logged l => decide (l.isSpoken = true ∨ l.Keeps w)
  | _ => true

theorem Happening.isKept_logged {l : LogEvent} :
    (logged l).isKept w = true ↔ l.isSpoken = true ∨ l.Keeps w := by
  simp [isKept]

theorem Happening.isKept_of_isSilent {h : Happening} (hs : h.isSilent = true) :
    h.isKept w = true := by
  cases h with
  | logged l => cases hs
  | _ => rfl

theorem Happening.isKept_of_isOwn {h : Happening} (hs : h.isOwn = true) : h.isKept w = true := by
  cases h with
  | logged l =>
    refine isKept_logged.mpr (.inl ?_)
    cases l with
    | userLevelSet u n => rfl
    | roleLevelSet r n => rfl
    | _ => cases hs
  | _ => rfl

/-- A message whose author, channel and identifier do not show a key. -/
structure Message.Hides (w : List Char) (m : Message) : Prop where
  author : ∀ u, m.author = some u → ¬u.id.Shows w
  channel : ¬m.channel.Shows w
  id : ¬m.id.Shows w

theorem Event.not_shows_authorId {e : Event} (h : e.message.Hides w) : ¬e.authorId.Shows w := by
  rw [authorId]
  rcases ha : e.message.author with - | u
  · exact Setting.not_shows_null
  · exact h.author u ha

/-- What is reported of a call shows nothing beyond its name. -/
theorem Event.allows_isKept {e : Event} (h : e.message.Hides w) {name : Setting}
    (hn : name.FieldKeeps w) : e.Allows (Happening.isKept w) name := by
  have hauthor := Setting.fieldKeeps_of_not_shows (not_shows_authorId h)
  constructor
  · exact fun _ => Happening.isKept_of_isSilent
  · refine Happening.isKept_logged.mpr (.inr ?_)
    intro f hf
    obtain rfl := List.mem_singleton.mp hf
    exact hn
  · intro level hl
    refine Happening.isKept_logged.mpr (.inr ?_)
    simp only [LogEvent.Keeps, LogEvent.entry, List.forall_mem_cons]
    exact ⟨hn, hauthor, Setting.fieldKeeps_of_not_shows (Setting.not_shows_of_number hl),
      nofun⟩
  · refine Happening.isKept_logged.mpr (.inr ?_)
    simp only [LogEvent.Keeps, LogEvent.entry, List.forall_mem_cons]
    exact ⟨hn, hauthor, nofun⟩

/-! ## What commands and faults say -/

namespace Core

variable {p : Happening → Bool} {u : Option Nat} {s s' : Core}

/-- What commands and faults say of a unit can be redacted. -/
def Discreet (w : List Char) (u : Option Nat) (s : Core) : Prop :=
  ∀ l, .logged l ∈ s.told u → l.isSpoken = true → l.Keeps w

theorem Tells.told (h : s.Tells p u s') : ∃ l, s'.told u = s.told u ++ l ∧ ∀ x ∈ l, p x = true := by
  obtain ⟨l, hl, hp⟩ := h
  exact ⟨l, told_of_journal hl, hp⟩

/-- What was said before can be redacted if all that is said in the end can. -/
theorem Tells.discreet (h : s.Tells p u s') (hd : s'.Discreet w u) : s.Discreet w u := by
  obtain ⟨k, hk, -⟩ := h.told
  intro l hl
  exact hd l (hk ▸ List.mem_append_left k hl)

/-- What is kept and what is said discreetly can all be redacted. -/
theorem Tells.keeps (h : s.Tells (Happening.isKept w) u s')
    (ht : ∀ l, .logged l ∈ s.told u → l.Keeps w) (hd : s'.Discreet w u) :
    ∀ l, .logged l ∈ s'.told u → l.Keeps w := by
  obtain ⟨k, hk, hp⟩ := h.told
  intro l hl
  rcases List.mem_append.mp (hk ▸ hl) with hl' | hl'
  · exact ht l hl'
  · exact (Happening.isKept_logged.mp (hp _ hl')).elim (hd l hl) id

end Core

/-! ## Runs -/

/-- A run for a message that does not show a key, under calls whose names can be redacted. -/
structure Run.Hides (w : List Char) (r : Run) : Prop where
  message : r.event.message.Hides w
  frames : ∀ f ∈ r.frames, f.called.FieldKeeps w

/-- What a run comes to, with nothing at hand that would show a key. -/
def Progress.Hides (w : List Char) : Progress → Prop
  | on r => r.Hides w
  | blocked _ r => r.Hides w
  | yielded r => r.Hides w
  | ended e _ => e.message.Hides w

theorem Progress.Hides.rest {q : Progress} {r : Run} (h : q.Hides w) (hq : q.rest = some r) :
    r.Hides w := by
  cases q with
  | ended e v => cases hq
  | _ =>
    obtain rfl := Option.some.inj hq
    exact h

namespace Run

variable {opened : Setting → Bool} {s s' : Core} {r : Run}

/-- What is called is reported before anything comes of it, so that its name can be redacted. -/
theorem called_keeps {name : Setting} {arguments : List Setting} {chained : Bool}
    {next : Except Fault (Option String) → Program Value}
    (hp : r.program = .call name arguments chained next)
    (hd : (r.step opened s).1.Discreet w r.event.unit) : name.FieldKeeps w := by
  obtain ⟨e, p, m, fs⟩ := r
  obtain rfl : p = _ := hp
  have ht : (s.log e.unit (.commandExecuting name arguments)).Tells (fun _ => true) e.unit
      (step opened s ⟨e, .call name arguments chained next, m, fs⟩).1 := by
    have hany : e.Allows (fun _ => true) name := ⟨fun _ _ => rfl, rfl, fun _ _ => rfl, rfl⟩
    have ht := s.dispatch_tells e hany.gate arguments chained
    simp only [step]
    generalize s.dispatch e name arguments chained = x at ht ⊢
    rcases x with ⟨s', e', c | t | f⟩ <;> exact ht
  have hmem : .logged (.commandExecuting name arguments) ∈
      (s.log e.unit (.commandExecuting name arguments)).told e.unit := by
    rw [Core.log, Core.told_record]
    exact List.mem_append_right _ List.mem_cons_self
  exact ht.discreet hd _ hmem rfl ("command", name) List.mem_cons_self

/-- **A request of a run** reports nothing that shows a key, if what is called can be redacted. -/
theorem step_hides (h : r.Hides w) (hd : (r.step opened s).1.Discreet w r.event.unit) :
    s.Tells (Happening.isKept w) r.event.unit (r.step opened s).1 ∧
      (r.step opened s).2.Hides w := by
  have hallows : r.Allows (Happening.isKept w) := by
    constructor
    · exact fun _ => Happening.isKept_of_isSilent
    · intro a next _ s
      exact (s.serve_tells r.event a).mono fun _ => Happening.isKept_of_isOwn
    · intro name arguments chained next hp
      exact ⟨Event.allows_isKept h.message (called_keeps hp hd),
        Happening.isKept_logged.mpr (.inl rfl)⟩
    · exact fun f hf => (Event.allows_isKept h.message (h.frames f hf)).raised
  refine ⟨step_tells_of hallows opened s, ?_⟩
  have hgoes {r' : Run} (hr : (r.step opened s).2.rest = some r') : r'.Hides w := by
    constructor
    · rw [step_message hr]
      exact h.message
    · intro f hf
      rcases step_enters opened s r with ⟨c, r₁, hr₁, hc⟩ | ⟨-, hframes⟩
      · obtain rfl := Option.some.inj (hr.symm.trans hr₁)
        obtain ⟨name, arguments, chained, next, hp, -, -, -, hframes⟩ := hc.call
        rcases List.mem_cons.mp (hframes ▸ hf) with rfl | hf
        · exact called_keeps hp hd
        · exact h.frames f hf
      · exact h.frames f ((hframes r' hr).mem hf)
  rcases hq : (r.step opened s).2 with r' | ⟨g, r'⟩ | r' | ⟨e, v⟩
  · exact hgoes (congrArg Progress.rest hq)
  · exact hgoes (congrArg Progress.rest hq)
  · exact hgoes (congrArg Progress.rest hq)
  · obtain ⟨-, hr⟩ := step_ended (show r.step opened s = (_, .ended e v) from Prod.ext rfl hq)
    obtain rfl : r.event = e := congrArg Run.event hr
    exact h.message

/-- Requests that go on. -/
theorem advance_hides (n : Nat) (h : r.Hides w)
    (hd : (r.advance opened n s).1.Discreet w r.event.unit) :
    s.Tells (Happening.isKept w) r.event.unit (r.advance opened n s).1 ∧
      (r.advance opened n s).2.Hides w := by
  induction n generalizing s r with
  | zero => exact ⟨.refl s, h⟩
  | succ n ih =>
    have hu := r.step_unit opened s
    have hstep := @step_hides w opened s r h
    rw [advance] at hd ⊢
    generalize r.step opened s = x at hu hstep hd ⊢
    obtain ⟨s', q⟩ := x
    cases q with
    | on r' =>
      have hr : r'.event.unit = r.event.unit := hu
      have ht := (r'.advance_tells opened n s').1
      rw [hr] at ht
      obtain ⟨ht', hr'⟩ := hstep (ht.discreet hd)
      obtain ⟨ht'', hq⟩ := ih hr' (hr.symm ▸ hd)
      exact ⟨ht'.trans (hr ▸ ht''), hq⟩
    | _ => exact hstep hd

end Run

/-! ## Units -/

/-- A job with nothing at hand that would show a key. -/
def Job.Hides (w : List Char) : Job → Prop
  | chain text e => Shielded w text.toList ∧ e.message.Hides w
  | run r => r.Hides w
  | stray r => r.Hides w

/-- The reports on a text show nothing of it but whether it is well formed. -/
theorem Note.keeps (n : Note) (l : LogEvent) (h : n.event? = some l) : l.Keeps w := by
  cases n with
  | opened d => cases h
  | quoteUnterminated =>
    obtain rfl := Option.some.inj h
    exact nofun
  | _ =>
    obtain rfl := Option.some.inj h
    simp only [LogEvent.Keeps, LogEvent.entry, List.forall_mem_cons]
    exact ⟨Setting.fieldKeeps_of_not_shows (Setting.not_shows_int _), nofun⟩

namespace Core

variable {opened : Setting → Bool} {s s' : Core} {j : Job}

/-- **A job that goes on** reports nothing that shows a key. -/
theorem advanceJob_hides (h : j.Hides w)
    (hd : (s.advanceJob opened j).1.Discreet w j.event.unit) :
    s.Tells (Happening.isKept w) j.event.unit (s.advanceJob opened j).1 ∧
      (s.advanceJob opened j).2.Hides w := by
  cases j with
  | chain text e =>
    obtain ⟨htext, he⟩ := h
    have hl : s.Tells (Happening.isKept w) e.unit (s.log e.unit (.chainParsing text)) := by
      refine .log s (Happening.isKept_logged.mpr (.inr ?_))
      intro f hf
      obtain rfl := List.mem_singleton.mp hf
      exact Setting.Keeps.field (v := .text text) htext
    have hp := hl.trans ((s.log e.unit (.chainParsing text)).programOf_tells e
      (p := Happening.isKept w)
      (fun n l hn => Happening.isKept_logged.mpr (.inr (n.keeps l hn)))
      (fun n => Happening.isKept_logged.mpr (.inr ?_)) text)
    · obtain ⟨ht, hq⟩ := Run.advance_hides turnLength
        (r := ⟨e, ((s.log e.unit (.chainParsing text)).programOf e text).2, .inline, []⟩)
        ⟨he, nofun⟩ hd
      exact ⟨hp.trans ht, hq⟩
    · intro f hf
      obtain rfl := List.mem_singleton.mp hf
      exact Setting.fieldKeeps_of_not_shows (Setting.not_shows_int _)
  | run r => exact Run.advance_hides turnLength h hd
  | stray r => exact Run.advance_hides turnLength h hd

/-- The final answer is reported with the channel and the length of the text. -/
theorem deliver_hides {e : Event} (he : e.message.Hides w) (s : Core) (v : Value) :
    s.Tells (Happening.isKept w) e.unit (s.deliver e v).1 := by
  have hchannel := Setting.fieldKeeps_of_not_shows he.channel
  refine s.deliver_tells e (fun _ => Happening.isKept_of_isSilent) ?_ ?_ v
  · refine Happening.isKept_logged.mpr (.inr ?_)
    intro f hf
    obtain rfl := List.mem_singleton.mp hf
    exact hchannel
  · intro n
    refine Happening.isKept_logged.mpr (.inr ?_)
    simp only [LogEvent.Keeps, LogEvent.entry, List.forall_mem_cons]
    exact ⟨hchannel, Setting.fieldKeeps_of_not_shows (Setting.not_shows_int _), nofun⟩

/-- Up to the end of a run nothing is reported that shows a key. -/
theorem Ends.hides {o : Outcome} (h : s.Ends opened j s' o) (hj : j.Hides w)
    (hd : s'.Discreet w j.event.unit) : s.Tells (Happening.isKept w) j.event.unit s' := by
  obtain ⟨-, hu⟩ := s.advanceJob_tells opened j
  have hjob := @advanceJob_hides w opened s j hj
  have hdeliver {s₁ : Core} {e e' : Event} {v : Value} {x : Except Fault Unit}
      (h : s.advanceJob opened j = (s₁, .ended e (.ok v))) (hx : s₁.deliver e v = (s', e', x)) :
      s.Tells (Happening.isKept w) j.event.unit s' := by
    rw [h] at hu hjob
    have hu : e.unit = j.event.unit := hu
    have ht := s₁.deliver_tells e (p := fun _ => true) (fun _ _ => rfl) rfl (fun _ => rfl) v
    rw [hx, hu] at ht
    obtain ⟨hs, he⟩ := hjob (ht.discreet hd)
    have hs' := deliver_hides he s₁ v
    rw [hx, hu] at hs'
    exact hs.trans hs'
  cases h with
  | delivered h hx => exact hdeliver h hx
  | undelivered h hx => exact hdeliver h hx
  | cut h =>
    rw [h] at hjob
    exact (hjob hd).1

end Core

/-- What a unit failed by is up to commands and faults. -/
theorem Outcome.reports_isSpoken (o : Outcome) (label : Setting) :
    ∀ l ∈ o.reports label, l.isSpoken = true := by
  have hfault (f : Fault) : ∀ l ∈ f.reports label, l.isSpoken = true := by
    intro l hl
    rw [Fault.reports] at hl
    split at hl
    · obtain rfl := List.mem_singleton.mp hl
      rfl
    · cases hl
  intro l hl
  unfold reports at hl
  split at hl
  · cases hl
  · exact hfault _ l hl
  · obtain rfl := List.mem_singleton.mp hl
    rfl
  · exact hfault _ l hl

/-- A unit with nothing at hand that would show a key. -/
structure Task.Hides (w : List Char) (u : Task Job) : Prop where
  label : ¬u.label.Shows w
  job : ∀ j c, u.stage.standing = (some j, c) → j.Hides w

namespace Task.Hides

variable {opened : Setting → Bool} {i : Nat} {s s' : Core} {u u' : Task Job}

/-- **In the turn of a unit** nothing is reported that shows a key. -/
theorem turns (h : u.Hides w) (ho : u.Owned i) (ht : Task.Turns opened i s u s' u')
    (hd : s'.Discreet w (some i)) :
    u'.Hides w ∧ s.Tells (Happening.isKept w) (some i) s' := by
  have hjob {j : Job} (hj : u.stage.standing = (some j, false)) {x : Core × Progress}
      (hx : s.advanceJob opened j = x) (hd : x.1.Discreet w (some i)) :
      s.Tells (Happening.isKept w) (some i) x.1 ∧ x.2.Hides w := by
    obtain ⟨hu, -⟩ := ho j false hj
    subst hx
    rw [← hu] at hd ⊢
    exact Core.advanceJob_hides (h.job j false hj) hd
  cases ht with
  | waits hj hc hx =>
    obtain ⟨ht, hq⟩ := hjob hj hx hd
    refine ⟨⟨h.label, ?_⟩, ht⟩
    rintro _ _ ⟨⟩
    exact hq
  | yields hj hc hx =>
    rcases hx with hx | hx
    all_goals
      obtain ⟨ht, hq⟩ := hjob hj hx hd
      refine ⟨⟨h.label, ?_⟩, ht⟩
      rintro _ _ ⟨⟩
      exact hq
  | @ends j s₁ o hj hc hx =>
    obtain ⟨hu, -⟩ := ho j false hj
    have hreports : s₁.Tells (Happening.isKept w) (some i)
        (s₁.logAll (some i) (o.reports u.label)) :=
      .logAll s₁ fun l hl => Happening.isKept_logged.mpr (.inl (o.reports_isSpoken _ l hl))
    have ht := hx.hides (h.job j false hj) (hu ▸ hreports.discreet hd)
    rw [hu] at ht
    refine ⟨⟨h.label, ?_⟩, ht.trans hreports⟩
    rintro _ _ ⟨⟩
  | dropped hs hc =>
    refine ⟨⟨h.label, ?_⟩, .refl s⟩
    rintro _ _ ⟨⟩
  | interrupted hs hc =>
    refine ⟨⟨h.label, ?_⟩, .log s (Happening.isKept_logged.mpr (.inr ?_))⟩
    · intro k c hk
      obtain ⟨rfl, r, hj, rfl⟩ := Stage.standing_interrupted hk
      exact ⟨(h.job (.run r) false (hs ▸ hj)).message, nofun⟩
    · intro f hf
      obtain rfl := List.mem_singleton.mp hf
      exact Setting.fieldKeeps_of_not_shows h.label
  | @strays a r hs ha =>
    have hj : u.stage.standing = (some (.stray r), true) := hs ▸ Stage.standing_stray ha
    have hu : r.event.unit = some i := (ho _ true hj).1
    obtain ⟨ht, hq⟩ := Run.advance_hides turnLength (h.job _ _ hj) (hu ▸ hd)
    refine ⟨⟨h.label, ?_⟩, hu ▸ ht⟩
    intro k c hk
    obtain ⟨rfl, r', hr, rfl⟩ := Progress.standing_strayed hk
    exact hq.rest hr
  | idle hs => exact ⟨h, .refl s⟩

/-- While others act, a unit has nothing else at hand. -/
theorem meanwhile (h : u.Hides w) (hm : Task.Meanwhile u u') : u'.Hides w := by
  constructor
  · rw [hm.label]
    exact h.label
  · rw [hm.standing]
    exact h.job

end Task.Hides

namespace Bot

variable {b b' : Bot} {i : Nat}

/-- A unit with nothing at hand that would show a key, and with no report that does. -/
structure Hides (w : List Char) (b : Bot) (i : Nat) : Prop where
  unit : ∃ u, b.units.units[i]? = some u ∧ u.Hides w
  told : ∀ l, .logged l ∈ b.core.told (some i) → l.Keeps w

/-- What was said before a step can be redacted if all that is said behind it can. -/
theorem Step.discreet (h : b.Step b') (hb : b.Owned) (hd : b'.core.Discreet w (some i)) :
    b.core.Discreet w (some i) := by
  obtain ⟨v, ha⟩ := h.acting hb
  by_cases hv : v = some i
  · subst hv
    exact ha.tells.discreet hd
  · rw [Core.Discreet, ← ha.tells.told_ne hv]
    exact hd

theorem Hides.step (h : b.Hides w i) (hb : b.Owned) (hs : b.Step b')
    (hd : b'.core.Discreet w (some i)) : b'.Hides w i := by
  obtain ⟨⟨u, hu, hhides⟩, htold⟩ := h
  obtain ⟨u', hu', ⟨hm, ht⟩ | ht⟩ := hs.unit hb hu
  · refine ⟨⟨u', hu', hhides.meanwhile hm⟩, ?_⟩
    rw [ht]
    exact htold
  · obtain ⟨hhides', htells⟩ := hhides.turns (hb.units i u hu) ht hd
    exact ⟨⟨u', hu', hhides'⟩, htells.keeps htold hd⟩

theorem Hides.steps (h : b.Hides w i) (hb : b.Owned) (hs : ReflTransGen Step b b')
    (hd : b'.core.Discreet w (some i)) : b'.Hides w i := by
  induction hs with
  | refl => exact h
  | tail hs hstep ih =>
    exact (ih (hstep.discreet (hb.steps hs) hd)).step (hb.steps hs) hstep hd

/-- The reports of receiving a message show nothing of what it says. -/
theorem receive_keeps (b : Bot) {m : Message} (hm : m.Hides w) :
    ∃ l : List LogEvent, (b.receive m).1.core.told none = b.core.told none ++ l.map .logged ∧
      ∀ e ∈ l, e.Keeps w := by
  have hchannel := Setting.fieldKeeps_of_not_shows hm.channel
  cases b.receives m with
  | passed l hl hb hr =>
    refine ⟨l, ?_, ?_⟩
    · rw [hb]
      exact b.core.told_logAll none l
    · intro e he
      rcases hl e he with rfl | rfl | rfl
      · exact nofun
      · exact nofun
      · simp only [LogEvent.Keeps, LogEvent.entry, List.forall_mem_cons]
        exact ⟨Setting.fieldKeeps_of_not_shows hm.id, hchannel, nofun⟩
  | enrolled u text hu ht hb hr =>
    refine ⟨[.chainTriggered u.id m.channel text.length], ?_, ?_⟩
    · -- That the unit is spawned is told of the unit.
      obtain ⟨n, -, hcore⟩ := enrol_eq
        { b with core := b.core.log none (.chainTriggered u.id m.channel text.length) } text m
      rw [hb, hcore, Core.log, Core.told_record_ne _ (by simp)]
      exact b.core.told_record none _
    · intro e he
      obtain rfl := List.mem_singleton.mp he
      simp only [LogEvent.Keeps, LogEvent.entry, List.forall_mem_cons]
      exact ⟨Setting.fieldKeeps_of_not_shows (hm.author u hu), hchannel,
        Setting.fieldKeeps_of_not_shows (Setting.not_shows_int _), nofun⟩

/-- The unit of a message, with a text in which the key is shielded. -/
theorem receive_hides {m : Message} {text name : String} (hb : b.Reached) (hm : m.Hides w)
    (ht : (b.chainText m.content).2 = .ok (some text))
    (hr : (b.receive m).2 = .ok (some name)) (hw : Shielded w text.toList)
    (hname : ¬w <:+: name.toList) : (b.receive m).1.Hides w b.units.units.length := by
  cases b.receives m with
  | passed l hl hb hr' => exact absurd hr (hr' name)
  | enrolled u text' hu ht' hrec hr' =>
    obtain rfl := Option.some.inj (Except.ok.inj (ht.symm.trans ht'))
    obtain rfl := Option.some.inj (Except.ok.inj (hr.symm.trans hr'))
    have hlabel := mt Setting.shows_text.mp hname
    rw [hrec]
    constructor
    · refine ⟨_, List.getElem?_concat_length, hlabel, ?_⟩
      rintro _ _ ⟨⟩
      exact ⟨hw, hm⟩
    · have hown : Owned
          { b with core := b.core.log none (.chainTriggered u.id m.channel text.length) } :=
        Step.owned hb.owned (.tick (.aside (.log _ _)))
      obtain ⟨n, htold⟩ := hown.told_enrol text m
      intro l hl
      cases List.mem_singleton.mp (htold ▸ hl)
      simp only [LogEvent.Keeps, LogEvent.entry, List.forall_mem_cons]
      exact ⟨Setting.fieldKeeps_of_not_shows hlabel,
        Setting.fieldKeeps_of_not_shows (Setting.not_shows_int _), nofun⟩

end Bot

/-- **No report shows a key that stays behind its header.** A message is received, and whatever its
text, the reports of that do not show it. If it becomes a unit, the key being shielded in the chain
text, then at any later moment no report on the unit shows the key after redaction: not while the
text is read, not while commands are found, refused and run, and not when the answer is sent. What
commands and faults say has to keep the key behind its header, in every name and in every argument
that is called, or must not show it; and so must the identifiers of the network and of the unit. -/
theorem secret_redacted {b : Bot} {m : Message} (hb : b.Reached) (hw : SecretKey w)
    (hm : m.Hides w) :
    (∃ l : List LogEvent, (b.receive m).1.core.told none = b.core.told none ++ l.map .logged ∧
      ∀ e ∈ l, ¬e.Betrays w) ∧
    ∀ {text name : String}, (b.chainText m.content).2 = .ok (some text) →
      (b.receive m).2 = .ok (some name) → Shielded w text.toList → ¬w <:+: name.toList →
      ∀ b', ReflTransGen Bot.Step (b.receive m).1 b' →
        b'.core.Discreet w (some b.units.units.length) →
        ∀ l, .logged l ∈ b'.core.told (some b.units.units.length) → ¬l.Betrays w := by
  constructor
  · obtain ⟨l, ht, hl⟩ := b.receive_keeps hm
    exact ⟨l, ht, fun e he => (hl e he).not_betrays hw⟩
  · intro text name ht hr htext hname b' hsteps hd l hl
    have hhides := Bot.receive_hides hb hm ht hr htext hname
    have hown : (b.receive m).1.Owned := hb.owned.ticks (b.ticks_receive m)
    exact ((hhides.steps hown hsteps hd).told l hl).not_betrays hw

/-- A key that is quoted together with its header stays behind it in the call. -/
theorem secret_redacted_quoted :
    ∃ (b : Bot) (m : Message) (w : List Char) (b' : Bot),
      m.content = "!echo \"Bearer abcdefghij0123456789\"" ∧ w = "abcdefghij0123456789".toList ∧
      b.Reached ∧ SecretKey w ∧ m.Hides w ∧ ReflTransGen Bot.Step (b.receive m).1 b' ∧
      .logged (.commandExecuting "echo" ["Bearer abcdefghij0123456789"]) ∈
        b'.core.told (some 0) ∧
      ∀ l, .logged l ∈ b'.core.told (some 0) → ¬l.Betrays w := by
  let w : List Char := "abcdefghij0123456789".toList
  let b₀ : Bot :=
    { trigger := .literal "!",
      core := { attributes := { advanced := true }, transport := .fixed .null [] [] [] } }
  let b := (b₀.register "echo" [] .inline fun _ as => pure (.plain (as.headD .null))).1
  let m : Message :=
    ⟨"!echo \"Bearer abcdefghij0123456789\"", some ⟨"u", "", []⟩, "c", none, .null⟩
  have hb : b.Reached := ⟨b₀, ⟨rfl, rfl, rfl, fun x hx => nomatch hx⟩,
    .single (.manage (.register "echo" [] .inline _))⟩
  have hw : SecretKey w := ⟨by decide, List.all_eq_true.mp (by decide)⟩
  have hm : m.Hides w := by
    refine ⟨?_, ?_, Setting.not_shows_null⟩
    · rintro _ ⟨⟩
      exact mt Setting.shows_text.mp (by decide)
    · exact mt Setting.shows_text.mp (by decide)
  have htext : Shielded w "echo \"Bearer abcdefghij0123456789\"".toList :=
    shielded_of_once "echo \"".toList "Bearer".toList " ".toList ['"'] (by decide +kernel)
  have hargument : Shielded w "Bearer abcdefghij0123456789".toList :=
    shielded_of_once [] "Bearer".toList " ".toList [] (by decide +kernel)
  have hturn : ReflTransGen Bot.Step (b.receive m).1 ((b.receive m).1.turn 0) :=
    Bot.acts_steps (.does (.goes (.turn 0)))
  have htold : ((b.receive m).1.turn 0).core.told (some 0) =
      [.logged (.unitSpawned "ct-1" 1),
        .logged (.chainParsing "echo \"Bearer abcdefghij0123456789\""), .logged (.chainParsed 1),
        .logged (.commandExecuting "echo" ["Bearer abcdefghij0123456789"]),
        .began "echo" 0 ["Bearer abcdefghij0123456789"], .merged [], .merged [],
        .sent (.reply "c" "Bearer abcdefghij0123456789"),
        .logged (.responseDelivered "c" 27)] := by decide +kernel
  refine ⟨b, m, w, (b.receive m).1.turn 0, rfl, rfl, hb, hw, hm, hturn, ?_, ?_⟩
  · rw [htold]
    simp
  · refine (secret_redacted hb hw hm).2 rfl rfl htext (by decide +kernel) _ hturn ?_
    intro l hl hs
    -- The only report that commands decide about is that of the call.
    have hcall : l = .commandExecuting "echo" ["Bearer abcdefghij0123456789"] := by
      rw [show b.units.units.length = 0 from rfl, htold] at hl
      simp only [List.mem_cons, Happening.logged.injEq, reduceCtorEq, List.not_mem_nil, or_false,
        false_or] at hl
      rcases hl with rfl | rfl | rfl | rfl | rfl
      case inr.inr.inr.inl => rfl
      all_goals cases hs
    subst hcall
    simp only [LogEvent.Keeps, LogEvent.entry, List.forall_mem_cons]
    refine ⟨Setting.fieldKeeps_of_not_shows (mt Setting.shows_text.mp (by decide)), ?_, nofun⟩
    intro v hv
    obtain rfl := List.mem_singleton.mp hv
    exact hargument

/-- In simple mode the words of a text are reported one by one, so that the key stands alone. -/
theorem secret_split :
    ∃ (b : Bot) (m : Message) (w : List Char) (b' : Bot) (l : LogEvent),
      m.content = "!echo Bearer abcdefghij0123456789" ∧ w = "abcdefghij0123456789".toList ∧
      b.Reached ∧ SecretKey w ∧ m.Hides w ∧
      Shielded w "!echo Bearer abcdefghij0123456789".toList ∧
      Shielded w "echo Bearer abcdefghij0123456789".toList ∧
      (b.chainText m.content).2 = .ok (some "echo Bearer abcdefghij0123456789") ∧
      ReflTransGen Bot.Step (b.receive m).1 b' ∧ .logged l ∈ b'.core.told (some 0) ∧
      l = .commandExecuting "echo" ["Bearer", "abcdefghij0123456789"] ∧ l.Betrays w := by
  let w : List Char := "abcdefghij0123456789".toList
  let b₀ : Bot :=
    { trigger := .literal "!",
      core := { attributes := { advanced := false }, transport := .fixed .null [] [] [] } }
  let b := (b₀.register "echo" [] .inline fun _ as => pure (.plain (as.headD .null))).1
  let m : Message := ⟨"!echo Bearer abcdefghij0123456789", some ⟨"u", "", []⟩, "c", none, .null⟩
  have hb : b.Reached := ⟨b₀, ⟨rfl, rfl, rfl, fun x hx => nomatch hx⟩,
    .single (.manage (.register "echo" [] .inline _))⟩
  have hw : SecretKey w := ⟨by decide, List.all_eq_true.mp (by decide)⟩
  have hm : m.Hides w := by
    refine ⟨?_, ?_, Setting.not_shows_null⟩
    · rintro _ ⟨⟩
      exact mt Setting.shows_text.mp (by decide)
    · exact mt Setting.shows_text.mp (by decide)
  have hturn : ReflTransGen Bot.Step (b.receive m).1 ((b.receive m).1.turn 0) :=
    Bot.acts_steps (.does (.goes (.turn 0)))
  refine ⟨b, m, w, (b.receive m).1.turn 0,
    .commandExecuting "echo" ["Bearer", "abcdefghij0123456789"], rfl, rfl, hb, hw, hm, ?_, ?_, rfl,
    hturn, ?_, rfl, ?_⟩
  · exact shielded_of_once "!echo ".toList "Bearer".toList " ".toList [] (by decide +kernel)
  · exact shielded_of_once "echo ".toList "Bearer".toList " ".toList [] (by decide +kernel)
  · decide +kernel
  · refine ⟨("arguments", .list ["Bearer", "abcdefghij0123456789"]), ?_, ?_⟩
    · exact .tail _ (.head _)
    · refine Setting.shows_list.mpr ⟨_, .tail _ (.head _), ?_⟩
      exact Setting.shows_text.mpr (List.infix_refl _)

end ChatCommands
