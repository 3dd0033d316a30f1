import ChatCommands.Proofs.Bot.Scene
import ChatCommands.Proofs.Dispatch.Guise

/-!
# Units do not disturb each other

What a unit asks of the network depends on its message and on what the units share, but not on
what else goes on. The calls of a unit that is let run to its end are those that its job makes all
alone, and a job alone goes on in one way only.

## Main definitions

* `Core.calls`: what the network was asked to do for a unit
* `solo`: a job alone
* `Scene.Session`: scenes of a bot whose tables nobody changes

## Main results

* `Scene.Session.inv`: in every session a unit does what its job does alone
* `Scene.Session.calls_eq`: units of the same message make the same calls
-/

namespace ChatCommands

/-- Whether the network was asked to do something: to send, whether or not it did, or to tell what
an author may do. -/
def Happening.isCall : Happening → Bool
  | sent _ => true
  | unsent _ => true
  | asked _ _ => true
  | _ => false

/-- The calls of the network that a journal tells, in order. -/
def callsIn (l : List Entry) : List Happening := (l.map (·.what)).filter Happening.isCall

/-- The calls of the network for a unit, or for events made by hand. -/
def Core.calls (s : Core) (u : Option Nat) : List Happening :=
  callsIn (s.journal.filter fun x => x.unit = u)

/-! ## Jobs elsewhere -/

namespace Guise

variable (g : Guise) (s : Core)

/-- The job for the other event. -/
def job : Job → Job
  | .chain text e => .chain text (g.event e)
  | .run r => .run (g.run r)
  | .stray r => .stray (g.run r)

@[simp] theorem job_event (j : Job) : (g.job j).event = g.event j.event := by
  cases j <;> rfl

@[simp] theorem conclude (e : Event) (v : Except Fault Value) :
    (g.core s).conclude (g.event e) v = (g.core (s.conclude e v).1, (s.conclude e v).2) := by
  rcases v with f | v
  · simp only [Core.conclude, Core.concludeFault, event_unit, event_authorId, log]
    split <;> rfl
  · simp only [Core.conclude, deliver]
    rcases s.deliver e v with ⟨s', e', f | _⟩ <;> rfl

theorem close (q : Core × Progress) :
    Core.close (g.core q.1, g.progress q.2) =
      (g.core (Core.close q).1, (Core.close q).2.map g.job) := by
  obtain ⟨s, r | ⟨gate, r⟩ | r | ⟨e, v⟩⟩ := q
  case ended => simp [Core.close, progress]
  all_goals rfl

theorem closeStray (q : Core × Progress) :
    Core.closeStray (g.core q.1, g.progress q.2) =
      (g.core (Core.closeStray q).1, (Core.closeStray q).2.map g.job) := by
  obtain ⟨s, r | ⟨gate, r⟩ | r | ⟨e, v⟩⟩ := q <;> rfl

/-- **A request of a job** is served alike in the same mode, unless a program looks at the
identifier. -/
theorem work (opened : Setting → Bool) (j : Job)
    (h : ∀ b ∈ s.registry.bindings,
      b.command.handler (g.message j.event.message) = b.command.handler j.event.message)
    (hm : ∀ a, g.advanced a = a) :
    (g.core s).work opened (g.job j) =
      (g.core (s.work opened j).1, (s.work opened j).2.map g.job) := by
  cases j with
  | chain text e =>
    simp only [Core.work, job, event_unit, log, programOf _ _ _ _ (hm _)]
    rfl
  | run r =>
    have hs := g.step s opened r h
    simp only [Core.work, job, hs]
    exact g.close (r.step opened s)
  | stray r =>
    have hs := g.step s opened r h
    simp only [Core.work, job, hs]
    exact g.closeStray (r.step opened s)

end Guise

/-- A job goes on alike whether it waits at a gate or finds it open. -/
theorem Core.work_opened (opened opened' : Setting → Bool) (s : Core) (j : Job) :
    s.work opened j = s.work opened' j := by
  cases j with
  | chain text e => rfl
  | run r | stray r =>
    obtain ⟨e, p, m, fs⟩ := r
    -- Only a program that waits looks at the gates, and what is left of it is the same.
    cases p with
    | wait gate next =>
      simp only [work, Run.step]
      split <;> split <;> rfl
    | _ => rfl

/-- What is left of a job answers the same message. -/
theorem Core.work_message {opened : Setting → Bool} {s : Core} {j j' : Job}
    (h : (s.work opened j).2 = some j') : j'.event.message = j.event.message := by
  cases j with
  | chain text e =>
    obtain rfl := Option.some.inj h
    rfl
  | run r =>
    have hs := @Run.step_message opened s r
    simp only [work] at h
    generalize r.step opened s = q at h hs
    obtain ⟨s', g⟩ := q
    cases g with
    | ended e v => cases h
    | _ =>
      obtain rfl := Option.some.inj h
      exact hs rfl
  | stray r =>
    obtain ⟨r', hr, rfl⟩ := Option.map_eq_some_iff.mp h
    exact Run.step_message hr

/-! ## A job alone -/

namespace Guise

/-- Behind a journal and for a unit. -/
def forUnit (l : List Entry) (u : Option Nat) : Guise := { before := l, unit := fun _ => u }

theorem job_forUnit (l : List Entry) (u : Option Nat) (j : Job) :
    (forUnit l u).job j = (forUnit [] u).job j := by
  cases j <;> rfl

theorem job_forUnit_self {u : Option Nat} {j : Job} (h : j.event.unit = u) :
    (forUnit [] u).job j = j := by
  subst h
  cases j <;> rfl

theorem core_forUnit_tables (s : Core) (u : Option Nat) :
    (forUnit s.journal u).core s.tables = s := by
  simp [core, forUnit, Core.tables]

theorem calls_forUnit (s t : Core) (u v : Option Nat) :
    ((forUnit s.journal u).core t).calls v =
      s.calls v ++ if u = v then callsIn t.journal else [] := by
  have he (l : List Entry) : (l.map (forUnit s.journal u).entry).map (·.what) = l.map (·.what) := by
    simp [entry]
  have hf (l : List Entry) : (l.map (forUnit s.journal u).entry).filter (fun x => x.unit = v) =
      if u = v then l.map (forUnit s.journal u).entry else [] := by
    split <;> simp [entry, forUnit, *]
  simp only [Core.calls, core, List.filter_append, hf, callsIn, List.map_append]
  split
  · rw [he]
    rfl
  · rfl

end Guise

/-- What a job does, and what is left of it, all alone: its requests one after another, served with
tables that nobody changes. -/
def solo (T : Core) (j : Job) : Nat → List Happening × Option Job
  | 0 => ([], some j)
  | n + 1 =>
    match solo T j n with
    | (l, some j') =>
      let p := T.tables.work (fun _ => true) j'
      (l ++ callsIn p.1.journal, p.2)
    | p => p

/-- A job that has ended does nothing more. -/
theorem solo_ended {T : Core} {j : Job} {n k : Nat} (h : (solo T j n).2 = none) :
    solo T j (n + k) = solo T j n := by
  induction k with
  | zero => rfl
  | succ k ih =>
    rw [← Nat.add_assoc, solo, ih]
    rcases hp : solo T j n with ⟨l, j'⟩
    rw [hp] at h
    subst h
    rfl

/-- A job alone ends in one way only. -/
theorem solo_calls_eq {T : Core} {j : Job} {n k : Nat} (hn : (solo T j n).2 = none)
    (hk : (solo T j k).2 = none) : (solo T j n).1 = (solo T j k).1 := by
  rw [← solo_ended (k := k) hn, Nat.add_comm, solo_ended hk]

/-- Messages that differ in nothing but their identifiers. -/
def Message.Alike (m m' : Message) : Prop := m' = { m with id := m'.id }

/-- What is left of a job alone answers the same message. -/
theorem solo_message {T : Core} {j : Job} (n : Nat) {j' : Job} (h : (solo T j n).2 = some j') :
    j'.event.message = j.event.message := by
  induction n generalizing j' with
  | zero =>
    obtain rfl := Option.some.inj h
    rfl
  | succ n ih =>
    rw [solo] at h
    rcases hp : solo T j n with ⟨l, - | j''⟩
    · rw [hp] at h
      cases h
    · rw [hp] at h
      exact (Core.work_message h).trans (ih (by rw [hp]))

/-- A job whose message has another identifier does the same, if no program tells the messages
apart. -/
theorem solo_renamed {T : Core} {j : Job} (x : Id)
    (h : ∀ b ∈ T.registry.bindings,
      b.command.handler { j.event.message with id := x } =
        b.command.handler j.event.message) (n : Nat) :
    solo T (Guise.job { id := fun _ => x } j) n =
      ((solo T j n).1, (solo T j n).2.map (Guise.job { id := fun _ => x })) := by
  let g : Guise := { id := fun _ => x }
  -- With nothing before its journal and no other units the core is the same.
  have hc (s : Core) : g.core s = s := by
    have he : s.journal.map g.entry = s.journal := List.map_id' _
    simp only [Guise.core, he]
    rfl
  induction n with
  | zero => rfl
  | succ n ih =>
    rw [solo, solo, ih]
    rcases hp : solo T j n with ⟨l, - | j'⟩
    · rfl
    · have hm : j'.event.message = j.event.message := solo_message n (by rw [hp])
      have hw := g.work T.tables (fun _ => true) j' (by rw [hm]; exact h) fun _ => rfl
      rw [hc, hc] at hw
      simp only [Option.map_some]
      rw [show T.tables.work (fun _ => true) (g.job j') = _ from hw]

/-- A request of a job is told of its own unit, behind what was told before. -/
theorem Core.work_journal_eq (opened : Setting → Bool) (s : Core) (j : Job) :
    ∃ l : List Happening,
      (s.work opened j).1.journal = s.journal ++ l.map (Entry.mk j.event.unit) := by
  have hw := (Guise.forUnit s.journal j.event.unit).work s.tables opened j (fun _ _ => rfl)
    fun _ => rfl
  rw [Guise.core_forUnit_tables, Guise.job_forUnit, Guise.job_forUnit_self rfl] at hw
  refine ⟨(s.tables.work opened j).1.journal.map (·.what), ?_⟩
  rw [hw, List.map_map]
  rfl

/-! ## Units among others -/

namespace Scene

/-- The unit of the jobs at a place. -/
def Place.label : Place → Option Nat
  | unit i => some i
  | hand _ => none

theorem label_eq {q : Place} {i : Nat} (h : some i = q.label) : q = .unit i := by
  cases q with
  | unit k => exact congrArg Place.unit (Option.some.inj h).symm
  | hand k => cases h

/-- Scenes of a bot of this prefix, from before its first unit on, in which these tables stay as
they are. -/
inductive Session (p : Prefix) (T : Core) : Scene → Prop where
  | start {s : Core} (hs : s.tables = T) (hc : ∀ i, s.calls (some i) = []) :
    Session p T { core := s }
  | move {w w' : Scene} (hw : Session p T w) (h : Move p w w') (hs : w'.core.tables = T) :
    Session p T w'

/-- A unit has come as far as its job alone after some requests. -/
def Follows (p : Prefix) (T : Core) (w : Scene) (i : Nat) (u : Member) : Prop :=
  ∃ text n, (∃ t, trigger p T.attributes u.message.content = .ok t ∧ t.chain = some text) ∧
    w.core.calls (some i) = (solo T (.chain text { message := u.message }) n).1 ∧
    u.job = (solo T (.chain text { message := u.message }) n).2.map
      (Guise.forUnit [] (some i)).job

/-- What holds in every session: jobs belong to their units, a unit that was not cancelled follows
its job alone, and there is nothing yet of units to come. -/
structure Session.Inv (p : Prefix) (T : Core) (w : Scene) : Prop where
  tables : w.core.tables = T
  owned : ∀ q j, w.job q = some j → j.event.unit = q.label
  follows : ∀ i u, w.units[i]? = some u → u.cancelled = false → Follows p T w i u
  fresh : ∀ i, w.units.length ≤ i → w.core.calls (some i) = []

/-- The request of a job for a unit, among whatever else goes on: what the job does alone, told for
the unit. -/
theorem work_forUnit (opened : Setting → Bool) (s : Core) (u : Option Nat) (j : Job) :
    (∀ v, (s.work opened ((Guise.forUnit [] u).job j)).1.calls v = s.calls v ++
        if u = v then callsIn (s.tables.work (fun _ => true) j).1.journal else []) ∧
      (s.work opened ((Guise.forUnit [] u).job j)).2 =
        (s.tables.work (fun _ => true) j).2.map (Guise.forUnit [] u).job := by
  -- The job alone, told behind the journal and for the unit, is the job among the others.
  have hw := (Guise.forUnit s.journal u).work s.tables opened j (fun _ _ => rfl) fun _ => rfl
  rw [Guise.core_forUnit_tables, Guise.job_forUnit,
    Core.work_opened opened (fun _ => true) s.tables] at hw
  rw [hw]
  refine ⟨fun v => Guise.calls_forUnit _ _ _ _, ?_⟩
  exact congrArg (Option.map · _) (funext fun j' => Guise.job_forUnit _ u j')

/-- The request of a job tells of nothing but for its own unit, and what is left of it is for this
unit. -/
theorem work_owned (opened : Setting → Bool) (s : Core) {j : Job} {u : Option Nat}
    (h : j.event.unit = u) :
    (∀ v ≠ u, (s.work opened j).1.calls v = s.calls v) ∧
      ∀ j', (s.work opened j).2 = some j' → j'.event.unit = u := by
  obtain ⟨hc, hj⟩ := work_forUnit opened s u j
  rw [Guise.job_forUnit_self h] at hc hj
  refine ⟨fun v hv => ?_, fun j' hj' => ?_⟩
  · rw [hc, if_neg (Ne.symm hv), List.append_nil]
  · obtain ⟨j'', -, rfl⟩ := Option.map_eq_some_iff.mp (hj.symm.trans hj')
    rw [Guise.job_event]
    rfl

theorem calls_of_reports {s s' : Core} (h : Reports s s') (v : Option Nat) :
    s'.calls v = s.calls v := by
  have hcalls (s : Core) : s.calls v = (s.journal.filter fun x =>
      x.what.isCall && decide (x.unit = v)).map (·.what) := by
    rw [Core.calls, callsIn, List.filter_map, List.filter_filter]
    rfl
  rw [hcalls, hcalls, h.filter_journal fun _ _ => rfl]

theorem Follows.of_calls {p : Prefix} {T : Core} {w w' : Scene} {i : Nat} {u : Member}
    (h : Follows p T w i u) (hc : w'.core.calls (some i) = w.core.calls (some i)) :
    Follows p T w' i u := by
  obtain ⟨text, n, ht, hcalls, hj⟩ := h
  exact ⟨text, n, ht, hc.trans hcalls, hj⟩

/-- A request of its own brings a unit one request further. -/
theorem Follows.work {p : Prefix} {T : Core} {w : Scene} {i : Nat} {u : Member} {j : Job}
    (h : Follows p T w i u) (hT : w.core.tables = T) (hu : u.job = some j)
    (opened : Setting → Bool) :
    Follows p T (w.put (.unit i) (w.core.work opened j)) i
      { u with job := (w.core.work opened j).2 } := by
  obtain ⟨text, n, ht, hc, hj⟩ := h
  rw [hu] at hj
  obtain ⟨j₀, hj₀, rfl⟩ := Option.map_eq_some_iff.mp hj.symm
  obtain ⟨hw, hr⟩ := work_forUnit opened w.core (some i) j₀
  refine ⟨text, n + 1, ht, ?_, ?_⟩
  all_goals
    rw [solo]
    rcases hp : solo T (.chain text { message := u.message }) n with ⟨l, j'⟩
    rw [hp] at hj₀ hc
    subst hj₀
    rw [← hT]
  · rw [put_core, hw, hc, if_pos rfl]
    rfl
  · exact hr

namespace Session.Inv

variable {p : Prefix} {T : Core} {w w' : Scene}

theorem start {s : Core} (hs : s.tables = T) (hc : ∀ i, s.calls (some i) = []) :
    Inv p T { core := s } where
  tables := hs
  owned q j h := by
    cases q <;> cases h
  follows i u h := by cases h
  fresh i _ := hc i

/-- A request of a job. The unit that the job belongs to comes one request further; for all others
the journal tells nothing new. -/
theorem work (h : Inv p T w) {q : Place} {j : Job} (hj : w.job q = some j)
    (opened : Setting → Bool) (ht : (w.core.work opened j).1.tables = T) :
    Inv p T (w.put q (w.core.work opened j)) := by
  obtain ⟨hc, hu⟩ := work_owned opened w.core (h.owned q j hj)
  constructor
  case tables =>
    rw [put_core]
    exact ht
  case owned =>
    intro q' j' hq
    by_cases hqq : q' = q
    · subst hqq
      rw [job_put_self hj] at hq
      exact hu j' hq
    · rw [job_put_of_ne hqq] at hq
      exact h.owned q' j' hq
  case follows =>
    intro i u hi hn
    by_cases hq : q = .unit i
    · subst hq
      obtain ⟨u₀, hu₀, hj₀⟩ := Option.bind_eq_some_iff.mp hj
      obtain rfl : { u₀ with job := (w.core.work opened j).2 } = u := by
        simpa [put, hu₀] using hi
      exact (h.follows i u₀ hu₀ hn).work h.tables hj₀ opened
    · have hi' : w.units[i]? = some u := by
        rcases q with k | k
        · have hk : k ≠ i := fun hk => hq (hk ▸ rfl)
          simpa [put, List.getElem?_modify_ne _ _ hk] using hi
        · exact hi
      refine (h.follows i u hi' hn).of_calls ?_
      rw [put_core]
      exact hc _ fun hl => hq (label_eq hl)
  case fresh =>
    intro i hi
    have hlen : w.units.length ≤ i := by
      cases q <;> simpa [put] using hi
    have hne : some i ≠ q.label := by
      intro hl
      rw [label_eq hl, job, List.getElem?_eq_none hlen] at hj
      cases hj
    rw [put_core, hc _ hne, h.fresh i hlen]

/-- A new unit has done nothing yet, and neither has its job alone. -/
theorem arrive (h : Inv p T w) {m : Message} {text : String} (ht : Triggers p w.core m text) :
    Inv p T (w.arrive m text) := by
  constructor
  case tables => exact h.tables
  case owned =>
    intro q j hj
    rcases job_arrive hj with ⟨rfl, rfl⟩ | hj
    · rfl
    · exact h.owned q j hj
  case follows =>
    intro i u hi hn
    rcases Nat.lt_trichotomy i w.units.length with hl | rfl | hl
    · have hi' : w.units[i]? = some u := by
        simpa [Scene.arrive, List.getElem?_append_left hl] using hi
      exact (h.follows i u hi' hn).of_calls rfl
    · obtain rfl : _ = u := by simpa [Scene.arrive] using hi
      have ha : w.core.attributes = T.attributes := congrArg (·.attributes) h.tables
      exact ⟨text, 0, ha ▸ ht.chain, h.fresh _ (Nat.le_refl _), rfl⟩
    · rw [Scene.arrive, List.getElem?_eq_none (by simp; omega)] at hi
      cases hi
  case fresh =>
    intro i hi
    rw [Scene.arrive, List.length_append] at hi
    exact h.fresh i (by omega)

/-- A cancelled unit need not follow its job, but what runs on of it is still its own. -/
theorem cancel (h : Inv p T w) {i : Nat} {j : Job} {behind : Option Job}
    (hj : w.job (.unit i) = some j) (hb : behind = none ∨ behind = botHost.behind j) :
    Inv p T (w.cancel i behind) := by
  constructor
  case tables => exact h.tables
  case owned =>
    intro q j' hq
    rcases job_cancel hq with ⟨rfl, rfl⟩ | hq
    · rcases hb with hb | hb
      · cases hb
      · obtain ⟨r, rfl, rfl⟩ := Job.behind_eq hb.symm
        exact h.owned _ (.run r) hj
    · exact h.owned q j' hq
  case follows =>
    intro k u hk hn
    by_cases hi : i = k
    · subst hi
      obtain ⟨u₀, -, rfl⟩ := Option.map_eq_some_iff.mp
        ((List.getElem?_modify_eq _ i w.units).symm.trans hk)
      cases hn
    · have hk' : w.units[k]? = some u := by
        simpa [Scene.cancel, List.getElem?_modify_ne _ _ hi] using hk
      exact (h.follows k u hk' hn).of_calls rfl
  case fresh =>
    intro k hk
    rw [Scene.cancel, List.length_modify] at hk
    exact h.fresh k hk

theorem begin (h : Inv p T w) {r : Run} (hr : r.event.unit = none) : Inv p T (w.begin r) := by
  constructor
  case tables => exact h.tables
  case owned =>
    intro q j hj
    rcases job_begin hj with ⟨rfl, rfl⟩ | hj
    · exact hr
    · exact h.owned q j hj
  case follows =>
    intro i u hi hn
    exact (h.follows i u hi hn).of_calls rfl
  case fresh => exact h.fresh

/-- Reports are no calls of the network. -/
theorem report (h : Inv p T w) {s : Core} (hr : Reports w.core s) (hs : s.tables = T) :
    Inv p T { w with core := s } := by
  constructor
  case tables => exact hs
  case owned => exact h.owned
  case follows =>
    intro i u hi hn
    exact (h.follows i u hi hn).of_calls (calls_of_reports hr _)
  case fresh =>
    intro i hi
    rw [calls_of_reports hr]
    exact h.fresh i hi

end Session.Inv

/-- **In every session** a unit does what its job does alone, and goes as far. -/
theorem Session.inv {p : Prefix} {T : Core} {w : Scene} (h : Session p T w) :
    Session.Inv p T w := by
  induction h with
  | start hs hc => exact .start hs hc
  | @move w w' _ hmove hs ih =>
    cases hmove with
    | work q j opened hj =>
      rw [put_core] at hs
      exact ih.work hj opened hs
    | arrive m text ht => exact ih.arrive ht
    | cancel i j behind hj hb => exact ih.cancel hj hb
    | begin e program he => exact ih.begin he
    | report s hr => exact ih.report hr hs

/-- Units that were let run to their ends for messages that no program tells apart have made the
same calls of the network. -/
theorem Session.calls_eq {p : Prefix} {T : Core} {w v : Scene} {i k : Nat} {m m' : Message}
    (hw : Session p T w) (hv : Session p T v) (hi : w.units[i]? = some ⟨m, none, false⟩)
    (hk : v.units[k]? = some ⟨m', none, false⟩) (hm : m.Alike m')
    (hh : ∀ b ∈ T.registry.bindings, b.command.handler m' = b.command.handler m) :
    w.core.calls (some i) = v.core.calls (some k) := by
  obtain ⟨text, n, ⟨t, ht, htext⟩, hc, hj⟩ := hw.inv.follows i _ hi rfl
  obtain ⟨text', n', ⟨t', ht', htext'⟩, hc', hj'⟩ := hv.inv.follows k _ hk rfl
  -- Equal contents have the same chain text, so that both jobs are one but for the identifier.
  have hcontent : m'.content = m.content := congrArg (·.content) hm
  simp only [hcontent] at ht'
  obtain rfl := Except.ok.inj (ht.symm.trans ht')
  obtain rfl := Option.some.inj (htext.symm.trans htext')
  have hjob : Job.chain text { message := m' } =
      Guise.job { id := fun _ => m'.id } (.chain text { message := m }) :=
    congrArg (fun m => Job.chain text { message := m }) hm
  have hs := solo_renamed (T := T) (j := .chain text { message := m }) m'.id
    (fun b hb => (congrArg b.command.handler hm.symm).trans (hh b hb)) n'
  simp only [hjob, hs] at hc' hj'
  rw [hc, hc']
  exact solo_calls_eq (Option.map_eq_none_iff.mp hj.symm) (by simpa using hj'.symm)

end Scene

end ChatCommands
