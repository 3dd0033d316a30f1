import ChatCommands.Dispatch.Gate

/-!
# What the gate lets through

A call of a name either enters the command or it does not. It enters only if every condition of
the command holds in the core that serves the call, and then the journal tells nothing between the
call and the beginning of the program but the questions about required actions. A call that does
not enter begins no program; if only its reply can be sent, it is answered with nothing.

## Main definitions

* `Core.tables`, `Core.beginnings`: what operations of the gate leave alone
* `Cleared`: every condition of a command holds
* `Bypassed`: a call that does not reach its command

## Main results

* `dispatch_enter`, `dispatch_keeps`: calls that enter a command, and those that do not
* `dispatch_bypassed`: a call that does not reach its command is answered with nothing
-/

namespace ChatCommands

/-- Whether the program of a command began. -/
def Happening.isBeginning : Happening → Bool
  | began _ _ _ => true
  | _ => false

namespace Core

/-- What the units share, apart from what happened. -/
def tables (s : Core) : Core := { s with journal := [] }

/-- The beginnings of programs. -/
def beginnings (s : Core) : List Entry := s.journal.filter (·.what.isBeginning)

/-- Nothing changes but the journal, and no program begins. -/
structure Keeps (s s' : Core) : Prop where
  tables : s'.tables = s.tables
  beginnings : s'.beginnings = s.beginnings

namespace Keeps

variable {s s₁ s₂ : Core}

theorem refl (s : Core) : s.Keeps s := ⟨rfl, rfl⟩

theorem trans (h : s.Keeps s₁) (h' : s₁.Keeps s₂) : s.Keeps s₂ :=
  ⟨h'.tables.trans h.tables, h'.beginnings.trans h.beginnings⟩

end Keeps

/-! ## Operations that begin no program -/

section Keeps

variable (s : Core) (e : Event) (u : Option Nat)

theorem record_keeps {h : Happening} (hh : h.isBeginning = false) : s.Keeps (s.record u h) :=
  ⟨rfl, by simp [beginnings, record, hh]⟩

theorem log_keeps (l : LogEvent) : s.Keeps (s.log u l) := s.record_keeps u rfl

theorem logAll_keeps (ls : List LogEvent) : s.Keeps (s.logAll u ls) := by
  induction ls generalizing s with
  | nil => exact .refl s
  | cons l ls ih => exact (s.log_keeps u l).trans (ih _)

theorem send_keeps (o : Outgoing) : s.Keeps (s.send e o).1 := by
  unfold send
  split <;> exact s.record_keeps _ rfl

theorem replyAll_keeps (ts : List String) : s.Keeps (s.replyAll e ts).1 := by
  induction ts generalizing s with
  | nil => exact .refl s
  | cons t ts ih =>
    have hs := s.send_keeps e (.reply e.channel t)
    rw [replyAll]
    generalize s.send e (.reply e.channel t) = p at hs ⊢
    rcases p with ⟨s', f | m⟩
    · exact hs
    · exact hs.trans (ih s')

theorem drainInto_keeps (v : Value) : s.Keeps (s.drainInto e v).1 := by
  unfold drainInto
  split
  · exact .refl s
  · exact s.record_keeps _ rfl

/-- The core after questions about actions. -/
def askAll (s : Core) (e : Event) (asked : List Setting) : Core :=
  asked.foldl (fun s a => s.record e.unit (.asked e.authorId a)) s

theorem askAll_keeps (asked : List Setting) : s.Keeps (s.askAll e asked) := by
  induction asked generalizing s with
  | nil => exact .refl s
  | cons a asked ih => exact (s.record_keeps e.unit rfl).trans (ih _)

theorem authorise_keeps (c : CommandInfo) : s.Keeps (s.authorise e c).1 := by
  unfold authorise
  split
  · exact .refl s
  · exact .refl s
  · exact s.askAll_keeps e _

theorem turnAway_keeps (r : Except Fault (List String)) : s.Keeps (s.turnAway e r).1 := by
  cases r with
  | error f => exact .refl s
  | ok ts =>
    have hs := s.replyAll_keeps e ts
    simp only [turnAway]
    generalize s.replyAll e ts = p at hs ⊢
    rcases p with ⟨s', f | _⟩ <;> exact hs

theorem notice_keeps (name : Setting) (f : Fault) : s.Keeps (s.notice e name f).1 := by
  unfold notice
  split
  · have hl := s.log_keeps e.unit (.noPermissionRaised name e.authorId)
    dsimp only
    split
    next => exact hl
    next m _ =>
      have hs := hl.trans (replyAll_keeps _ e [m])
      generalize (s.log e.unit (.noPermissionRaised name e.authorId)).replyAll e [m] = p at hs ⊢
      rcases p with ⟨s', g | _⟩ <;> exact hs
  · exact .refl s

end Keeps

end Core

/-! ## Calls that enter -/

/-- In this core every condition holds under which a call may enter a command: the name stands for
it, the author reaches its level, may perform its actions and holds its roles, and the call has as
many arguments as it takes and is not part of a chain if it does not run there. -/
structure Cleared (s : Core) (e : Event) (name : Setting) (c : Command) (arguments : List Setting)
    (chained : Bool) : Prop where
  bound : s.registry.get name = .ok (some c)
  level : ∃ n, s.levels.effective e.message.author e.message.server = .ok n ∧
    n.compare .atLeast c.permissionLevel = .ok true
  actions : ∀ a ∈ c.requiredPermissions,
    ∃ u, e.message.author = some u ∧ s.transport.mayPerform u a e.channel = .ok true
  roles : ∀ r ∈ c.requiredRoles, ∃ u, e.message.author = some u ∧ u.holds r
  /-- There are not fewer arguments than the least number. -/
  enough : Setting.compare .less (.int arguments.length) c.minArgs = .ok false
  /-- There are not more arguments than the greatest number, if it is not negative. -/
  fitting : ∃ b, Setting.compare .atMost (.int 0) c.maxArgs = .ok b ∧
    (b = true → c.maxArgs.compare .less (.int arguments.length) = .ok false)
  usable : chained = true → c.chainUsable.counts = true

/-- All required actions were asked about if the answer to all questions was yes. -/
theorem checkActions_true {t : Transport} {u : Option User} {ch : Id} {as : List Setting}
    (h : (checkActions t u ch as).outcome = .ok true) :
    (checkActions t u ch as).asked = as ∧
      ∀ a ∈ as, ∃ v, u = some v ∧ t.mayPerform v a ch = .ok true := by
  induction as with
  | nil => simp [checkActions]
  | cons a as ih =>
    rcases u with - | v
    · cases h
    · rw [checkActions] at h ⊢
      split at h
      next hm =>
        obtain ⟨ha, hp⟩ := ih h
        constructor
        · exact congrArg (a :: ·) ha
        · intro b hb
          rcases List.mem_cons.mp hb with rfl | hb
          · exact ⟨v, rfl, hm⟩
          · exact hp b hb
      -- A question that is answered otherwise ends the check.
      · cases h
      · cases h

theorem holdsRoles_true {u : Option User} {roles : List Id} (h : holdsRoles u roles = .ok true) :
    ∀ r ∈ roles, ∃ v, u = some v ∧ v.holds r := by
  intro r hr
  rcases u with - | v
  · rcases roles with - | ⟨q, roles⟩
    · cases hr
    · cases h
  · refine ⟨v, rfl, ?_⟩
    rcases roles with - | ⟨q, roles⟩
    · cases hr
    · exact List.all_eq_true.mp (Except.ok.inj h) r hr

/-- What peels off a check that comes before others. -/
theorem except_bind_eq_ok {ε α β : Type} {x : Except ε α} {f : α → Except ε β} {b : β}
    (h : x >>= f = .ok b) : ∃ a, x = .ok a ∧ f a = .ok b := by
  cases x with
  | error f => cases h
  | ok a => exact ⟨a, rfl, h⟩

theorem refusal?_none {c : CommandInfo} {n : Nat} {chained : Bool}
    (h : c.refusal? n chained = .ok none) :
    Setting.compare .less (.int n) c.minArgs = .ok false ∧
      (∃ b, Setting.compare .atMost (.int 0) c.maxArgs = .ok b ∧
        (b = true → c.maxArgs.compare .less (.int n) = .ok false)) ∧
      (chained = true → c.chainUsable.counts = true) := by
  -- The checks come one after another, and each of them ends with a refusal if it fails.
  obtain ⟨few, hfew, h⟩ := except_bind_eq_ok h
  cases few
  · obtain ⟨many, hmany, h⟩ := except_bind_eq_ok h
    cases many
    · obtain ⟨b, hb, hm⟩ := except_bind_eq_ok hmany
      refine ⟨hfew, ⟨b, hb, ?_⟩, ?_⟩
      · rintro rfl
        exact hm
      · rintro rfl
        cases hc : c.chainUsable.counts
        · rw [hc] at h
          cases h
        · rfl
    · cases h
  · cases h

namespace Core

variable {s : Core} {e : Event} {name : Setting} {c : Command} {arguments : List Setting}
  {chained : Bool}

/-- The core after a call has entered a command. -/
def entered (s : Core) (e : Event) (name : Setting) (c : Command) (arguments : List Setting) :
    Core :=
  ((s.log e.unit (.commandExecuting name arguments)).askAll e c.requiredPermissions).record e.unit
    (.began name c.registration arguments)

theorem askAll_journal (s : Core) (e : Event) (asked : List Setting) :
    (s.askAll e asked).journal =
      s.journal ++ asked.map fun a => ⟨e.unit, .asked e.authorId a⟩ := by
  induction asked generalizing s with
  | nil => simp [askAll]
  | cons a asked ih =>
    have hs := ih (s.record e.unit (.asked e.authorId a))
    simp only [askAll, List.foldl_cons, List.map_cons] at hs ⊢
    rw [hs]
    simp [record]

/-- Between a call and the beginning of the program there is nothing but the questions. -/
theorem entered_journal :
    (s.entered e name c arguments).journal = s.journal ++
      ⟨e.unit, .logged (.commandExecuting name arguments)⟩ ::
        (c.requiredPermissions.map fun a => ⟨e.unit, .asked e.authorId a⟩) ++
          [⟨e.unit, .began name c.registration arguments⟩] := by
  simp [entered, record, askAll_journal, log]

theorem entered_tables : (s.entered e name c arguments).tables = s.tables :=
  (askAll_keeps (s.log e.unit (.commandExecuting name arguments)) e c.requiredPermissions).tables

/-- What holds of an author whom a command is open to. -/
theorem authorise_true {s' : Core} {c : CommandInfo} (h : s.authorise e c = (s', .ok true)) :
    s' = s.askAll e c.requiredPermissions ∧
      (∃ n, s.levels.effective e.message.author e.message.server = .ok n ∧
        n.compare .atLeast c.permissionLevel = .ok true) ∧
      (∀ a ∈ c.requiredPermissions,
        ∃ u, e.message.author = some u ∧ s.transport.mayPerform u a e.channel = .ok true) ∧
      ∀ r ∈ c.requiredRoles, ∃ u, e.message.author = some u ∧ u.holds r := by
  unfold authorise at h
  split at h
  · cases h
  · cases h
  next hl =>
    obtain ⟨hs, ho⟩ := Prod.mk.inj h
    obtain ⟨b, hb, ho⟩ := except_bind_eq_ok ho
    cases b
    · cases ho
    · obtain ⟨ha, hp⟩ := checkActions_true hb
      refine ⟨?_, except_bind_eq_ok hl, hp, holdsRoles_true ho⟩
      rw [← hs, ha]
      rfl

/-- A call is taken if the command does not refuse it. -/
theorem accept_enter {d : Command} (h : (s.accept e name c arguments chained).2 = .enter d) :
    c.refusal? arguments.length chained = .ok none ∧
      s.accept e name c arguments chained =
        (s.record e.unit (.began name c.registration arguments), .enter c) := by
  unfold accept at h ⊢
  split at h
  · cases h
  · split at h <;> cases h
  next hr => exact ⟨hr, rfl⟩

theorem accept_keeps (h : ∀ d, (s.accept e name c arguments chained).2 ≠ .enter d) :
    s.Keeps (s.accept e name c arguments chained).1 := by
  unfold accept at h ⊢
  split at h
  · exact .refl s
  next texts _ =>
    have hs := s.replyAll_keeps e texts
    generalize s.replyAll e texts = p at hs ⊢
    rcases p with ⟨s', f | _⟩ <;> exact hs
  · exact absurd rfl (h c)

/-- Sending a reply enters nothing. -/
theorem turnAway_ne_enter (r : Except Fault (List String)) (d : Command) :
    (s.turnAway e r).2 ≠ .enter d := by
  intro h
  rcases r with f | texts
  · cases h
  · simp only [turnAway] at h
    split at h <;> cases h

theorem dispatchBound_enter {d : Command}
    (h : (s.dispatchBound e name c arguments chained).2.2 = .enter d) :
    s.dispatchBound e name c arguments chained =
        ((s.askAll e c.requiredPermissions).record e.unit
          (.began name c.registration arguments),
          { e with command := some c.toCommandInfo }, .enter c) ∧
      (s.authorise e c.toCommandInfo).2 = .ok true ∧
      c.refusal? arguments.length chained = .ok none := by
  unfold dispatchBound at h ⊢
  split at h
  · cases h
  next s' ha =>
    obtain ⟨rfl, -⟩ := authorise_true ha
    obtain ⟨hr, hs⟩ := accept_enter h
    exact ⟨by simp only [hs], by rw [ha], hr⟩
  · exact absurd h (turnAway_ne_enter _ d)

theorem dispatchBound_keeps
    (h : ∀ d, (s.dispatchBound e name c arguments chained).2.2 ≠ .enter d) :
    s.Keeps (s.dispatchBound e name c arguments chained).1 := by
  have ha := s.authorise_keeps e c.toCommandInfo
  unfold dispatchBound at h ⊢
  generalize s.authorise e c.toCommandInfo = p at ha h ⊢
  rcases p with ⟨s', f | _ | _⟩
  · exact ha
  · exact (ha.trans (s'.log_keeps _ _)).trans (turnAway_keeps _ e _)
  · exact ha.trans (accept_keeps h)

/-- **A call enters a command** only if it is cleared, and then nothing happens before the program
begins but the questions about actions. -/
theorem dispatch_enter {d : Command} (h : (s.dispatch e name arguments chained).2.2 = .enter d) :
    Cleared s e name d arguments chained ∧
      s.dispatch e name arguments chained =
        (s.entered e name d arguments, { e with command := some d.toCommandInfo }, .enter d) := by
  have hc : ∃ c, s.registry.get name = .ok (some c) ∧
      ((s.log e.unit (.commandExecuting name arguments)).dispatchBound e name c arguments
        chained).2.2 = .enter d ∧
      s.dispatch e name arguments chained =
        (s.log e.unit (.commandExecuting name arguments)).dispatchBound e name c arguments
          chained := by
    unfold dispatch at h ⊢
    dsimp only at h ⊢
    split at h
    · cases h
    · exact absurd h (turnAway_ne_enter _ d)
    next c hg =>
      refine ⟨c, hg, ?_⟩
      -- A verdict that enters is passed on as it is; only a fault is looked at again.
      generalize dispatchBound _ e name c arguments chained = p at h ⊢
      rcases p with ⟨s', e', c' | t | f⟩
      · exact ⟨h, rfl⟩
      · cases h
      · cases h
  obtain ⟨c, hg, hb, hd⟩ := hc
  obtain ⟨hs, ha, hr⟩ := dispatchBound_enter hb
  rw [hs] at hb
  obtain rfl := Verdict.enter.inj hb
  obtain ⟨-, hl, hp, ho⟩ := authorise_true (Prod.ext rfl ha)
  obtain ⟨hmin, hmax, hch⟩ := refusal?_none hr
  exact ⟨⟨hg, hl, hp, ho, hmin, hmax, hch⟩, hd.trans hs⟩

theorem dispatch_keeps (h : ∀ d, (s.dispatch e name arguments chained).2.2 ≠ .enter d) :
    s.Keeps (s.dispatch e name arguments chained).1 := by
  have hs := s.log_keeps e.unit (.commandExecuting name arguments)
  unfold dispatch at h ⊢
  dsimp only at h ⊢
  split at h
  · exact hs
  · exact (hs.trans (log_keeps _ _ _)).trans (turnAway_keeps _ e _)
  next c _ =>
    have hb := @dispatchBound_keeps (s.log e.unit (.commandExecuting name arguments)) e name c
      arguments chained
    generalize dispatchBound _ e name c arguments chained = p at h hb ⊢
    rcases p with ⟨s', e', c' | t | f⟩
    · exact absurd rfl (h c')
    · exact hs.trans (hb nofun)
    · exact (hs.trans (hb nofun)).trans (notice_keeps s' e' name f)

end Core

/-! ## Calls that do not reach their command -/

/-- A call that does not reach its command: there is none, the author may not use it, or it refuses
the call; and the texts that reply to it. -/
inductive Bypassed (s : Core) (e : Event) (name : Setting) (arguments : List Setting)
    (chained : Bool) : List String → Prop where
  | missing {texts : List String} (hg : s.registry.get name = .ok none)
      (ht : templateReply (.ofText? s.attributes.notFoundMessage) "%command%" name = .ok texts) :
    Bypassed s e name arguments chained texts
  | denied {texts : List String} {c : Command} (hg : s.registry.get name = .ok (some c))
      (ha : (s.authorise e c.toCommandInfo).2 = .ok false)
      (ht : templateReply c.permissionMessage "%name%" name = .ok texts) :
    Bypassed s e name arguments chained texts
  | refused {texts : List String} {c : Command} (hg : s.registry.get name = .ok (some c))
      (ha : (s.authorise e c.toCommandInfo).2 = .ok true)
      (hr : c.refusal? arguments.length chained = .ok (some texts)) :
    Bypassed s e name arguments chained texts

namespace Core

/-- The network takes these replies. -/
def Takes (s : Core) (e : Event) (texts : List String) : Prop :=
  ∀ t ∈ texts, s.transport.deliver (.reply e.channel t) = .ok ()

theorem Takes.of_tables {s s' : Core} {e : Event} {texts : List String} (h : s.Takes e texts)
    (hs : s'.tables = s.tables) : s'.Takes e texts := by
  have ht : s'.transport = s.transport := congrArg (·.transport) hs
  intro t hm
  rw [ht]
  exact h t hm

theorem Takes.replyAll {s : Core} {e : Event} {texts : List String} (h : s.Takes e texts) :
    (s.replyAll e texts).2 = .ok () := by
  induction texts generalizing s with
  | nil => rfl
  | cons t texts ih =>
    have ht := h t List.mem_cons_self
    simp only [Core.replyAll, send, ht]
    exact ih fun t' ht' => h t' (List.mem_cons_of_mem _ ht')

theorem Takes.turnAway {s : Core} {e : Event} {texts : List String} (h : s.Takes e texts) :
    (s.turnAway e (.ok texts)).2 = .answered none := by
  have hr := h.replyAll
  simp only [Core.turnAway]
  generalize s.replyAll e texts = p at hr ⊢
  obtain ⟨s', r⟩ := p
  subst hr
  rfl

/-- What is asked and answered of an author does not depend on what happened. -/
theorem authorise_outcome {s s' : Core} (hs : s'.tables = s.tables) (e : Event) (c : CommandInfo) :
    (s'.authorise e c).2 = (s.authorise e c).2 := by
  obtain ⟨a, t, r, l, j⟩ := s
  obtain ⟨a', t', r', l', j'⟩ := s'
  obtain ⟨rfl, rfl, rfl, rfl, -⟩ := mk.inj hs
  unfold authorise
  dsimp only
  split <;> rfl

variable {s : Core} {e : Event} {name : Setting} {c : Command} {arguments : List Setting}
  {chained : Bool} {texts : List String}

/-- An author whom a command is not open to is sent its reply. -/
theorem dispatchBound_denied (ha : (s.authorise e c.toCommandInfo).2 = .ok false)
    (ht : templateReply c.permissionMessage "%name%" name = .ok texts) (hd : s.Takes e texts) :
    (s.dispatchBound e name c arguments chained).2.2 = .answered none := by
  have hs := (s.authorise_keeps e c.toCommandInfo).tables
  unfold dispatchBound
  generalize s.authorise e c.toCommandInfo = p at ha hs ⊢
  obtain ⟨s', r⟩ := p
  subst ha
  simp only [ht]
  exact Takes.turnAway (hd.of_tables hs)

theorem dispatchBound_refused (ha : (s.authorise e c.toCommandInfo).2 = .ok true)
    (hr : c.refusal? arguments.length chained = .ok (some texts)) (hd : s.Takes e texts) :
    (s.dispatchBound e name c arguments chained).2.2 = .answered (some "") := by
  have hs := (s.authorise_keeps e c.toCommandInfo).tables
  unfold dispatchBound
  generalize s.authorise e c.toCommandInfo = p at ha hs ⊢
  obtain ⟨s', r⟩ := p
  subst ha
  have hd' : (s'.replyAll { e with command := some c.toCommandInfo } texts).2 = .ok () :=
    Takes.replyAll (hd.of_tables hs)
  simp only [accept, hr]
  generalize s'.replyAll _ texts = q at hd' ⊢
  obtain ⟨s'', r⟩ := q
  subst hd'
  rfl

/-- The command of a name answers its call. -/
theorem dispatch_of_bound {t : Option String} (hg : s.registry.get name = .ok (some c))
    (hb : ((s.log e.unit (.commandExecuting name arguments)).dispatchBound e name c arguments
      chained).2.2 = .answered t) :
    (s.dispatch e name arguments chained).2.2 = .answered t := by
  have hg' : (s.log e.unit (.commandExecuting name arguments)).registry.get name = _ := hg
  unfold dispatch
  simp only [hg']
  generalize dispatchBound _ e name c arguments chained = p at hb ⊢
  obtain ⟨s', e', v⟩ := p
  subst hb
  rfl

/-- **A call that does not reach its command** is answered with nothing if its reply can be
sent. -/
theorem dispatch_bypassed (h : Bypassed s e name arguments chained texts) (hd : s.Takes e texts) :
    ∃ t, (s.dispatch e name arguments chained).2.2 = .answered t ∧ t.getD "" = "" := by
  -- The conditions are those of the core before the call is reported; no report matters to them.
  have hs := (s.log_keeps e.unit (.commandExecuting name arguments)).tables
  cases h with
  | missing hg ht =>
    have hg' : (s.log e.unit (.commandExecuting name arguments)).registry.get name = _ := hg
    have ht' : templateReply (.ofText? ((s.log e.unit (.commandExecuting name arguments)).log e.unit
        (.commandNotFound name)).attributes.notFoundMessage) "%command%" name = _ := ht
    refine ⟨none, ?_, rfl⟩
    unfold dispatch
    simp only [hg', ht']
    exact Takes.turnAway (hd.of_tables rfl)
  | denied hg ha ht =>
    rw [← authorise_outcome hs] at ha
    exact ⟨none, dispatch_of_bound hg (dispatchBound_denied ha ht (hd.of_tables hs)), rfl⟩
  | refused hg ha hr =>
    rw [← authorise_outcome hs] at ha
    exact ⟨some "", dispatch_of_bound hg (dispatchBound_refused ha hr (hd.of_tables hs)), rfl⟩

end Core

end ChatCommands
