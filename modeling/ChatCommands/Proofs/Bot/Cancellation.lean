import ChatCommands.Proofs.Bot.Threads
import ChatCommands.Proofs.Bot.Ticks

/-!
# Cancelled units

A unit whose cancellation took effect never goes on. Before it has begun nothing of it happens at
all. Where it waits, a report of the cancellation is the last that happens of its chain: no command
begins, nothing is refused or answered, and what it had queued stays unsent. If the command at which
it waits runs on a thread, its program goes on alone there, and what that ends with counts for
nothing.

Commands on threads are plain functions for that, which can call no command. Bots are considered to
which nothing else was ever registered.

## Main definitions

* `Bot.PlainStep`, `Bot.PlainlyReached`: steps and bots with plain functions on threads only
* `Bot.Orderly`: what holds of units of such bots
* `Task.left`: the program that goes on if a unit is cancelled
* `Task.Stopped`: what can be found of a cancelled unit

## Main results

* `Bot.PlainStep.orderly`: a step keeps the units in order
* `Bot.Stops.step`: a step leaves a cancelled unit with the program that goes on alone
* `cancelled_for_good`: a cancelled unit never goes on
-/

namespace ChatCommands

open Relation (ReflTransGen)

theorem Core.advanceJob_plain {opened : Setting → Bool} {s : Core} {j : Job} {r : Run}
    (hs : s.registry.Plain) (hj : ∀ r, j = .run r → r.Plain) (hstray : j.isStray = false)
    (h : (s.advanceJob opened j).2.rest = some r) : r.Plain := by
  cases j with
  | chain text e =>
    have hk := (s.log_keeps e.unit (.chainParsing text)).trans (programOf_keeps _ e text)
    have hs' : ((s.log e.unit (.chainParsing text)).programOf e text).1.registry.Plain := by
      rw [show ((s.log e.unit (.chainParsing text)).programOf e text).1.registry = s.registry from
        congrArg (·.registry) hk.tables]
      exact hs
    refine Run.advance_plain opened turnLength hs' ⟨?_, ?_⟩ h
    · intro hm
      cases hm
    · intro f hf
      cases hf
  | run r₀ => exact Run.advance_plain opened turnLength hs (hj r₀ rfl) h
  | stray r₀ => cases hstray

/-- No unit is fresh behind its turn. -/
theorem Task.Turns.not_fresh {opened : Setting → Bool} {i : Nat} {s s' : Core} {u u' : Task Job}
    (h : Turns opened i s u s' u') (j : Job) : u'.stage ≠ .fresh j := by
  intro hs
  cases h with
  | idle hover =>
    rcases hover with h | h
    · cases hs.symm.trans h
    · cases hs.symm.trans h
  | _ => cases hs

namespace Bot

variable {b b' : Bot} {i : Nat} {u : Task Job}

/-- A step after which the commands on threads are plain functions. -/
structure PlainStep (b b' : Bot) : Prop where
  step : b.Step b'
  plain : b'.core.registry.Plain

/-- A bot that can be come to with plain functions only on threads. -/
def PlainlyReached (b : Bot) : Prop :=
  ∃ b₀ : Bot, b₀.Unused ∧ b₀.core.registry.Plain ∧ ReflTransGen PlainStep b₀ b

/-- Of units that have not begun only their spawning is told, and runs have their programs on
threads where they may be. -/
structure Orderly (b : Bot) : Prop where
  owned : b.Owned
  plain : b.core.registry.Plain
  fresh : ∀ {i : Nat} {u : Task Job} {j : Job}, b.units.units[i]? = some u → u.stage = .fresh j →
    ∃ n, b.core.told (some i) = [.logged (.unitSpawned u.label n)]
  runs : ∀ {i : Nat} {u : Task Job} {r : Run}, b.units.units[i]? = some u →
    u.stage.standing = (some (.run r), false) → r.Plain

/-- **A step** keeps the units in order. -/
theorem PlainStep.orderly (hb : b.Orderly) (h : b.PlainStep b') : b'.Orderly := by
  refine ⟨h.step.owned hb.owned, h.plain, ?_, ?_⟩
  -- Units are fresh only until their first turn, and nothing but their spawning is told of them.
  · intro i u' j hu' hs
    cases h.step.life hb.owned hu' with
    | rests hu hm ht =>
      rcases hm.stage with hstage | ⟨a, -, hstage⟩
      · rw [ht, hm.label]
        exact hb.fresh hu (hstage.symm.trans hs)
      · -- A unit that was let go on has begun.
        rw [hs] at hstage
        unfold Stage.withActivity at hstage
        split at hstage <;> cases hstage
    | turns hu ht => exact (ht.not_fresh j hs).elim
    | begins hi hu ht =>
      subst hu
      exact ⟨_, ht⟩
  · intro i u' r hu' hr
    cases h.step.life hb.owned hu' with
    | rests hu hm ht => exact hb.runs hu (hm.standing ▸ hr)
    | @turns u hu ht =>
      obtain ⟨j, r', hj, -, hk, -, hrest⟩ := ht.goes_on hr
      obtain rfl := Job.run.inj hk
      refine Core.advanceJob_plain hb.plain ?_ (hb.owned.units i u hu j false hj).2 hrest
      rintro r₀ rfl
      exact hb.runs hu hj
    | begins hi hu ht =>
      subst hu
      cases hr

theorem PlainlyReached.orderly (h : b.PlainlyReached) : b.Orderly := by
  obtain ⟨b₀, h₀, hp, hsteps⟩ := h
  have hnone (i : Nat) (u : Task Job) : b₀.units.units[i]? ≠ some u := by
    intro hu
    rw [h₀.units] at hu
    cases hu
  induction hsteps with
  | refl => exact ⟨h₀.owned, hp, fun hu => (hnone _ _ hu).elim, fun hu => (hnone _ _ hu).elim⟩
  | tail _ hstep ih => exact hstep.orderly ih

/-- Whatever goes on does not register commands. -/
theorem ticks_plain (hp : b.core.registry.Plain) (h : ReflTransGen Tick b b') :
    ReflTransGen PlainStep b b' ∧ b'.core.registry.Plain := by
  induction h with
  | refl => exact ⟨.refl, hp⟩
  | tail _ htick ih =>
    obtain ⟨hsteps, hp'⟩ := ih
    have hp'' := htick.later.plain hp'
    exact ⟨hsteps.tail ⟨.tick htick, hp''⟩, hp''⟩

theorem PlainlyReached.ticks (hb : b.PlainlyReached) (h : ReflTransGen Tick b b') :
    b'.PlainlyReached := by
  have hp := hb.orderly.plain
  obtain ⟨b₀, h₀, hp₀, hsteps⟩ := hb
  exact ⟨b₀, h₀, hp₀, hsteps.trans (ticks_plain hp h).1⟩

/-- Whoever can be come to, so can what an operation makes of it, if commands on threads are plain
functions still. -/
theorem PlainlyReached.acts (hb : b.PlainlyReached) (h : b.Acts b')
    (hp : b'.core.registry.Plain) : b'.PlainlyReached := by
  rcases acts_ticks h with h | h
  · exact hb.ticks h
  · obtain ⟨b₀, h₀, hp₀, hsteps⟩ := hb
    exact ⟨b₀, h₀, hp₀, hsteps.tail ⟨.manage h, hp⟩⟩

end Bot

/-! ## Cancelled units -/

namespace Task

/-- The program that goes on if the unit is cancelled: the one at which it waits, if that is on a
thread. -/
def left (u : Task Job) : Option Run :=
  match u.stage with
  | .active a => (botHost.behind a.rest).bind Job.run?
  | _ => none

/-- What can be found of a cancelled unit after this has happened of it, where this program was left
running of it, or none. -/
inductive Stopped (left : Option Run) (l : List Happening) (u : Task Job) : Prop where
  | nothing (hleft : left = none) (hl : l = []) (hs : u.stage = .cancelled none)
  | running {r r' : Run} {a : Activity Job} (hleft : left = some r) (hgo : r.GoesAlone l r')
      (hlone : r'.Lone) (hs : u.stage = .cancelled (some a)) (ha : a.rest = .stray r')
  | ended {r r' : Run} (hleft : left = some r) (hgo : r.GoesAlone l r')
      (hs : u.stage = .cancelled none)

variable {left : Option Run} {l : List Happening} {u u' : Task Job}

/-- Units are cancelled only if that was asked for. -/
theorem Turns.cancelling_of_cancelled {opened : Setting → Bool} {i : Nat} {s s' : Core}
    {rest : Option (Activity Job)} (h : Turns opened i s u s' u') (hp : u.stage.isPending = true)
    (hs : u'.stage = .cancelled rest) : u.cancelling = true := by
  cases h with
  | waits hj hc h => cases hs
  | yields hj hc h => cases hs
  | ends hj hc h => cases hs
  | dropped hs' hc => exact hc
  | interrupted hs' hc => exact hc
  | strays hs' ha =>
    rw [hs'] at hp
    cases hp
  | idle hs' =>
    rw [hs] at hp
    cases hp

theorem Stopped.eq_nil (h : Stopped left l u) (hnone : left = none) : l = [] := by
  cases h with
  | nothing hleft hl hs => exact hl
  | running hleft => cases hnone.symm.trans hleft
  | ended hleft => cases hnone.symm.trans hleft

theorem Stopped.isOwn (h : Stopped left l u) : ∀ x ∈ l, x.isOwn = true := by
  cases h with
  | nothing _ hl =>
    subst hl
    intro x hx
    cases hx
  | running _ hgo => exact hgo.isOwn
  | ended _ hgo => exact hgo.isOwn

/-- While others act, a program that was left running may come to be due. -/
theorem Stopped.meanwhile (h : Stopped left l u) (hm : Meanwhile u u') : Stopped left l u' := by
  cases h with
  | nothing hleft hl hs => exact .nothing hleft hl ((hm.stage_eq (by rw [hs]; rfl)).trans hs)
  | ended hleft hgo hs => exact .ended hleft hgo ((hm.stage_eq (by rw [hs]; rfl)).trans hs)
  | running hleft hgo hlone hs ha =>
    rcases hm.stage with hstage | ⟨a', ha', hstage⟩
    · exact .running hleft hgo hlone (hstage.trans hs) ha
    · rw [hs] at ha' hstage
      obtain rfl := Option.some.inj ha'
      exact .running hleft hgo hlone hstage ha

/-- In its turn the program that was left running goes on alone, and nothing else happens. -/
theorem Stopped.turns {opened : Setting → Bool} {i : Nat} {s s' : Core} (h : Stopped left l u)
    (ho : u.Owned i) (ht : Turns opened i s u s' u') :
    ∃ l', s'.journal = s.journal ++ l'.map (Entry.mk (some i)) ∧ Stopped left (l ++ l') u' := by
  cases h with
  | nothing hleft hl hs =>
    obtain ⟨rfl, rfl⟩ := ht.of_over (.inr hs)
    exact ⟨[], (List.append_nil _).symm, .nothing hleft (by rw [hl, List.append_nil]) hs⟩
  | ended hleft hgo hs =>
    obtain ⟨rfl, rfl⟩ := ht.of_over (.inr hs)
    exact ⟨[], (List.append_nil _).symm, .ended hleft (by rwa [List.append_nil]) hs⟩
  | @running r r' a hleft hgo hlone hs ha =>
    obtain ⟨rfl, rfl⟩ := ht.of_behind hs ha
    have hu : r'.event.unit = some i := by
      refine (ho (.stray r') true ?_).1
      rw [hs, ← ha]
      rfl
    -- The program goes on from where it was, so that the two stretches are one.
    obtain ⟨l', r₁, hl', hgo', hlone', hrest⟩ := r'.advance_alone opened turnLength s hlone
    rw [hu] at hl'
    refine ⟨l', hl', ?_⟩
    have hgone := hgo.trans hgo'
    rcases hp : (r'.advance opened turnLength s).2 with r₂ | ⟨g, r₂⟩ | r₂ | ⟨e, v⟩ <;>
      rw [hp] at hrest
    · obtain rfl := hrest r₂ rfl
      exact .running hleft hgone hlone' rfl rfl
    · obtain rfl := hrest r₂ rfl
      exact .running hleft hgone hlone' rfl rfl
    · obtain rfl := hrest r₂ rfl
      exact .running hleft hgone hlone' rfl rfl
    · exact .ended hleft hgone rfl

end Task

namespace Bot

variable {b b' : Bot} {i : Nat} {left : Option Run} {before : List Happening}

/-- A unit was cancelled when this had been told of it. -/
def Stops (b : Bot) (i : Nat) (left : Option Run) (before : List Happening) : Prop :=
  ∃ u l, b.units.units[i]? = some u ∧ b.core.told (some i) = before ++ l ∧ u.Stopped left l

theorem Stops.step (hb : b.Owned) (h : b.Stops i left before) (hs : b.Step b') :
    b'.Stops i left before := by
  -- The invariant is what was told since, together with what is left running.
  obtain ⟨u, l, hu, htold, hstopped⟩ := h
  obtain ⟨u', hu', ⟨hm, ht⟩ | hturn⟩ := hs.unit hb hu
  · exact ⟨u', l, hu', ht.trans htold, hstopped.meanwhile hm⟩
  · obtain ⟨l', hl', hstopped'⟩ := hstopped.turns (hb.units i u hu) hturn
    refine ⟨u', l ++ l', hu', ?_, hstopped'⟩
    rw [Core.told_of_journal hl', htold, List.append_assoc]

theorem Stops.steps (hb : b.Owned) (h : b.Stops i left before) (hs : ReflTransGen Step b b') :
    b'.Stops i left before := by
  induction hs with
  | refl => exact h
  | tail hs hstep ih => exact ih.step (hb.steps hs) hstep

/-- A unit of which nothing is left has turns in which nothing happens. -/
theorem turn_over {u : Task Job} (hb : b.Owned) (hu : b.units.units[i]? = some u)
    (hs : u.stage = .done ∨ u.stage = .cancelled none) : (b.turn i).core = b.core := by
  obtain ⟨s', u', ht, he⟩ := Scheduler.takeTurn_turns b.core hu (hb.units i u hu)
  have hcore : (b.turn i).core = s' := congrArg Prod.fst he
  rw [hcore]
  exact (ht.of_over hs).1

/-- The turn in which a unit is cancelled. -/
theorem stops_of_turns {u u' : Task Job} {s' : Core} {rest : Option (Activity Job)}
    (hb : b.Orderly) (hu : b.units.units[i]? = some u) (hp : u.stage.isPending = true)
    (ht : Task.Turns b.units.isOpen i b.core u s' u') (hs : u'.stage = .cancelled rest) :
    u.cancelling = true ∧ (∀ j, u.stage = .fresh j → s' = b.core) ∧
      (∀ a, u.stage = .active a → s' = b.core.log (some i) (.unitCancelled u.label)) ∧
      u'.Stopped u.left [] := by
  have hc := ht.cancelling_of_cancelled hp hs
  rcases hstage : u.stage with j | a | - | x
  · obtain ⟨rfl, rfl⟩ := ht.of_fresh hstage hc
    refine ⟨hc, fun _ _ => rfl, ?_, .nothing ?_ rfl rfl⟩
    · intro a ha
      cases ha
    · rw [Task.left, hstage]
  · obtain ⟨rfl, rfl⟩ := ht.of_active hstage hc
    refine ⟨hc, ?_, fun _ _ => rfl, ?_⟩
    · intro j hj
      cases hj
    -- Only a program on a thread is left running; it calls no command and nobody waits for it.
    rcases hbehind : botHost.behind a.rest with - | k
    · refine .nothing ?_ rfl rfl
      rw [Task.left, hstage]
      show (botHost.behind a.rest).bind _ = _
      rw [hbehind]
      rfl
    · obtain ⟨r, hr, -⟩ := Job.behind_eq hbehind
      have hplain : r.Plain := by
        refine hb.runs hu ?_
        rw [hstage, ← hr]
        rfl
      rw [hr] at hbehind
      obtain ⟨r', hr', rfl⟩ := Option.map_eq_some_iff.mp hbehind
      refine .running ?_ .start (hplain.behind hr') rfl (by cases a <;> rfl)
      rw [Task.left, hstage]
      show (botHost.behind a.rest).bind _ = _
      rw [hr, hbehind]
      rfl
  · rw [hstage] at hp
    cases hp
  · rw [hstage] at hp
    cases hp

end Bot

/-- **A cancelled unit never goes on.** It was asked to be cancelled. If it had not begun, the step
that cancels it changes nothing, and all that is ever told of it is that it was spawned. Else the
step reports its cancellation, and whatever happens later, all that is told of it since is what the
program did that was left running on a thread, going on alone with requests of its own: no command
begins, nothing is refused or answered, and what that program comes to is not told. Where nothing
was left or that program has ended, the unit changes nothing any more. -/
theorem cancelled_for_good {b b₁ b₂ : Bot} {i : Nat} {u u₁ : Task Job}
    {rest : Option (Activity Job)} (hb : b.PlainlyReached) (hu : b.units.units[i]? = some u)
    (hp : u.stage.isPending = true) (h₁ : b.PlainStep b₁)
    (hu₁ : b₁.units.units[i]? = some u₁) (hs : u₁.stage = .cancelled rest)
    (h₂ : ReflTransGen Bot.PlainStep b₁ b₂) :
    u.cancelling = true ∧
    (∀ j, u.stage = .fresh j → b₁.core = b.core ∧
      ∃ n, b₂.core.told (some i) = [.logged (.unitSpawned u.label n)]) ∧
    (∀ a, u.stage = .active a → b₁.core = b.core.log (some i) (.unitCancelled u.label)) ∧
    ∃ u₂ l, b₂.units.units[i]? = some u₂ ∧ u₂.Stopped u.left l ∧
      b₂.core.told (some i) = b₁.core.told (some i) ++ l ∧ (∀ x ∈ l, x.isOwn = true) ∧
      (u₂.stage = .cancelled none → (b₂.turn i).core = b₂.core) := by
  have horderly := hb.orderly
  obtain ⟨u', hu', ⟨hm, -⟩ | ht⟩ := h₁.step.unit horderly.owned hu
  · -- A unit that only others act on is pending still.
    obtain rfl := Option.some.inj (hu₁.symm.trans hu')
    have hp₁ := hm.isPending.trans hp
    rw [hs] at hp₁
    cases hp₁
  · obtain rfl := Option.some.inj (hu₁.symm.trans hu')
    obtain ⟨hc, hfresh, hactive, hstopped⟩ := Bot.stops_of_turns horderly hu hp ht hs
    have howned := h₁.step.owned horderly.owned
    have hsteps : ReflTransGen Bot.Step b₁ b₂ := ReflTransGen.mono (fun _ _ h => h.step) _ _ h₂
    obtain ⟨u₂, l, hu₂, htold, hstopped₂⟩ := Bot.Stops.steps howned
      ⟨u₁, [], hu₁, (List.append_nil _).symm, hstopped⟩ hsteps
    refine ⟨hc, ?_, hactive, u₂, l, hu₂, hstopped₂, htold, hstopped₂.isOwn, ?_⟩
    · -- Where nothing had begun nothing is left running, so that nothing was told since.
      intro j hj
      obtain ⟨n, hn⟩ := horderly.fresh hu hj
      have hl : l = [] := by
        refine hstopped₂.eq_nil ?_
        rw [Task.left, hj]
      refine ⟨hfresh j hj, n, ?_⟩
      rw [htold, hfresh j hj, hn, hl]
      rfl
    · intro hs₂
      exact Bot.turn_over (howned.steps hsteps) hu₂ (.inr hs₂)

/-- A unit is cancelled while a program on a thread waits at a gate for it, in front of another
command. When the gate is opened the program goes on and sends something more. -/
theorem cancelled_for_good_thread :
    ∃ (b b₁ b₂ : Bot) (u u₂ : Task Job) (l : List Happening),
      b.PlainlyReached ∧ b.units.units[0]? = some u ∧ u.cancelling = true ∧ b.PlainStep b₁ ∧
      b₁.units.overview = [("ct-1", "cancelled")] ∧ ReflTransGen Bot.PlainStep b₁ b₂ ∧
      u₂.Stopped u.left l ∧ b₂.core.told (some 0) = b₁.core.told (some 0) ++ l ∧
      (∀ x ∈ l, x.isOwn = true) ∧ (b₂.turn 0).core = b₂.core ∧
      (b₂.core.journal.filterMap fun x =>
        match x.what with | .sent o => some o | _ => none) =
          [.reply "c" "x", .reply "c" "y"] := by
  let body : Handler := fun _ _ => do
    let _ ← Program.reply "x"
    Program.waitAt "g"
    let _ ← Program.reply "y"
    return .text "z"
  let core : Core :=
    { attributes := { advanced := true }, transport := .fixed .null [] [] []
      registry := ({} : Registry).register { name := "a" } .thread body }
  have hplain : core.registry.Plain := by
    intro x hx _ m arguments
    obtain rfl := List.mem_singleton.mp hx
    have hreply (t : Setting) : (Program.reply t).CallFree := fun _ => trivial
    have hwait : (Program.waitAt "g").CallFree := trivial
    exact (hreply _).bind fun _ => hwait.bind fun _ => (hreply _).bind fun _ => trivial
  let b₀ : Bot := { trigger := .literal "!", core := core }
  let m : Message := ⟨"!a>a", some ⟨"u", "", []⟩, "c", none, .null⟩
  let b : Bot := (((b₀.receive m).1.turn 0).turn 0 |>.cancel 0).1
  let b₂ : Bot := ((b.turn 0).release "g").1.turn 0
  have hturn (b : Bot) : b.Tick (b.turn 0) := .turn 0 b.units.due (.inl rfl)
  have hb₀ : b₀.PlainlyReached := ⟨b₀, ⟨rfl, rfl, rfl, fun x hx => nomatch hx⟩, hplain, .refl⟩
  have hb : b.PlainlyReached := hb₀.ticks
    ((((b₀.ticks_receive m).tail (hturn _)).tail (hturn _)).tail (.cancel 0))
  have hp₁ := (hb.ticks (.single (hturn b))).orderly.plain
  have h₁ : b.PlainStep (b.turn 0) := ⟨.tick (hturn b), hp₁⟩
  have h₂ : ReflTransGen Bot.PlainStep (b.turn 0) b₂ :=
    (Bot.ticks_plain hp₁ ((Bot.goes_ticks (.release "g")).tail (hturn _))).1
  have hpending : (b.units.units[0]?.map fun u => u.stage.isPending) = some true := by
    decide +kernel
  have hcancelled : ((b.turn 0).units.units[0]?.map fun u => u.stage.standing.2) = some true := by
    decide +kernel
  have hended : (b₂.units.units[0]?.map fun u => u.stage.standing.1.isNone) = some true := by
    decide +kernel
  obtain ⟨u, hu, hp⟩ := Option.map_eq_some_iff.mp hpending
  obtain ⟨u₁, hu₁, hs₁⟩ := Option.map_eq_some_iff.mp hcancelled
  obtain ⟨rest, hs⟩ : ∃ rest, u₁.stage = .cancelled rest := by
    rcases hs : u₁.stage with j | a | - | rest <;> rw [hs] at hs₁
    case cancelled => exact ⟨rest, rfl⟩
    all_goals cases hs₁
  obtain ⟨hc, -, -, u₂, l, hu₂, hstopped, htold, hown, hidle⟩ :=
    cancelled_for_good hb hu hp h₁ hu₁ hs h₂
  have hs₂ : u₂.stage = .cancelled none := by
    cases hstopped with
    | nothing _ _ hs => exact hs
    | ended _ _ hs => exact hs
    | running _ _ _ hs =>
      rw [hu₂] at hended
      have hnone : u₂.stage.standing.1.isNone = true := Option.some.inj hended
      rw [hs] at hnone
      cases hnone
  exact ⟨b, b.turn 0, b₂, u, u₂, l, hb, hu, hc, h₁, by decide +kernel, h₂, hstopped, htold, hown,
    hidle hs₂, by decide +kernel⟩

end ChatCommands
