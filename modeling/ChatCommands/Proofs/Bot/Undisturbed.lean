import ChatCommands.Proofs.Bot.Isolation
import ChatCommands.Proofs.Bot.Operations

/-!
# Sessions of a bot

Messages come in, units have their turns, gates are opened and units are cancelled, while nobody
changes what the units share. Each operation of such a session is a sequence of moves of a scene,
and the moves in between change nothing of what the units share either: what a job could change
cannot be taken back unnoticed. A level is set with a report of it, and a name that was taken from
its command is not bound again by any request of a program.

## Main definitions

* `Core.Undisturbed`: no level was set and no name was taken from its command
* `Core.Later`: what jobs can make of a core
* `Bot.Session`: sessions of a bot, with the messages of their units

## Main results

* `Scene.Session.moves`: moves after which the core is undisturbed belong to a session
* `calls_isolated`: units of the same message make the same calls, whatever else goes on
-/

namespace ChatCommands

/-- Whether a level was set. -/
def Happening.isLevelSet : Happening → Bool
  | logged (.userLevelSet _ _) => true
  | logged (.roleLevelSet _ _) => true
  | _ => false

namespace Core

/-- The reports of levels that were set. -/
def levelSets (s : Core) : List Entry := s.journal.filter (·.what.isLevelSet)

/-- In between no level was set, and no name was taken from its command. -/
structure Undisturbed (s s' : Core) : Prop where
  registry : s'.registry = s.registry
  levelSets : s'.levelSets = s.levelSets

/-- What jobs can make of a core: names are taken from their commands but never bound, and other
levels come with reports of levels that were set. -/
structure Later (s s' : Core) : Prop where
  attributes : s'.attributes = s.attributes
  transport : s'.transport = s.transport
  registrations : s'.registry.registrations = s.registry.registrations
  bindings : s'.registry.bindings.Sublist s.registry.bindings
  journal : s.journal <+: s'.journal
  levels : s'.levels = s.levels ∨ s.levelSets.length < s'.levelSets.length

namespace Later

variable {s s₁ s₂ : Core}

theorem of_tables (ht : s₁.tables = s.tables) (hj : s.journal <+: s₁.journal) : s.Later s₁ := by
  have hr : s₁.registry = s.registry := congrArg (·.registry) ht
  refine ⟨congrArg (·.attributes) ht, congrArg (·.transport) ht, ?_, ?_, hj, .inl ?_⟩
  · rw [hr]
  · exact hr ▸ List.Sublist.refl _
  · exact congrArg (·.levels) ht

theorem refl (s : Core) : s.Later s := .of_tables rfl (List.prefix_refl _)

theorem levelSets_length_le (h : s.Later s₁) : s.levelSets.length ≤ s₁.levelSets.length :=
  (h.journal.sublist.filter _).length_le

theorem trans (h : s.Later s₁) (h' : s₁.Later s₂) : s.Later s₂ where
  attributes := h'.attributes.trans h.attributes
  transport := h'.transport.trans h.transport
  registrations := h'.registrations.trans h.registrations
  bindings := h'.bindings.trans h.bindings
  journal := h.journal.trans h'.journal
  levels := by
    have hl := h.levelSets_length_le
    have hl' := h'.levelSets_length_le
    rcases h.levels with he | hlt
    · rcases h'.levels with he' | hlt'
      · exact .inl (he'.trans he)
      · exact .inr (by omega)
    · exact .inr (by omega)

/-- **Nothing is taken back**: if the core is undisturbed in the end, then it was so in between. -/
theorem between (h : s.Later s₁) (h' : s₁.Later s₂) (hu : s.Undisturbed s₂) :
    s₁.tables = s.tables := by
  have hbindings : s₁.registry.bindings = s.registry.bindings := by
    -- What was taken off in between would still be missing in the end.
    refine h.bindings.eq_of_length_le ?_
    rw [← hu.registry]
    exact h'.bindings.length_le
  have hregistry : s₁.registry = s.registry := by
    have hn := h.registrations
    generalize s₁.registry = r₁ at hbindings hn ⊢
    generalize s.registry = r at hbindings hn ⊢
    cases r₁
    cases r
    simp_all
  have hlevels : s₁.levels = s.levels := by
    refine h.levels.resolve_right ?_
    intro hlt
    -- A report of a level that was set in between would still be there.
    have hle := h'.levelSets_length_le
    rw [hu.levelSets] at hle
    omega
  rw [tables, tables, h.attributes, h.transport, hregistry, hlevels]

end Later

/-! ## Requests -/

section Requests

variable (s : Core) (e : Event)

theorem record_later (u : Option Nat) (h : Happening) : s.Later (s.record u h) :=
  .of_tables rfl ⟨_, rfl⟩

theorem send_later (o : Outgoing) : s.Later (s.send e o).1 := by
  unfold send
  split
  · exact s.record_later _ _
  · exact s.record_later _ _

theorem withLevels_later (levels : Except Fault Levels) {l : LogEvent}
    (hl : (Happening.logged l).isLevelSet = true) : s.Later (s.withLevels e levels l).1 := by
  rcases levels with f | l'
  · exact .refl s
  · refine ⟨rfl, rfl, rfl, List.Sublist.refl _, ⟨_, rfl⟩, .inr ?_⟩
    simp [withLevels, levelSets, log, record, hl]

theorem serve_later (a : Action) : s.Later (s.serve e a).1 := by
  cases a with
  | reply t => exact s.send_later e _
  | direct t =>
    simp only [serve]
    split
    · exact .refl s
    · exact s.send_later e _
  | file n c => exact s.send_later e _
  | append l => exact s.record_later _ _
  | drain => exact s.record_later _ _
  | setUser id n => exact s.withLevels_later e _ rfl
  | setRole id n => exact s.withLevels_later e _ rfl
  | unregister n =>
    rcases hk : n.key with f | k
    · simp only [serve, Registry.remove, hk]
      exact .refl s
    · simp only [serve, Registry.remove, hk]
      exact ⟨rfl, rfl, rfl, List.filter_sublist, List.prefix_refl _, .inl rfl⟩
  | _ => exact .refl s

end Requests

/-- The journal only grows. -/
theorem work_journal (opened : Setting → Bool) (s : Core) (j : Job) :
    s.journal <+: (s.work opened j).1.journal := by
  obtain ⟨l, hl⟩ := s.work_journal_eq opened j
  rw [hl]
  exact List.prefix_append _ _

/-- **A request of a job** makes of a core what jobs can make of it. -/
theorem work_later (opened : Setting → Bool) (s : Core) (j : Job) :
    s.Later (s.work opened j).1 := by
  -- What the units share changes with a request that is served at once, if at all.
  have hj := s.work_journal opened j
  cases j with
  | chain text e =>
    have h := (s.log_keeps e.unit (.chainParsing text)).trans (programOf_keeps _ e text)
    exact .of_tables h.tables hj
  | run r =>
    obtain ⟨a, next, hp⟩ | ht := r.step_tables opened s
    · have hs := s.serve_later r.event a
      simpa only [work, Run.step, hp, close] using hs
    · refine .of_tables ?_ hj
      simp only [work]
      generalize r.step opened s = q at ht ⊢
      obtain ⟨s', g⟩ := q
      cases g with
      | ended e v => exact (s'.conclude_keeps e v).tables.trans ht
      | _ => exact ht
  | stray r =>
    obtain ⟨a, next, hp⟩ | ht := r.step_tables opened s
    · have hs := s.serve_later r.event a
      simpa only [work, Run.step, hp, closeStray] using hs
    · exact .of_tables ht hj

end Core

/-! ## Moves of a session -/

namespace Scene

open Relation (ReflTransGen)

variable {p : Prefix} {T : Core} {w w' : Scene}

theorem Move.later (h : Move p w w') : w.core.Later w'.core := by
  cases h with
  | work q j opened hj =>
    rw [put_core]
    exact w.core.work_later opened j
  | report s hr ht =>
    obtain ⟨l, hl⟩ := hr
    exact .of_tables ht ⟨_, hl.symm⟩
  | _ => exact .refl _

theorem later_of_moves (h : ReflTransGen (Move p) w w') : w.core.Later w'.core := by
  induction h with
  | refl => exact .refl _
  | tail _ hm ih => exact ih.trans hm.later

/-- Moves belong to a session if the core is undisturbed in the end. -/
theorem Session.moves (hw : Session p T w) (h : ReflTransGen (Move p) w w')
    (hu : w.core.Undisturbed w'.core) : Session p T w' := by
  -- The induction goes along the moves so far, and the core after them leads to the last one.
  suffices hs : ∀ x, ReflTransGen (Move p) w x → x.core.Later w'.core → Session p T x from
    hs w' h (.refl _)
  intro x hx
  induction hx with
  | refl => exact fun _ => hw
  | tail hy hm ih =>
    intro hl
    have ht := (later_of_moves (hy.tail hm)).between hl hu
    exact (ih (hm.later.trans hl)).move hm (ht.trans hw.inv.tables)

end Scene

/-! ## Sessions of a bot -/

namespace Bot

/-- Sessions of a bot with this prefix and these tables, from before its first unit on, with the
messages that became units. Whatever happens leaves alone what the units share. -/
inductive Session (p : Prefix) (T : Core) : List Message → Bot → Prop where
  | start {b : Bot} (hp : b.trigger = p) (hT : b.core.tables = T) (hu : b.units.units = [])
      (hc : ∀ i, b.core.calls (some i) = []) : Session p T [] b
  | goes {ms l : List Message} {b b' : Bot} (h : Session p T ms b) (hg : b.Goes l b')
      (hu : b.core.Undisturbed b'.core) : Session p T (ms ++ l) b'
  | manages {ms : List Message} {b b' : Bot} (h : Session p T ms b) (hm : b.Manages b')
      (hT : b'.core.tables = b.core.tables) : Session p T ms b'

/-- A session of a bot is shown by a session of scenes, with units for the same messages. -/
theorem Session.shown {p : Prefix} {T : Core} {ms : List Message} {b : Bot}
    (h : Session p T ms b) :
    b.trigger = p ∧ ∃ w, Scene.Session p T w ∧ b.Shows w ∧ w.messages = ms := by
  induction h with
  | start hp hT hu hc =>
    refine ⟨hp, _, .start hT hc, ⟨rfl, ?_⟩, rfl⟩
    rw [Scheduler.standings, hu]
    rfl
  | goes _ hg hu ih =>
    obtain ⟨rfl, w, hs, hw, hm⟩ := ih
    obtain ⟨ht, hmoves⟩ := goes_moves hg
    obtain ⟨w', h', hw', hm'⟩ := hmoves hw
    rw [← hw.core, ← hw'.core] at hu
    exact ⟨ht, w', hs.moves h' hu, hw', hm ▸ hm'⟩
  | manages _ hg hT ih =>
    obtain ⟨rfl, w, hs, hw, hm⟩ := ih
    obtain ⟨ht, hunits, hr⟩ := hg.reports
    rw [← hw.core] at hr hT
    refine ⟨ht, _, hs.move (.report _ hr hT) (hT.trans hs.inv.tables), ⟨rfl, ?_⟩, hm⟩
    rw [hunits]
    exact hw.standings

/-- A unit that was let run to its end is so in the scene. -/
theorem Shows.unit_done {b : Bot} {w : Scene} {i : Nat} {m : Message} (h : b.Shows w)
    (hm : w.messages[i]? = some m) (hd : b.units.units[i]?.map (·.stage) = some .done) :
    w.units[i]? = some ⟨m, none, false⟩ := by
  have hs : w.standings[i]? = some (none, false) := by
    rw [h.standings, Scheduler.standings, List.getElem?_map]
    obtain ⟨t, ht, hstage⟩ := Option.map_eq_some_iff.mp hd
    rw [ht, Option.map_some, hstage]
    rfl
  rw [Scene.messages, List.getElem?_map] at hm
  rw [Scene.standings, List.getElem?_map] at hs
  rcases hu : w.units[i]? with - | u
  · rw [hu] at hm
    cases hm
  · rw [hu] at hm hs
    obtain ⟨m', j, c⟩ := u
    cases hm
    cases hs
    rfl

end Bot

/-- **Units do not disturb each other**: in two sessions of bots with the same tables, units that
were let run to their ends for messages of the same content, author, channel and server have made
the same calls of the network. Whatever else comes in, in whatever order units have their turns,
and whether others fail, wait for ever or are cancelled makes no difference. If the messages have
different identifiers, no program of a command may tell them apart by these. -/
theorem calls_isolated {p : Prefix} {T : Core} {ms ms' : List Message} {b b' : Bot} {i k : Nat}
    {m m' : Message} (h : Bot.Session p T ms b) (h' : Bot.Session p T ms' b')
    (hi : ms[i]? = some m) (hk : ms'[k]? = some m') (hm : m.Alike m')
    (hh : ∀ c ∈ T.registry.bindings, c.command.handler m' = c.command.handler m)
    (hd : b.units.units[i]?.map (·.stage) = some .done)
    (hd' : b'.units.units[k]?.map (·.stage) = some .done) :
    b.core.calls (some i) = b'.core.calls (some k) := by
  obtain ⟨-, w, hw, hs, rfl⟩ := h.shown
  obtain ⟨-, v, hv, hs', rfl⟩ := h'.shown
  rw [← hs.core, ← hs'.core]
  exact hw.calls_eq hv (hs.unit_done hi hd) (hs'.unit_done hk hd') hm hh

/-- A message that comes alone, and with another identifier behind one whose unit is cancelled. -/
theorem calls_isolated_unknown :
    ∃ (p : Prefix) (T : Core) (b b' : Bot) (m m' : Message),
      Bot.Session p T [m] b ∧ Bot.Session p T [m, m'] b' ∧ m.Alike m' ∧ m.id ≠ m'.id ∧
      b.core.calls (some 0) = [.sent (.reply "c" "x?")] ∧
      b.core.calls (some 0) = b'.core.calls (some 1) := by
  let T : Core :=
    { attributes := { notFoundMessage := some "%command%?" }, transport := .fixed .null [] [] [] }
  let m : Message := ⟨"!x", some ⟨"u", "", []⟩, "c", none, .null⟩
  let m' : Message := { m with id := "1" }
  let b : Bot := { trigger := .literal "!", core := T }
  -- Nothing is registered and no level is set, before and after each operation.
  have hu {s s' : Core} (hr : s.registry = {} ∧ s'.registry = {})
      (hl : (s.levelSets ++ s'.levelSets).isEmpty = true) : s.Undisturbed s' := by
    obtain ⟨hl, hl'⟩ := List.append_eq_nil_iff.mp (List.isEmpty_iff.mp hl)
    exact ⟨hr.2.trans hr.1.symm, hl'.trans hl.symm⟩
  have h₀ : Bot.Session (.literal "!") T [] b := .start rfl rfl rfl fun _ => rfl
  have h₁ : Bot.Session (.literal "!") T [m] _ :=
    h₀.goes (.receive m) (hu ⟨rfl, rfl⟩ (by decide +kernel))
  have h₂ : Bot.Session (.literal "!") T [m] _ :=
    h₁.goes (.turn 0) (hu ⟨rfl, rfl⟩ (by decide +kernel))
  have h₂' : Bot.Session (.literal "!") T [m, m'] _ :=
    h₁.goes (.receive m') (hu ⟨rfl, rfl⟩ (by decide +kernel))
  have h₃' : Bot.Session (.literal "!") T [m, m'] _ :=
    h₂'.goes (.cancel 0) (hu ⟨rfl, rfl⟩ (by decide +kernel))
  have h₄' : Bot.Session (.literal "!") T [m, m'] _ :=
    h₃'.goes .settle (hu ⟨rfl, rfl⟩ (by decide +kernel))
  exact ⟨_, T, _, _, m, m', h₂, h₄', rfl, by decide, rfl,
    calls_isolated h₂ h₄' (m := m) (i := 0) (k := 1) rfl rfl rfl (fun c hc => nomatch hc) rfl rfl⟩

end ChatCommands
