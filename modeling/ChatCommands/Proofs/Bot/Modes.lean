import ChatCommands.Proofs.Bot.Isolation
import ChatCommands.Proofs.Bot.Operations
import ChatCommands.Proofs.Dispatch.Modes

/-!
# Bots of the two modes

A chain text without symbols comes to the same in both modes of a bot. The bots ask the network for
the same in the same order, are left alike and give the same result. While the text is run, others
may have their turns: anything that goes on at the bot already, and anything that begins meanwhile
whose text holds no symbols either. A text with symbols that nobody has looked at yet would be read
in the mode of the bot, and two bots are not alike behind that.

## Main definitions

* `Bot.inMode`, `Bot.common`: a bot in a mode, and without its mode
* `Scheduler.Plain`: units without symbols in the texts that they have still to read
* `Run.among`: a run among others, who may do anything between its turns
* `InStep`: what the units of two bots share, which differ in their mode only

## Main results

* `Core.resumeJob_agree`: the turn of a job comes to the same in both modes
* `InStep.settle`: units have the same turns in both modes
* `runChain_modes`: a text without symbols comes to the same in both modes
-/

namespace ChatCommands

/-! ## Turns of jobs -/

/-- Whether a text that has still to be read holds no symbols. -/
def Job.Plain (y : Symbols) : Job → Prop
  | .chain text _ => y.Plain text.toList
  | _ => True

namespace Core

variable (opened : Setting → Bool)

theorem modeless_conclude (e : Event) (v : Except Fault Value) :
    Modeless fun s => s.conclude e v :=
  fun l m s => (modal l m).conclude s e v

theorem modeless_resumeRun (r : Run) : Modeless fun s => s.resumeRun opened r := by
  intro l m s
  have h := r.modeless_advance opened turnLength l m s
  simp only [resumeRun, h]
  rcases r.advance opened turnLength s with ⟨s', r' | ⟨g, r'⟩ | r' | ⟨e, v⟩⟩
  case ended => exact modeless_conclude e v l m s'
  all_goals rfl

theorem modeless_resumeStray (r : Run) : Modeless fun s => s.resumeStray opened r := by
  intro l m s
  have h := r.modeless_advance opened turnLength l m s
  simp only [resumeStray, h]
  rcases r.advance opened turnLength s with ⟨s', r' | ⟨g, r'⟩ | r' | ⟨e, v⟩⟩ <;> rfl

variable {s t : Core}

/-- **The turn of a job** comes to the same in both modes, unless it reads symbols. -/
theorem resumeJob_agree {j : Job} (h : s.common = t.common)
    (hj : j.Plain s.attributes.symbols) : Agree (s.resumeJob opened j) (t.resumeJob opened j) := by
  cases j with
  | run r => exact (modeless_resumeRun opened r).agree h
  | stray r => exact (modeless_resumeStray opened r).agree h
  | chain text e =>
    have hy : s.attributes.symbols = t.attributes.symbols := congrArg (·.attributes.symbols) h
    have hl := (modeless_log e.unit (.chainParsing text)).agree h
    -- Both read the same program, and neither looks at the mode from there.
    have hs := programOf_plain (s := s.log e.unit (.chainParsing text)) e hj
    have ht := programOf_plain (s := t.log e.unit (.chainParsing text)) e (hy ▸ hj)
    simp only [resumeJob, hs.result, ht.result]
    refine (modeless_resumeRun opened _).agree ?_
    exact hs.common.trans (hl.common.trans ht.common.symm)

/-- No request of a job changes the attributes. -/
theorem work_attributes (s : Core) (j : Job) : (s.work opened j).1.attributes = s.attributes := by
  cases j with
  | chain text e =>
    have h := programOf_keeps (s.log e.unit (.chainParsing text)) e text
    exact congrArg (·.attributes) h.tables
  | run r =>
    have h := r.step_attributes opened s
    simp only [work]
    generalize r.step opened s = q at h ⊢
    obtain ⟨s', p⟩ := q
    cases p with
    | ended e v => exact Eq.trans (congrArg (·.attributes) (s'.conclude_keeps e v).tables) h
    | _ => exact h
  | stray r => exact r.step_attributes opened s

/-- What is left of a job behind a request has been read. -/
theorem work_plain {j j' : Job} (y : Symbols) (h : (s.work opened j).2 = some j') :
    j'.Plain y := by
  cases j with
  | chain text e =>
    obtain rfl := Option.some.inj h
    trivial
  | run r =>
    simp only [work] at h
    generalize r.step opened s = q at h
    obtain ⟨s', p⟩ := q
    cases p with
    | ended e v => cases h
    | _ =>
      obtain rfl := Option.some.inj h
      trivial
  | stray r =>
    obtain ⟨r', -, rfl⟩ := Option.map_eq_some_iff.mp h
    trivial

/-- While a job goes on the attributes stay the same, and no symbols come up to be read. -/
theorem Works.plain {y : Symbols} {a b : Core × Option Job} (h : Works a b)
    (ha : ∀ j, a.2 = some j → j.Plain y) :
    b.1.attributes = a.1.attributes ∧ ∀ j, b.2 = some j → j.Plain y := by
  induction h with
  | refl => exact ⟨rfl, ha⟩
  | tail _ hw ih =>
    obtain ⟨opened, j, -, rfl⟩ := hw
    exact ⟨(work_attributes opened _ j).trans ih.1, fun _ => work_plain opened y⟩

end Core

/-! ## Turns of units -/

/-- Units without symbols in the texts that they have still to read. -/
def Scheduler.Plain (y : Symbols) (c : Scheduler Job) : Prop :=
  ∀ x ∈ c.standings, ∀ j, x.1 = some j → j.Plain y

namespace Scheduler

variable {y : Symbols} {c d : Scheduler Job}

theorem Plain.of_standings (h : c.Plain y) (hd : d.standings = c.standings) : d.Plain y := by
  rwa [Plain, hd]

theorem Plain.unit {i : Nat} {x : Option Job × Bool} {j : Job} (h : c.Plain y)
    (hi : c.standings[i]? = some x) (hj : x.1 = some j) : j.Plain y :=
  h x (List.mem_of_getElem? hi) j hj

/-- One unit stands elsewhere. -/
theorem Plain.modify {i : Nat} {f : Option Job × Bool → Option Job × Bool} (h : c.Plain y)
    (hd : d.standings = c.standings.modify i f)
    (hf : ∀ x j, (f x).1 = some j → j.Plain y) : d.Plain y := by
  intro x hx j hj
  rw [hd] at hx
  obtain ⟨k, hk⟩ := List.mem_iff_getElem?.mp hx
  rw [List.getElem?_modify] at hk
  obtain ⟨x', hx', rfl⟩ := Option.map_eq_some_iff.mp hk
  split at hj
  · exact hf x' j hj
  · exact h.unit hx' hj

end Scheduler

theorem Scheduler.leftRunning_rest {τ : Type} (t : Turn τ) :
    (leftRunning t).map Activity.rest = t.rest := by
  cases t <;> rfl

/-- What the units of two bots share, and the units, are the same but for the mode, and no unit has
symbols to read. -/
structure InStep (y : Symbols) (p q : Core × Scheduler Job) : Prop where
  agree : Core.Agree p q
  symbols : p.1.attributes.symbols = y
  plain : p.2.Plain y

namespace InStep

variable {y : Symbols} {s t : Core} {c d : Scheduler Job} {i : Nat}

theorem log (h : InStep y (s, c) (t, c)) (u : Option Nat) (l : LogEvent) :
    InStep y (s.log u l, c) (t.log u l, c) where
  agree := ⟨((Core.modeless_log u l).agree h.agree.common).common, rfl⟩
  symbols := h.symbols
  plain := h.plain

theorem units (h : InStep y (s, c) (t, c)) (hd : d.Plain y) : InStep y (s, d) (t, d) where
  agree := ⟨h.agree.common, rfl⟩
  symbols := h.symbols
  plain := hd

/-- What a turn has come to is taken down alike. -/
theorem settleTurn {τ : Turn Job} (h : InStep y (s, c) (t, c)) (label : Setting)
    (b : Option (Activity Job)) (hτ : ∀ j, τ.rest = some j → j.Plain y)
    (hb : ∀ a, b = some a → a.rest.Plain y) :
    InStep y (c.settleTurn botHost s i label b τ) (c.settleTurn botHost t i label b τ) := by
  have hset : (c.setStage i fun _ => .done).standings =
      c.standings.modify i fun _ => (none, false) := by
    rw [Scheduler.standings_setStage c i (g := fun _ => (none, false)) fun _ => rfl]
  have hdone : (c.setStage i fun _ => .done).Plain y := by
    refine h.plain.modify hset ?_
    intro x j hj
    cases hj
  have hgoOn (a : Activity Job) (ha : a.rest.Plain y) : (c.goOn i a).Plain y := by
    refine h.plain.modify (c.standings_goOn i a) ?_
    rintro x j ⟨⟩
    exact ha
  rcases τ with ⟨g, j⟩ | j | - | f | -
  · exact h.units (hgoOn (.blocked g j) (hτ j rfl))
  · exact h.units (hgoOn (.due j) (hτ j rfl))
  · exact h.units hdone
  · simp only [Scheduler.settleTurn]
    split
    · exact (h.units hdone).log (some i) _
    · exact h.units hdone
  · refine (h.units (h.plain.modify (c.standings_conclude i b) ?_)).log (some i) _
    intro x j hj
    obtain ⟨a, ha, rfl⟩ := Option.map_eq_some_iff.mp hj
    exact hb a ha

/-- A job has the same turn, and has read what it had to. -/
theorem resume {j : Job} (h : InStep y (s, c) (t, c)) (hj : j.Plain y) (opened : Setting → Bool) :
    InStep y ((s.resumeJob opened j).1, c) ((t.resumeJob opened j).1, c) ∧
      (s.resumeJob opened j).2 = (t.resumeJob opened j).2 ∧
      ∀ j', (s.resumeJob opened j).2.rest = some j' → j'.Plain y := by
  have ha := Core.resumeJob_agree opened h.agree.common (h.symbols.symm ▸ hj)
  obtain ⟨hattributes, hrest⟩ := (Core.works_resumeJob opened s j).plain (y := y) <| by
    rintro j' ⟨⟩
    exact hj
  refine ⟨⟨⟨ha.common, rfl⟩, ?_, h.plain⟩, ha.result, hrest⟩
  exact (congrArg Attributes.symbols hattributes).trans h.symbols

theorem turn {j : Job} (h : InStep y (s, c) (t, c)) (hj : j.Plain y) (opened : Setting → Bool)
    (label : Setting) :
    InStep y
      (c.settleTurn botHost (s.resumeJob opened j).1 i label none (s.resumeJob opened j).2)
      (c.settleTurn botHost (t.resumeJob opened j).1 i label none (t.resumeJob opened j).2) := by
  obtain ⟨hs, hresult, hrest⟩ := h.resume hj opened
  rw [← hresult]
  exact hs.settleTurn label none hrest fun _ h => nomatch h

theorem runBehind {j : Job} (h : InStep y (s, c) (t, c)) (hj : j.Plain y) :
    InStep y (c.runBehind botHost s i j) (c.runBehind botHost t i j) := by
  obtain ⟨hs, hresult, hrest⟩ := h.resume hj c.isOpen
  simp only [Scheduler.runBehind, botHost, ← hresult]
  refine hs.units (h.plain.modify (c.standings_conclude i _) ?_)
  intro x j' hj'
  exact hrest j' (Scheduler.leftRunning_rest _ ▸ hj')

/-- **A unit** has the same turn in both modes. -/
theorem takeTurn (h : InStep y (s, c) (t, c)) (i : Nat) :
    InStep y (c.takeTurn botHost s i) (c.takeTurn botHost t i) := by
  unfold Scheduler.takeTurn
  split
  · exact h
  next u hu =>
    have hi := Scheduler.standings_of_units hu
    rcases hstage : u.stage with j | a | - | - | a <;> rw [hstage] at hi
    · have hj : j.Plain y := h.plain.unit hi rfl
      dsimp only
      split
      · -- Nothing of the unit has begun, so nothing of it goes on.
        refine h.units (h.plain.modify (c.standings_conclude i none) ?_)
        intro x j' hj'
        cases hj'
      · exact h.turn hj c.isOpen u.label
    · have hj : a.rest.Plain y := h.plain.unit hi rfl
      dsimp only
      split
      · have hc := Scheduler.standings_set c i (u := { u with cancelling := false }) hu rfl
        simp only [hstage] at hc
        refine (h.units (h.plain.of_standings hc)).settleTurn u.label _ (fun _ h => nomatch h) ?_
        -- What runs on by itself is a program, and no text.
        intro b hb
        obtain ⟨j', hj', rfl⟩ := Option.map_eq_some_iff.mp hb
        obtain ⟨r, -, rfl⟩ := Job.behind_eq hj'
        cases a <;> trivial
      · exact h.turn hj c.isOpen u.label
    · exact h
    · exact h
    · exact h.runBehind (h.plain.unit hi rfl)

/-- **The units** have the same turns in both modes. -/
theorem settle (n : Nat) (h : InStep y (s, c) (t, c)) :
    InStep y (Scheduler.settle botHost n s c) (Scheduler.settle botHost n t c) := by
  induction n generalizing s t c with
  | zero => exact h
  | succ n ih =>
    rw [Scheduler.settle, Scheduler.settle]
    rcases hd : c.due with - | ⟨i, rest⟩
    · exact h
    · dsimp only
      have ht := (h.units (d := { c with due := rest }) h.plain).takeTurn i
      generalize Scheduler.takeTurn botHost s { c with due := rest } i = p at ht ⊢
      generalize Scheduler.takeTurn botHost t { c with due := rest } i = q at ht ⊢
      obtain ⟨s', c'⟩ := p
      obtain ⟨t', d'⟩ := q
      obtain rfl : c' = d' := ht.agree.result
      exact ih ht

end InStep

/-! ## Runs among others -/

/-- Whoever has a turn while a run lets others go first: what becomes of the core, and the gates
that are open when the run goes on. -/
structure Interlude where
  act : Core → Core
  opened : Setting → Bool

/-- What others do to the core does not depend on the mode. -/
def Interlude.Modeless (x : Interlude) : Prop :=
  ∀ s t : Core, s.common = t.common → (x.act s).common = (x.act t).common

/-- A run among others, who have their turns before each turn of the run. -/
def Run.among : List Interlude → Core → Run → Core × Progress
  | [], s, r => (s, .yielded r)
  | x :: xs, s, r =>
    match r.advance x.opened turnLength (x.act s) with
    | (s, .ended e v) => (s, .ended e v)
    | (s, .on r) => among xs s r
    | (s, .blocked _ r) => among xs s r
    | (s, .yielded r) => among xs s r

/-- **A run** comes to the same in both modes, whatever others do meanwhile. -/
theorem Run.among_agree {xs : List Interlude} (hx : ∀ x ∈ xs, x.Modeless) {s t : Core} (r : Run)
    (h : s.common = t.common) : Core.Agree (r.among xs s) (r.among xs t) := by
  induction xs generalizing s t r with
  | nil => exact ⟨h, rfl⟩
  | cons x xs ih =>
    obtain ⟨hact, hx⟩ := List.forall_mem_cons.mp hx
    have ha := (r.modeless_advance x.opened turnLength).agree (hact s t h)
    rw [among, among]
    generalize r.advance x.opened turnLength (x.act s) = p at ha ⊢
    generalize r.advance x.opened turnLength (x.act t) = q at ha ⊢
    obtain ⟨s', g⟩ := p
    obtain ⟨t', g'⟩ := q
    obtain rfl : g = g' := ha.result
    cases g with
    | ended e v => exact ⟨ha.common, rfl⟩
    | _ => exact ih hx _ ha.common

/-! ## Bots -/

namespace Bot

/-- The bot in a mode. -/
def inMode (b : Bot) (advanced : Bool) : Bot := { b with core := b.core.inMode advanced }

/-- What a bot has in common with one of the other mode. -/
def common (b : Bot) : Bot := { b with core := b.core.common }

/-- Bots that are the same but for the mode, and that have no symbols to read. -/
structure InStep (y : Symbols) (b b' : Bot) : Prop where
  shared : ChatCommands.InStep y (b.core, b.units) (b'.core, b'.units)
  trigger : b.trigger = b'.trigger
  timeout : b.timeout = b'.timeout

namespace InStep

variable {y : Symbols} {b b' : Bot}

theorem common (h : b.InStep y b') : b.common = b'.common := by
  have hc : b.core.common = b'.core.common := h.shared.agree.common
  have hu : b.units = b'.units := h.shared.agree.result
  rw [Bot.common, Bot.common, h.trigger, h.timeout, hc, hu]

/-- The cores go on to be the same. -/
theorem core {s t : Core} (h : b.InStep y b') (hc : s.common = t.common)
    (hs : s.attributes = b.core.attributes) :
    InStep y { b with core := s } { b' with core := t } where
  shared := ⟨⟨hc, h.shared.agree.result⟩, hs ▸ h.shared.symbols, h.shared.plain⟩
  trigger := h.trigger
  timeout := h.timeout

theorem settle (h : b.InStep y b') : b.settle.InStep y b'.settle := by
  obtain ⟨p, s, c, limit⟩ := b
  obtain ⟨p', t, c', limit'⟩ := b'
  obtain rfl : c = c' := h.shared.agree.result
  have hs := h.shared.settle turnLimit
  exact ⟨⟨⟨hs.agree.common, congrArg Scheduler.untrack hs.agree.result⟩, hs.symbols, hs.plain⟩,
    h.trigger, h.timeout⟩

/-- A run for an event that was made by hand goes on alike, and so does everything else. -/
theorem finish (n : Nat) (h : b.InStep y b') (r : Run) :
    InStep y (Bot.finish n b r).1 (Bot.finish n b' r).1 ∧
      (Bot.finish n b r).2 = (Bot.finish n b' r).2 := by
  induction n generalizing b b' r with
  | zero => exact ⟨h, rfl⟩
  | succ n ih =>
    have hu : b.units = b'.units := h.shared.agree.result
    have ha : Core.Agree (r.advance b.units.isOpen turnLength b.core)
        (r.advance b'.units.isOpen turnLength b'.core) := by
      rw [hu]
      exact (r.modeless_advance b'.units.isOpen turnLength).agree h.shared.agree.common
    have hy := r.advance_attributes b.units.isOpen turnLength b.core
    rw [Bot.finish, Bot.finish]
    generalize r.advance b.units.isOpen turnLength b.core = x at ha hy ⊢
    generalize r.advance b'.units.isOpen turnLength b'.core = x' at ha ⊢
    obtain ⟨s, g⟩ := x
    obtain ⟨t, g'⟩ := x'
    obtain rfl : g = g' := ha.result
    have hcore := h.core ha.common hy
    cases g with
    | yielded r' => exact ih hcore.settle r'
    | _ => exact ⟨hcore, rfl⟩

theorem runProgram (h : b.InStep y b') (e : Event) (program : Program Value) :
    InStep y (b.runProgram e program).1 (b'.runProgram e program).1 ∧
      (b.runProgram e program).2 = (b'.runProgram e program).2 := by
  have hf := h.finish turnLimit ⟨e, program, .inline, []⟩
  unfold Bot.runProgram runToEnd
  generalize Bot.finish turnLimit b ⟨e, program, .inline, []⟩ = x at hf ⊢
  generalize Bot.finish turnLimit b' ⟨e, program, .inline, []⟩ = x' at hf ⊢
  obtain ⟨d, o⟩ := x
  obtain ⟨d', o'⟩ := x'
  obtain ⟨hd, rfl⟩ := hf
  rcases o with - | ⟨e', v⟩ <;> exact ⟨hd, rfl⟩

end InStep

end Bot

theorem Bot.runChain_text (b : Bot) (e : Event) (text : String) :
    b.runChain e (.text text) =
      { b with core := (b.core.programOf e text).1 }.runProgram e (b.core.programOf e text).2 := by
  have h : b.core.programOfGiven e (.text text) = b.core.programOf e text := rfl
  rw [runChain, h]

/-- **The two modes agree on texts without symbols.** Such a text is parsed as its words. Its run
comes to the same in both modes, whatever others do to the core of the bot between its turns. And if
no unit has symbols to read, the whole bot is left the same but for its mode, with the same event
and the same result. -/
theorem runChain_modes (b : Bot) (e : Event) (text : String)
    (ht : b.core.attributes.symbols.Plain text.toList) :
    parseChain b.core.attributes text = ⟨[], .ok (parseSimple text)⟩ ∧
      (∀ others : List Interlude, (∀ x ∈ others, x.Modeless) →
        let outcome (advanced : Bool) : Core × Progress :=
          let (s, program) := (b.core.inMode advanced).programOf e text
          Run.among others s { event := e, program := program }
        Core.Agree (outcome true) (outcome false)) ∧
      (b.units.Plain b.core.attributes.symbols →
        let outcome (advanced : Bool) := (b.inMode advanced).runChain e (.text text)
        (outcome true).1.common = (outcome false).1.common ∧
          (outcome true).2 = (outcome false).2) := by
  have hp (advanced : Bool) := Core.programOf_plain (s := b.core.inMode advanced) e ht
  have hcommon : ((b.core.inMode true).programOf e text).1.common =
      ((b.core.inMode false).programOf e text).1.common :=
    (hp true).common.trans (hp false).common.symm
  have hprogram : ((b.core.inMode true).programOf e text).2 =
      ((b.core.inMode false).programOf e text).2 :=
    (hp true).result.trans (hp false).result.symm
  refine ⟨parseChain_plain ht, ?_, ?_⟩
  · intro others hothers
    dsimp only
    rw [hprogram]
    exact Run.among_agree hothers _ hcommon
  · intro hunits
    have hy := congrArg (·.attributes.symbols)
      ((b.core.inMode true).programOf_keeps e text).tables
    have hstart : Bot.InStep b.core.attributes.symbols
        { b with core := ((b.core.inMode true).programOf e text).1 }
        { b with core := ((b.core.inMode false).programOf e text).1 } :=
      ⟨⟨⟨hcommon, rfl⟩, hy, hunits⟩, rfl, rfl⟩
    have hrun := hstart.runProgram e ((b.core.inMode true).programOf e text).2
    dsimp only
    rw [Bot.runChain_text, Bot.runChain_text]
    simp only [Bot.inMode, hprogram] at hrun ⊢
    exact ⟨hrun.1.common, hrun.2⟩

/-- A text that holds the ends of sub-chains and of quotes runs a program on a thread. Before it
goes on, a unit has its turn whose text was not read until then; or somebody else takes all names
from their commands. -/
theorem runChain_modes_thread :
    ∃ (b : Bot) (e : Event) (text : String) (x : Interlude),
      b.core.attributes.symbols.Plain text.toList ∧ b.units.Plain b.core.attributes.symbols ∧
      (((b.inMode true).runChain e (.text text)).1.core.journal.filterMap fun h =>
        match h.what with | .sent o => some o | _ => none) =
          [.reply "c" "other?", .reply "d" "]'"] ∧
      parseChain b.core.attributes text = ⟨[], .ok (parseSimple text)⟩ ∧
      (let outcome (advanced : Bool) : Core × Progress :=
        let (s, program) := (b.core.inMode advanced).programOf e text
        Run.among [x, x] s { event := e, program := program }
      Core.Agree (outcome true) (outcome false)) ∧
      ((b.inMode true).runChain e (.text text)).1.common =
        ((b.inMode false).runChain e (.text text)).1.common ∧
      ((b.inMode true).runChain e (.text text)).2 =
        ((b.inMode false).runChain e (.text text)).2 := by
  let bare := Bot.build (.fixed .null [] [] []) (.literal "!")
    { notFoundMessage := some "%command%?",
      symbols := { argsDelimiter := ' ', quoteEnd := '\'' } } .null
  let idle := (bare.registerInfo { name := "say" } .thread fun _ arguments => do
    let _ ← Program.reply (arguments.headD .null)
    return .text "done").1
  let b := (idle.receive ⟨"!other\t]", some ⟨"u", "", []⟩, "c", none, .null⟩).1
  let e : Event := { message := ⟨"", some ⟨"v", "", []⟩, "d", none, .null⟩ }
  let x : Interlude := { act := fun s => { s with registry := {} }, opened := fun _ => true }
  have hx : x.Modeless := fun s t h => congrArg (fun s : Core => { s with registry := {} }) h
  have hunits : b.units.Plain b.core.attributes.symbols := by
    intro y hy j hj
    obtain rfl := List.mem_singleton.mp hy
    obtain rfl := Option.some.inj hj
    have ht : Symbols.Plain { argsDelimiter := ' ', quoteEnd := '\'' } "other\t]".toList := by
      decide +kernel
    exact ht
  obtain ⟨hparse, hothers, hbots⟩ := runChain_modes b e "\tsay\t]'\t'\n" (by decide +kernel)
  exact ⟨b, e, _, x, by decide +kernel, hunits, by decide +kernel, hparse,
    hothers [x, x] (by simpa using hx), hbots hunits⟩

end ChatCommands
