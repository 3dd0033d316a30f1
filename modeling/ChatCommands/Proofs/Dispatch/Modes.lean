import ChatCommands.Proofs.Chain.Words
import ChatCommands.Proofs.Dispatch.Guise
import ChatCommands.Proofs.Dispatch.Step

/-!
# The two modes of a bot

A bot reads chain texts with the whole grammar or as words, and that is all that its mode decides.
Two cores that have everything in common but the mode go on to have it in common, whatever is asked
of them, and they answer alike. Only in advanced mode it is reported how many invocations were read,
so these reports are left out of what cores have in common.

That an operation does not look at the mode is not proved for each operation anew: it commutes with
every guise, so that two cores in different guises are two guises of what comes out of the core
below them.

## Main definitions

* `Core.common`: a core without its mode
* `Core.Modeless`: an operation that does not look at the mode
* `Core.Agree`: outcomes that are the same but for the mode

## Main results

* `Core.Modeless.agree`: operations that do not look at the mode have the same outcome in both
* `Run.modeless_advance`: a run does not look at the mode
* `Core.programOf_plain`: a text without symbols makes the same program in both modes
-/

namespace ChatCommands

/-- Whether something is the report that a chain text was read with the whole grammar. -/
def Happening.isChainParsed : Happening → Bool
  | logged (.chainParsed _) => true
  | _ => false

/-- The entries of a journal that are made in both modes. -/
def modelessEntries (l : List Entry) : List Entry := l.filter fun x => !x.what.isChainParsed

namespace Core

/-- The core in a mode. -/
def inMode (s : Core) (advanced : Bool) : Core :=
  { s with attributes := { s.attributes with advanced := advanced } }

/-- What a core has in common with one of the other mode. -/
def common (s : Core) : Core :=
  { s.inMode false with journal := modelessEntries s.journal }

/-- Outcomes that are the same but for the mode. -/
structure Agree {α : Type} (p q : Core × α) : Prop where
  common : p.1.common = q.1.common
  result : p.2 = q.2

/-- The guise behind a journal and in a mode. -/
def modal (l : List Entry) (m : Bool) : Guise := { before := l, advanced := fun _ => m }

/-- An operation that does not look at the mode, nor at the journal. -/
def Modeless {α : Type} (f : Core → Core × α) : Prop :=
  ∀ l m s, f ((modal l m).core s) = ((modal l m).core (f s).1, (f s).2)

theorem Agree.refl {α : Type} (p : Core × α) : Agree p p := ⟨rfl, rfl⟩

variable {s t : Core}

theorem modal_self (s : Core) :
    (modal s.journal s.attributes.advanced).core s.tables = s := by
  simp [modal, Guise.core, tables]

/-- Cores that have all but the mode in common are guises of the same core. -/
theorem modal_of_common (h : s.common = t.common) :
    (modal t.journal t.attributes.advanced).core s.tables = t := by
  have ha : { s.attributes with advanced := t.attributes.advanced } = t.attributes :=
    congrArg (fun c : Core => { c.attributes with advanced := t.attributes.advanced }) h
  have ht : s.transport = t.transport := congrArg (·.transport) h
  have hr : s.registry = t.registry := congrArg (·.registry) h
  have hl : s.levels = t.levels := congrArg (·.levels) h
  simp [modal, Guise.core, tables, ha, ht, hr, hl]

theorem common_modal (l : List Entry) (m : Bool) (s : Core) :
    ((modal l m).core s).common =
      { s.common with journal := modelessEntries l ++ modelessEntries s.journal } := by
  have he : s.journal.map (modal l m).entry = s.journal := List.map_id' _
  simp only [Guise.core, common, inMode, modelessEntries, he]
  rw [← List.filter_append]
  rfl

/-- **An operation that does not look at the mode** has the same outcome in both. -/
theorem Modeless.agree {α : Type} {f : Core → Core × α} (hf : Modeless f)
    (h : s.common = t.common) : Agree (f s) (f t) := by
  have hj : modelessEntries s.journal = modelessEntries t.journal := congrArg journal h
  have hs := hf s.journal s.attributes.advanced s.tables
  have ht := hf t.journal t.attributes.advanced s.tables
  rw [modal_self] at hs
  rw [modal_of_common h] at ht
  rw [hs, ht]
  refine ⟨?_, rfl⟩
  rw [common_modal, common_modal, hj]

/-! ## Operations that do not look at the mode -/

theorem modeless_log (u : Option Nat) (l : LogEvent) :
    Modeless fun s => (s.log u l, ()) := by
  intro b m s
  rw [← (modal b m).log s u l]
  rfl

end Core

namespace Run

variable (opened : Setting → Bool)

/-- Nothing of an event tells the mode. -/
theorem progress_modal (l : List Entry) (m : Bool) (p : Progress) :
    (Core.modal l m).progress p = p := by
  cases p <;> rfl

theorem modeless_step (r : Run) : Core.Modeless (r.step opened) := by
  intro l m s
  have h := (Core.modal l m).step s opened r fun _ _ => rfl
  rwa [progress_modal] at h

/-- **A run** does not look at the mode. -/
theorem modeless_advance (n : Nat) (r : Run) :
    Core.Modeless fun s => r.advance opened n s := by
  intro l m s
  induction n generalizing r s with
  | zero => rfl
  | succ n ih =>
    have h := modeless_step opened r l m s
    simp only [advance, h]
    generalize r.step opened s = q at h ⊢
    obtain ⟨s', p⟩ := q
    cases p with
    | on r' => exact ih r' s'
    | _ => rfl

end Run

/-! ## Texts without symbols -/

/-- The program of the words of a text. -/
def wordsProgram (text : String) : Program Value := do
  return Value.ofText? (← simpleProgram (parseSimple text))

/-- **A text without symbols** makes the program of its words in either mode. -/
theorem Core.programOf_plain {s : Core} {text : String} (e : Event)
    (h : s.attributes.symbols.Plain text.toList) :
    Agree (s.programOf e text) (s, wordsProgram text) := by
  unfold programOf
  split
  · -- In advanced mode the number of invocations is reported, and nothing else.
    simp only [parseChain_plain h, programOfParsed, chainProgram_parseSimple]
    refine ⟨?_, rfl⟩
    simp [common, log, record, logAll, inMode, modelessEntries, Happening.isChainParsed]
  · exact .refl _

/-! ## What a run cannot change -/

theorem Core.serve_attributes (s : Core) (e : Event) (a : Action) :
    (s.serve e a).1.attributes = s.attributes := by
  have hk {s' : Core} (h : s.Keeps s') : s'.attributes = s.attributes :=
    congrArg (·.attributes) h.tables
  have hw (levels : Except Fault Levels) (l : LogEvent) :
      (s.withLevels e levels l).1.attributes = s.attributes := by
    cases levels <;> rfl
  cases a with
  | reply t => exact hk (s.send_keeps e (.reply e.channel t))
  | direct t =>
    simp only [serve]
    split
    · rfl
    next u _ => exact hk (s.send_keeps e (.direct u.id t))
  | file n c => exact hk (s.send_keeps e (.file e.channel n c))
  | setUser id n => exact hw _ _
  | setRole id n => exact hw _ _
  | unregister n =>
    simp only [serve]
    split <;> rfl
  | _ => rfl

theorem Run.step_attributes (opened : Setting → Bool) (s : Core) (r : Run) :
    (r.step opened s).1.attributes = s.attributes := by
  rcases r.step_tables opened s with ⟨a, next, hp⟩ | ht
  · simp only [step, hp]
    exact s.serve_attributes r.event a
  · exact congrArg (·.attributes) ht

/-- The attributes stay the same, whatever runs. -/
theorem Run.advance_attributes (opened : Setting → Bool) (n : Nat) (s : Core) (r : Run) :
    (r.advance opened n s).1.attributes = s.attributes := by
  induction n generalizing s r with
  | zero => rfl
  | succ n ih =>
    have h := r.step_attributes opened s
    rw [advance]
    generalize r.step opened s = q at h ⊢
    obtain ⟨s', p⟩ := q
    cases p with
    | on r' => exact (ih s' r').trans h
    | _ => exact h

end ChatCommands
