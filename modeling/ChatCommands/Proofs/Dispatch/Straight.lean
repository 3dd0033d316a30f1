import ChatCommands.Proofs.Dispatch.Conversation

/-!
# Programs that let faults pass

A program may catch the fault with which a call is answered, and go on. The programs of chain texts
do not: a fault ends them, with that fault. Whatever such a program has called before, there is
nothing that it says or hears behind a fault, and no command is at work for it any more.

## Main definitions

* `Program.Straight`: a program that ends with the first fault that it hears
* `Base.Straight`: the same of the lowest program of a run

## Main results

* `Core.programOf_straight`: the program of a chain text lets faults pass
* `Run.Course.ends_with_fault`: a run whose lowest program has heard a fault can only end with it
-/

namespace ChatCommands

namespace Program

variable {α β : Type}

/-- A program that ends with the first fault that it hears of a call. -/
def Straight : Program α → Prop
  | done _ => True
  | act _ next => ∀ r, (next r).Straight
  | call _ _ _ next => (∀ f, next (.error f) = done (.error f)) ∧ ∀ t, (next (.ok t)).Straight
  | wait _ next => next.Straight

theorem pure_straight (a : α) : (pure a : Program α).Straight := trivial

theorem Straight.bind {p : Program α} {f : α → Program β} (hp : p.Straight)
    (hf : ∀ a, (f a).Straight) : (p >>= f).Straight := by
  show (p.bind f).Straight
  -- Induction on the first program; the second has its part only where the first is done.
  induction p with
  | done r =>
    cases r with
    | ok a => exact hf a
    | error x => trivial
  | act a next ih => exact fun r => ih r (hp r)
  | call name arguments chained next ih =>
    obtain ⟨hfault, hp⟩ := hp
    constructor
    · intro x
      show (next (.error x)).bind f = _
      rw [hfault x]
      rfl
    · intro t
      exact ih (.ok t) (hp t)
  | wait g next ih => exact ih hp

theorem callCommand_straight (name : Setting) (arguments : List Setting) (chained : Bool) :
    (callCommand name arguments chained).Straight := ⟨fun _ => rfl, fun _ => trivial⟩

end Program

theorem play_straight (answers : List (Option String)) (calls : List PlannedCall) :
    (play answers calls).Straight := by
  induction calls generalizing answers with
  | nil => trivial
  | cons c calls ih => exact (Program.callCommand_straight _ _ _).bind fun a => ih _

theorem simpleProgram_straight (c : Chain) : (simpleProgram c).Straight := by
  cases c with
  | nil => trivial
  | cons i c => exact Program.callCommand_straight _ _ _

namespace Core

variable (s : Core) (e : Event)

theorem programOfParsed_straight (x : Parsed) : (s.programOfParsed e x).2.Straight := by
  unfold programOfParsed
  rcases x.chain with f | c
  · trivial
  · dsimp only
    -- As a plan the chain is a sequence of calls, each of which passes its fault on.
    rw [chainProgram_eq_play]
    exact ((play_straight _ _).bind fun _ => Program.pure_straight _).bind fun _ =>
      Program.pure_straight _

/-- **The program of a chain text** lets faults pass, in both modes. -/
theorem programOf_straight (text : String) : (s.programOf e text).2.Straight := by
  unfold programOf
  split
  · exact s.programOfParsed_straight e _
  · exact (simpleProgram_straight _).bind fun _ => Program.pure_straight _

end Core

/-- A lowest program that ends with the first fault that it hears. -/
def Base.Straight : Base → Prop
  | .ready p => p.Straight
  | .waiting next => (∀ f, next (.error f) = .done (.error f)) ∧ ∀ t, (next (.ok t)).Straight

namespace Base

variable {b b' : Base} {u : List Talk}

/-- Behind an answer that is no fault the program lets faults pass as before; behind a fault it is
at its end. -/
theorem Straight.answered {next : Except Fault (Option String) → Program Value}
    (h : (waiting next).Straight) (a : Except Fault (Option String)) :
    (ready (next a)).Straight ∧ ∀ f, a = .error f → next a = .done (.error f) := by
  obtain ⟨hfault, hok⟩ := h
  cases a with
  | ok t => exact ⟨hok t, fun f hf => nomatch hf⟩
  | error x =>
    constructor
    · rw [hfault x]
      trivial
    · rintro f ⟨⟩
      exact hfault x

/-- How a lowest program goes on that lets faults pass: a fault is the last that it hears. -/
theorem Goes.straight (h : Goes b u b') (hb : b.Straight) :
    b'.Straight ∧ ∀ (t₀ : List Talk) (f : Fault) (t₁ : List Talk),
      u = t₀ ++ .answered (.error f) :: t₁ → t₁ = [] ∧ b' = .ready (.done (.error f)) := by
  cases h with
  | act a next reply => exact ⟨hb reply, fun t₀ f t₁ ht => by simp at ht⟩
  | wait g next => exact ⟨hb, fun t₀ f t₁ ht => by simp at ht⟩
  | above next => exact ⟨hb, fun t₀ f t₁ ht => by simp at ht⟩
  | call name arguments chained next =>
    refine ⟨hb, ?_⟩
    intro t₀ f t₁ ht
    rcases t₀ with - | ⟨x, t₀⟩
    · cases ht
    · simp at ht
  | callAnswered name arguments chained next a =>
    obtain ⟨hs, hfault⟩ := Straight.answered (show (waiting next).Straight from hb) a
    refine ⟨hs, ?_⟩
    intro t₀ f t₁ ht
    rcases t₀ with - | ⟨x, - | ⟨y, t₀⟩⟩
    · cases ht
    · obtain ⟨-, ht⟩ := List.cons.inj ht
      obtain ⟨ha, rfl⟩ := List.cons.inj ht
      exact ⟨rfl, congrArg ready (hfault f (Talk.answered.inj ha))⟩
    · simp at ht
  | answer next a =>
    obtain ⟨hs, hfault⟩ := Straight.answered hb a
    refine ⟨hs, ?_⟩
    intro t₀ f t₁ ht
    rcases t₀ with - | ⟨x, t₀⟩
    · obtain ⟨ha, rfl⟩ := List.cons.inj ht
      exact ⟨rfl, congrArg ready (hfault f (Talk.answered.inj ha))⟩
    · simp at ht

end Base

namespace Run

variable {r r' : Run} {t : List Talk}

/-- A request keeps the lowest program of a run as one that lets faults pass. -/
theorem step_straight {opened : Setting → Bool} {s : Core} (hr : r.base.Straight)
    (h : (r.step opened s).2.rest = some r') : r'.base.Straight :=
  ((step_base h).straight hr).1

/-- A run whose lowest program is at its end can only end. -/
theorem step_of_base_done {f : Fault} (h : r.base = .ready (.done (.error f)))
    (opened : Setting → Bool) (s : Core) : r.step opened s = (s, .ended r.event (.error f)) := by
  obtain ⟨e, p, m, fs⟩ := r
  rcases fs with - | ⟨g, fs⟩
  · obtain rfl := Base.ready.inj h
    rfl
  · rw [base_cons] at h
    cases h

/-- **A fault is the end of a run** whose lowest program lets faults pass: behind it nothing is said
or heard, and whatever core serves the next request, it changes nothing and ends the run. -/
theorem Course.ends_with_fault (h : Course r t r') (hr : r.base.Straight) {t₀ t₁ : List Talk}
    {f : Fault} (ht : t = t₀ ++ .answered (.error f) :: t₁) :
    t₁ = [] ∧ ∀ opened s, r'.step opened s = (s, .ended r'.event (.error f)) := by
  -- The induction needs that the lowest program lets faults pass at every point of the course.
  have hc : r'.base.Straight ∧ ∀ (t₀ : List Talk) (f : Fault) (t₁ : List Talk),
      t = t₀ ++ .answered (.error f) :: t₁ → t₁ = [] ∧ r'.base = .ready (.done (.error f)) := by
    clear ht
    induction h with
    | start => exact ⟨hr, fun t₀ f t₁ ht => by simp at ht⟩
    | @step t r₁ r₂ hcourse opened s hnext ih =>
      obtain ⟨hs, hend⟩ := ih
      obtain ⟨hs', hend'⟩ := (step_base hnext).straight hs
      refine ⟨hs', ?_⟩
      intro t₀ f t₁ ht
      rcases List.append_eq_append_iff.mp ht with ⟨a, ha, hu⟩ | ⟨a, ha, hu⟩
      · exact hend' a f t₁ hu
      · -- A run that heard a fault before has no request left that it could go on from.
        rcases a with - | ⟨x, a⟩
        · exact hend' [] f t₁ hu.symm
        · obtain ⟨rfl, -⟩ := List.cons.inj hu
          obtain ⟨-, hbase⟩ := hend t₀ f a ha
          rw [step_of_base_done hbase opened s] at hnext
          cases hnext
  obtain ⟨hnil, hbase⟩ := hc.2 t₀ f t₁ ht
  exact ⟨hnil, step_of_base_done hbase⟩

end Run

end ChatCommands
