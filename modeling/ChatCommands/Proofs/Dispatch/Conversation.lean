import ChatCommands.Proofs.Dispatch.Plan
import ChatCommands.Proofs.Dispatch.Step

/-!
# What a chain says and hears

While a run goes on, its lowest program calls commands and hears their answers; the programs of
those commands run above it, and other units may change the core between any two requests. Seen
from the lowest program all that remains of this is a conversation: calls and answers in turn.
The conversation of a chain is the one that its plan tells, whatever the commands do.

## Main definitions

* `Call`, `Talk`, `Run.talk`: calls and answers of the lowest program of a run
* `Run.Course`: a run that goes on, served by any cores
* `Base`, `Base.Goes`: the lowest program, and how it goes on
* `script`, `Reached`: the conversation of a plan

## Main results

* `Run.step_base`: a request of a run, seen from its lowest program
* `Run.Course.plays`: a run of a chain plays the calls of its plan
* `course_chainProgram`: the conversation of a chain is that of its plan
-/

namespace ChatCommands

/-- A call of a command. -/
structure Call where
  name : Setting
  arguments : List Setting
  chained : Bool

/-- What a program says or hears. -/
inductive Talk where
  | called (c : Call)
  | answered (a : Except Fault (Option String))

namespace Run

/-- What the lowest program of a run says and hears at the next request: it calls a command, which
may answer at once, or the command above it ends. -/
def talk (s : Core) (r : Run) : List Talk :=
  match r.frames, r.program with
  | [], .call name arguments chained _ =>
    .called ⟨name, arguments, chained⟩ ::
      match (s.dispatch r.event name arguments chained).2.2 with
      | .enter _ => []
      | .answered t => [.answered (.ok t)]
      | .failed f => [.answered (.error f)]
  | [_], .done (.ok v) => [.answered (.ok (some ((s.drainInto r.event v).2.2.getD "")))]
  | [f], .done (.error x) => [.answered (.error (s.notice r.event f.called x).2)]
  | _, _ => []

/-- A run goes on from `r₀`, each request served by any core with any gates open. The list is what
its lowest program has said and heard. -/
inductive Course (r₀ : Run) : List Talk → Run → Prop where
  | start : Course r₀ [] r₀
  | step {t : List Talk} {r r' : Run} (h : Course r₀ t r) (opened : Setting → Bool) (s : Core)
      (hr : (r.step opened s).2.rest = some r') : Course r₀ (t ++ r.talk s) r'

end Run

/-! ## The lowest program -/

/-- The lowest program of a run: it makes the next request, or it waits for an answer. -/
inductive Base where
  | ready (p : Program Value)
  | waiting (next : Except Fault (Option String) → Program Value)

/-- How a lowest program goes on. -/
inductive Base.Goes : Base → List Talk → Base → Prop where
  | act (a : Action) (next : a.Reply → Program Value) (reply : a.Reply) :
    Goes (.ready (.act a next)) [] (.ready (next reply))
  | wait (g : Setting) (next : Program Value) : Goes (.ready (.wait g next)) [] (.ready next)
  | call (name : Setting) (arguments : List Setting) (chained : Bool)
      (next : Except Fault (Option String) → Program Value) :
    Goes (.ready (.call name arguments chained next)) [.called ⟨name, arguments, chained⟩]
      (.waiting next)
  | callAnswered (name : Setting) (arguments : List Setting) (chained : Bool)
      (next : Except Fault (Option String) → Program Value) (a : Except Fault (Option String)) :
    Goes (.ready (.call name arguments chained next))
      [.called ⟨name, arguments, chained⟩, .answered a] (.ready (next a))
  | above (next : Except Fault (Option String) → Program Value) :
    Goes (.waiting next) [] (.waiting next)
  | answer (next : Except Fault (Option String) → Program Value)
      (a : Except Fault (Option String)) :
    Goes (.waiting next) [.answered a] (.ready (next a))

namespace Run

/-- The lowest program of a run. -/
def base (r : Run) : Base :=
  match r.frames.getLast? with
  | none => .ready r.program
  | some f => .waiting f.resume

@[simp] theorem base_nil (e : Event) (p : Program Value) (m : Manner) :
    base ⟨e, p, m, []⟩ = .ready p := rfl

/-- Above the lowest program it does not matter which program runs. -/
theorem base_of_frames {r : Run} {f : Frame} {fs : List Frame} (h : r.frames = f :: fs) :
    r.base = .waiting (fs.getLast?.getD f).resume := by
  simp [base, h, List.getLast?_cons]

@[simp] theorem base_cons (e : Event) (p : Program Value) (m : Manner) (f : Frame)
    (fs : List Frame) : base ⟨e, p, m, f :: fs⟩ = .waiting (fs.getLast?.getD f).resume :=
  base_of_frames rfl

/-- A request of a run, seen from its lowest program. -/
theorem step_base {opened : Setting → Bool} {s : Core} {r r' : Run}
    (h : (r.step opened s).2.rest = some r') : Base.Goes r.base (r.talk s) r'.base := by
  obtain ⟨e, p, m, fs⟩ := r
  -- A request is heard of only if the lowest program makes it, or if it ends the program that the
  -- lowest one waits for; hence the cases on the frames.
  cases p with
  | act a next =>
    obtain rfl := Option.some.inj h
    rcases fs with - | ⟨f, fs⟩
    · exact .act a next _
    · simpa [talk] using Base.Goes.above _
  | wait g next =>
    have hr : r' = ⟨e, next, m, fs⟩ := by
      simp only [step] at h
      split at h <;> exact (Option.some.inj h).symm
    subst hr
    rcases fs with - | ⟨f, fs⟩
    · exact .wait g next
    · simpa [talk] using Base.Goes.above _
  | call name arguments chained next =>
    simp only [step] at h
    split at h
    next s' e' c hd =>
      obtain ⟨r'', hr, -, -, -, hf⟩ := enter_rest ⟨e, .call name arguments chained next, m, fs⟩ e'
        name c arguments next
      obtain rfl := Option.some.inj (hr.symm.trans h)
      rw [base_of_frames hf]
      rcases fs with - | ⟨f, fs⟩
      · simpa [talk, hd] using Base.Goes.call name arguments chained next
      · simpa [talk, List.getLast?_cons] using Base.Goes.above _
    next s' e' t hd =>
      obtain rfl := Option.some.inj h
      rcases fs with - | ⟨f, fs⟩
      · simpa [talk, hd] using Base.Goes.callAnswered name arguments chained next (.ok t)
      · simpa [talk] using Base.Goes.above _
    next s' e' x hd =>
      obtain rfl := Option.some.inj h
      rcases fs with - | ⟨f, fs⟩
      · simpa [talk, hd] using Base.Goes.callAnswered name arguments chained next (.error x)
      · simpa [talk] using Base.Goes.above _
  | done result =>
    rcases fs with - | ⟨f, fs⟩
    · simp [step, Progress.rest] at h
    · obtain rfl := Option.some.inj h
      rcases fs with - | ⟨g, fs⟩
      · cases result with
        | ok v => exact .answer f.resume _
        | error x => exact .answer f.resume _
      · cases result <;> simpa [talk, leave, List.getLast?_cons] using Base.Goes.above _

end Run

/-! ## The conversation of a plan -/

/-- The call that is planned, once the calls before it are answered. -/
def PlannedCall.call (c : PlannedCall) (answers : List (Option String)) : Call :=
  ⟨c.name, c.given answers, c.chained⟩

/-- Calls and their answers in turn, behind earlier answers. -/
def script (before : List (Option String)) : List PlannedCall → List (Option String) → List Talk
  | c :: cs, a :: as =>
    .called (c.call before) :: .answered (.ok a) :: script (before ++ [a]) cs as
  | _, _ => []

/-- What a program does next. -/
inductive Ahead where
  | calls (c : Call)
  /-- It waits for the answer of a call. -/
  | hears
  | ends (result : Except Fault Value)

/-- What the lowest program of a run does next, unless it makes a request of another kind. -/
def Base.ahead : Base → Option Ahead
  | .ready (.call name arguments chained _) => some (.calls ⟨name, arguments, chained⟩)
  | .ready (.done result) => some (.ends result)
  | .waiting _ => some .hears
  | _ => none

/-- How far the conversation of planned calls has come, and what is next. The calls are made in
order, and answered in turn; with the last answer the result is that of the call `last`. A fault
is the result at once, and no call follows it. -/
inductive Reached (last : Option Nat) : List PlannedCall → List Talk → Ahead → Prop where
  | between {done rest : List PlannedCall} {c : PlannedCall} {as : List (Option String)}
      (hl : as.length = done.length) :
    Reached last (done ++ c :: rest) (script [] done as) (.calls (c.call as))
  | during {done rest : List PlannedCall} {c : PlannedCall} {as : List (Option String)}
      (hl : as.length = done.length) :
    Reached last (done ++ c :: rest) (script [] done as ++ [.called (c.call as)]) .hears
  | finished {calls : List PlannedCall} {as : List (Option String)}
      (hl : as.length = calls.length) :
    Reached last calls (script [] calls as) (.ends (.ok (.ofText? (answerOf as last))))
  | failed {done rest : List PlannedCall} {c : PlannedCall} {as : List (Option String)} {f : Fault}
      (hl : as.length = done.length) :
    Reached last (done ++ c :: rest)
      (script [] done as ++ [.called (c.call as), .answered (.error f)]) (.ends (.error f))

theorem script_snoc {before as : List (Option String)} {done : List PlannedCall} {c : PlannedCall}
    {a : Option String} (hl : as.length = done.length) :
    script before (done ++ [c]) (as ++ [a]) =
      script before done as ++ [.called (c.call (before ++ as)), .answered (.ok a)] := by
  induction done generalizing before as with
  | nil =>
    obtain rfl := List.eq_nil_of_length_eq_zero hl
    simp [script]
  | cons d done ih =>
    rcases as with - | ⟨b, as⟩
    · simp at hl
    · have hs := @ih (before ++ [b]) as (by simpa using hl)
      simp [script, hs]

/-- What is left of a program that plays calls and then answers. -/
def playOn (last : Option Nat) (as : List (Option String)) (rest : List PlannedCall) :
    Program Value :=
  play as rest >>= fun bs => pure (.ofText? (answerOf bs last))

/-- The lowest program of a run that plays calls, by what was said and heard. -/
inductive Plays (last : Option Nat) : List PlannedCall → List Talk → Base → Prop where
  | between {done rest : List PlannedCall} {as : List (Option String)}
      (hl : as.length = done.length) :
    Plays last (done ++ rest) (script [] done as) (.ready (playOn last as rest))
  | during {done rest : List PlannedCall} {c : PlannedCall} {as : List (Option String)}
      (hl : as.length = done.length) :
    Plays last (done ++ c :: rest) (script [] done as ++ [.called (c.call as)])
      (.waiting fun x => Program.done x >>= fun a => playOn last (as ++ [a]) rest)
  | failed {done rest : List PlannedCall} {c : PlannedCall} {as : List (Option String)} {f : Fault}
      (hl : as.length = done.length) :
    Plays last (done ++ c :: rest)
      (script [] done as ++ [.called (c.call as), .answered (.error f)])
      (.ready (.done (.error f)))

theorem playOn_cons (last : Option Nat) (as : List (Option String)) (c : PlannedCall)
    (rest : List PlannedCall) :
    playOn last as (c :: rest) = .call c.name (c.given as) c.chained fun x =>
      Program.done x >>= fun a => playOn last (as ++ [a]) rest := by
  simp only [playOn, play, Program.bind_assoc]
  rfl

namespace Plays

variable {last : Option Nat} {calls : List PlannedCall} {t u : List Talk} {b b' : Base}

/-- An answer ends the call that waits for it, and the plan goes on unless it is a fault. -/
theorem answered {done rest : List PlannedCall} {c : PlannedCall} {as : List (Option String)}
    (hl : as.length = done.length) (x : Except Fault (Option String)) :
    Plays last (done ++ c :: rest) (script [] done as ++ [.called (c.call as), .answered x])
      (.ready (Program.done x >>= fun a => playOn last (as ++ [a]) rest)) := by
  cases x with
  | error f => exact .failed hl
  | ok a =>
    have hs : script [] (done ++ [c]) (as ++ [a]) =
        script [] done as ++ [.called (c.call as), .answered (.ok a)] := script_snoc hl
    rw [← hs, ← List.singleton_append, ← List.append_assoc]
    exact .between (by simp [hl])

/-- Whatever comes next of a run keeps it playing its calls. -/
theorem goes (h : Plays last calls t b) (hb : Base.Goes b u b') : Plays last calls (t ++ u) b' := by
  cases h with
  | @between done rest as hl =>
    rcases rest with - | ⟨c, rest⟩
    · nomatch hb
    · -- The only request that the program can make is the next call of the plan.
      rw [playOn_cons] at hb
      cases hb with
      | call => exact .during hl
      | callAnswered _ _ _ _ x => exact answered hl x
  | @during done rest c as hl =>
    cases hb with
    | above => simpa using Plays.during hl
    | answer _ x => simpa using answered hl x
  | failed => nomatch hb

theorem reached (h : Plays last calls t b) : ∃ a, b.ahead = some a ∧ Reached last calls t a := by
  cases h with
  | @between done rest as hl =>
    rcases rest with - | ⟨c, rest⟩
    · exact ⟨_, rfl, by simpa using Reached.finished hl⟩
    · exact ⟨_, by rw [playOn_cons]; rfl, .between hl⟩
  | during hl => exact ⟨_, rfl, .during hl⟩
  | failed hl => exact ⟨_, rfl, .failed hl⟩

end Plays

/-- A run of a chain plays the calls of the plan at every moment. -/
theorem Run.Course.plays {c : Chain} {e : Event} {m : Manner} {t : List Talk} {r : Run}
    (h : Run.Course ⟨e, do return Value.ofText? (← chainProgram c), m, []⟩ t r) :
    Plays (plan c).2 (plan c).1 t r.base := by
  induction h with
  | start =>
    rw [Run.base_nil, chainProgram_eq_play, Program.bind_assoc]
    exact @Plays.between _ [] _ [] rfl
  | step _ opened s hr ih => exact ih.goes (Run.step_base hr)

/-- A call that does not reach its command is heard as an answer without a text. -/
theorem talk_bypassed {r : Run} {s : Core} {name : Setting} {arguments : List Setting}
    {chained : Bool} {next : Except Fault (Option String) → Program Value} {texts : List String}
    (hf : r.frames = []) (hp : r.program = .call name arguments chained next)
    (h : Bypassed s r.event name arguments chained texts) (hd : s.Takes r.event texts) :
    ∃ t, r.talk s = [.called ⟨name, arguments, chained⟩, .answered (.ok t)] ∧ t.getD "" = "" := by
  obtain ⟨t, ht, he⟩ := Core.dispatch_bypassed h hd
  refine ⟨t, ?_, he⟩
  simp only [Run.talk, hf, hp, ht]

/-- **The conversation of a chain** is at every moment that of its plan, whatever its commands do
and whoever changes the core in the meantime. A call that does not reach its command is answered
without a text and does not end it, unless its reply cannot be sent. -/
theorem course_chainProgram (c : Chain) (e : Event) (m : Manner) :
    (∀ {t : List Talk} {r : Run},
      Run.Course ⟨e, do return Value.ofText? (← chainProgram c), m, []⟩ t r →
        ∃ a, r.base.ahead = some a ∧ Reached (plan c).2 (plan c).1 t a) ∧
    ∀ {r : Run} {s : Core} {name : Setting} {arguments : List Setting} {chained : Bool}
      {next : Except Fault (Option String) → Program Value} {texts : List String},
      r.frames = [] → r.program = .call name arguments chained next →
      Bypassed s r.event name arguments chained texts → s.Takes r.event texts →
      ∃ t, r.talk s = [.called ⟨name, arguments, chained⟩, .answered (.ok t)] ∧
        t.getD "" = "" :=
  ⟨fun h => h.plays.reached, talk_bypassed⟩

/-- A sub-chain whose command answers, in an argument of a command that does not exist. -/
theorem course_chainProgram_nested :
    ∃ (c : Chain) (e : Event) (t : List Talk) (r : Run),
      c = [.call "f" [[.sub [.call "g" []]]]] ∧
      t = [.called ⟨"g", [], true⟩, .answered (.ok (some "x")), .called ⟨"f", ["x"], false⟩,
        .answered (.ok none)] ∧
      Run.Course ⟨e, do return Value.ofText? (← chainProgram c), .inline, []⟩ t r ∧
      (∃ a, r.base.ahead = some a ∧ Reached (plan c).2 (plan c).1 t a) ∧
      ∃ (s : Core) (r : Run) (x : Option String),
        Bypassed s r.event "f" ["x"] false [] ∧
        r.talk s = [.called ⟨"f", ["x"], false⟩, .answered (.ok x)] ∧ x.getD "" = "" := by
  let e : Event := { message := ⟨"", some ⟨"u", "", []⟩, "c", none, .null⟩ }
  let s : Core :=
    { attributes := {}, transport := .fixed .null [] [] []
      registry := ({} : Registry).register { name := "g" } .inline fun _ _ => pure (.text "x") }
  have h₂ : Run.Course ⟨e, do
      return Value.ofText? (← chainProgram [.call "f" [[.sub [.call "g" []]]]]), .inline, []⟩ _ _ :=
    (Run.Course.start.step (fun _ => true) s rfl).step (fun _ => true) s rfl
  have h₃ := h₂.step (fun _ => true) s rfl
  let r : Run := ⟨e, .call "f" ["x"] false fun _ => pure .null, .inline, []⟩
  have hb : Bypassed s r.event "f" ["x"] false [] := .missing rfl rfl
  have hd : s.Takes r.event [] := fun t ht => nomatch ht
  obtain ⟨x, hx, he⟩ := (course_chainProgram [] e .inline).2 (r := r) rfl rfl hb hd
  exact ⟨_, e, _, _, rfl, rfl, h₃, (course_chainProgram _ e .inline).1 h₃, s, r, x, hb, hx, he⟩

end ChatCommands
