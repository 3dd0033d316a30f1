import Mathlib.Logic.Relation
import ChatCommands.Bot
import ChatCommands.Proofs.Dispatch.Queue

/-!
# Lines that reach the final answer

Queued lines go in front of the next answer of any command of a chain, and with that answer they go
wherever it goes. The answer of the last command is the final one; that of any other is heard by
the chain, or by the program that called the command, and may be forgotten there, and the lines with
it. So what is in the queue reaches the user if nothing takes it out before the last command
answers.

## Main definitions

* `Outgoing.text`: the text of a message, or the caption of a file
* `Run.Loses`: a request that takes the queued lines elsewhere than into the final answer
* `Run.Saves`: a request that does not
* `Run.Kept`: the lines are in the queue still, or in the result of the run

## Main results

* `Run.Kept.step`: a request that does not lose the lines keeps them
* `queued_delivered`: lines that are not lost stand in front in the final answer
* `queued_lost`: a line that is lost
-/

namespace ChatCommands

open Relation (ReflTransGen)

/-- What is sent: the text of a message, or the caption of a file. -/
def Outgoing.text : Outgoing → Setting
  | reply _ t => t
  | file _ _ caption => caption
  | direct _ t => t

/-! ## The last answer of a plan -/

/-- Whether a command is called. -/
def Talk.isCall : Talk → Bool
  | called _ => true
  | answered _ => false

theorem script_calls {before as : List (Option String)} {done : List PlannedCall}
    (hl : as.length = done.length) : (script before done as).countP Talk.isCall = done.length := by
  induction done generalizing before as with
  | nil =>
    obtain rfl := List.eq_nil_of_length_eq_zero hl
    rfl
  | cons c done ih =>
    rcases as with - | ⟨a, as⟩
    · cases hl
    · have hrest := @ih (before ++ [a]) as (Nat.succ.inj hl)
      rw [script, List.countP_cons_of_pos rfl, List.countP_cons_of_neg Bool.false_ne_true, hrest]
      rfl

/-- Once all calls of a chain are made, the answer that is waited for is the result. -/
theorem Plays.last_answer {c : Chain} {t : List Talk}
    {next : Except Fault (Option String) → Program Value}
    (h : Plays (plan c).2 (plan c).1 t (.waiting next))
    (ht : t.countP Talk.isCall = (plan c).1.length) (a : Option String) :
    next (.ok a) = .done (.ok (.ofText? a)) := by
  have hlast : (plan c).1 ≠ [] → (plan c).2 = some ((plan c).1.length - 1) := by
    intro hne
    have hc : c ≠ [] := by
      rintro rfl
      exact hne rfl
    simpa [plan] using planChain_last_eq (1 < c.length) c hc 0 none
  generalize (plan c).1 = calls, (plan c).2 = last at h ht hlast
  cases h with
  | @during done rest d as hl =>
    have hrest : rest = [] := by
      rw [List.countP_append, script_calls hl, List.length_append] at ht
      simpa [Talk.isCall] using ht
    subst hrest
    have hlast : last = some as.length := by simpa [hl] using hlast
    show Program.bind _ _ = _
    simp [Program.bind, playOn, play, answerOf, hlast]
    rfl

/-! ## Requests that lose lines -/

/-- Lines that were queued behind others stand behind them in the text. -/
theorem Event.queuedText_of_prefix {e e' : Event} (h : e.queue <+: e'.queue) :
    ∃ rest, e'.queuedText = e.queuedText ++ rest := by
  obtain ⟨more, hmore⟩ := h
  refine ⟨String.join (more.map (· ++ "\n")), ?_⟩
  rw [queuedText, ← hmore, List.map_append, String.join_append]
  rfl

namespace Run

/-- A request that takes the queued lines elsewhere than into the final answer of a chain, behind
what the chain has said and heard: they are dropped, or they go in front of an answer that is not
that of the last call of the chain. -/
inductive Loses (c : Chain) (t : List Talk) (r : Run) : Prop where
  | drops {next : Unit → Program Value} (hp : r.program = .act .drain next)
  | merges {v : Setting} {f : Frame} {fs : List Frame} (hp : r.program = .done (.ok (.plain v)))
      (hf : r.frames = f :: fs)
      (hlast : ¬ (fs = [] ∧ t.countP Talk.isCall = (plan c).1.length))

/-- Where a request has nothing to do with the queue no line is lost. -/
theorem not_loses_of_spares {c : Chain} {t : List Talk} {r : Run}
    (h : r.program.sparesQueue = true) : ¬ r.Loses c t := by
  rintro (hp | ⟨hp, -, -⟩)
  all_goals
    rw [hp] at h
    cases h

/-- A request, served by any core with any gates open, that takes no queued lines elsewhere. What
the chain has said and heard stands in front. -/
def Saves (c : Chain) (a b : List Talk × Run) : Prop :=
  ¬ a.2.Loses c a.1 ∧ ∃ (opened : Setting → Bool) (s : Core),
    (a.2.step opened s).2.rest = some b.2 ∧ b.1 = a.1 ++ a.2.talk s

/-- The lines that were queued for an event are in the queue still, or stand in front in the result
with which the run ends. -/
inductive Kept (e : Event) (r : Run) : Prop where
  | queued (h : e.queue <+: r.event.queue)
  | answered {rest : String} (hf : r.frames = []) (hq : r.event.queue = [])
      (hp : r.program = .done (.ok (.text (e.queuedText ++ rest))))

/-- A run of a chain that comes to a value comes to a text, or to nothing. -/
theorem Course.answer {c : Chain} {e : Event} {m : Manner} {t : List Talk} {r : Run} {v : Value}
    (h : Course ⟨e, do return Value.ofText? (← chainProgram c), m, []⟩ t r) (hf : r.frames = [])
    (hp : r.program = .done (.ok v)) : ∃ answer, v = .ofText? answer := by
  obtain ⟨a, ha, hreached⟩ := h.plays.reached
  have hends : r.base.ahead = some (.ends (.ok v)) := by
    rw [base, hf, hp]
    rfl
  obtain rfl := Option.some.inj (hends.symm.trans ha)
  generalize (plan c).1 = calls at hreached
  cases hreached with
  | finished hl => exact ⟨_, rfl⟩

/-- **A request that does not lose the lines** keeps them. -/
theorem Kept.step {c : Chain} {t : List Talk} {e : Event} {r r' : Run} {opened : Setting → Bool}
    {s : Core} (hk : r.Kept e) (hplays : Plays (plan c).2 (plan c).1 t r.base)
    (hl : ¬ r.Loses c t) (h : (r.step opened s).2.rest = some r') : r'.Kept e := by
  cases hk with
  | answered hf hq hp =>
    -- A run that has its result makes no further request.
    rw [Run.step, hp, hf] at h
    cases h
  | queued hqueue =>
    cases step_handles h with
    | queues hp ht hq => exact .queued (hq ▸ hqueue.trans (List.prefix_append _ _))
    | drops hp ht hq => exact absurd (.drops hp) hl
    | spares hp ht hq => exact .queued (hq ▸ hqueue)
    | @merges v f fs hp hf ht hq hr hfs =>
      obtain ⟨rfl, hcalls⟩ : fs = [] ∧ t.countP Talk.isCall = (plan c).1.length :=
        Classical.byContradiction fun hlast => hl (.merges hp hf hlast)
      -- The lines go in front of the last answer, which is the result of the chain.
      rw [base_of_frames hf] at hplays
      obtain ⟨rest, hrest⟩ := Event.queuedText_of_prefix hqueue
      refine @answered e r' (rest ++ (Value.plain v).shown) hfs hq ?_
      rw [hr, ← String.append_assoc, ← hrest]
      exact hplays.last_answer hcalls _

theorem Kept.saves {c : Chain} {e : Event} {m : Manner} {d : Event} {a b : List Talk × Run}
    (h : ReflTransGen (Saves c) a b)
    (ha : Course ⟨e, do return Value.ofText? (← chainProgram c), m, []⟩ a.1 a.2)
    (hk : a.2.Kept d) :
    Course ⟨e, do return Value.ofText? (← chainProgram c), m, []⟩ b.1 b.2 ∧ b.2.Kept d := by
  induction h with
  | refl => exact ⟨ha, hk⟩
  | tail _ hstep ih =>
    obtain ⟨hcourse, hk⟩ := ih
    obtain ⟨hl, opened, s, hr, ht⟩ := hstep
    exact ⟨ht ▸ hcourse.step opened s hr, hk.step hcourse.plays hl hr⟩

end Run

/-! ## The final answer -/

theorem Event.finalCall_text {e : Event} {text : String} (h : text ≠ "") :
    ∃ o, e.finalCall text = some o ∧ o.text = .text text := by
  unfold finalCall
  split
  · exact ⟨_, rfl, rfl⟩
  · rw [if_neg h]
    exact ⟨_, rfl, rfl⟩

theorem Event.queuedText_ne {e : Event} (h : e.queue ≠ []) : e.queuedText ≠ "" := by
  rcases hq : e.queue with - | ⟨line, lines⟩
  · exact absurd hq h
  · intro ht
    have hlen := congrArg String.length ht
    simp [queuedText, hq, String.join_cons] at hlen

/-- **Queued lines are delivered** if they are not lost on the way. Let lines be in the queue at any
moment of the run of a chain. If nothing drops them from then on, and no program but that of the
last call of the chain answers with a value that is no message it has sent, then the final answer of
the run is sent, and its text begins with these lines. -/
theorem queued_delivered {c : Chain} {e : Event} {m : Manner} {t u : List Talk} {r r' : Run}
    {v : Value} (h : Run.Course ⟨e, do return Value.ofText? (← chainProgram c), m, []⟩ t r)
    (hq : r.event.queue ≠ []) (hs : ReflTransGen (Run.Saves c) (t, r) (u, r'))
    (hf : r'.frames = []) (hp : r'.program = .done (.ok v)) :
    ∃ (answer : Option String) (rest : String) (o : Outgoing), v = .ofText? answer ∧
      r'.event.queuedText ++ answer.getD "" = r.event.queuedText ++ rest ∧
      r'.event.finalCall (r'.event.queuedText ++ answer.getD "") = some o ∧
      o.text = .text (r.event.queuedText ++ rest) ∧
      ∀ s : Core, s.Delivers r'.event answer (s.deliver r'.event v).1
        (s.deliver r'.event v).2.1 := by
  obtain ⟨hcourse, hk⟩ := Run.Kept.saves (d := r.event) hs h (.queued (List.prefix_refl _))
  obtain ⟨answer, rest, rfl, htext⟩ : ∃ answer rest, v = .ofText? answer ∧
      r'.event.queuedText ++ answer.getD "" = r.event.queuedText ++ rest := by
    cases hk with
    | queued hqueue =>
      obtain ⟨more, hmore⟩ := Event.queuedText_of_prefix hqueue
      obtain ⟨answer, rfl⟩ := hcourse.answer hf hp
      exact ⟨answer, more ++ answer.getD "", rfl, by rw [hmore, String.append_assoc]⟩
    | @answered rest hf' hq' hp' =>
      obtain rfl : v = .text (r.event.queuedText ++ rest) :=
        Except.ok.inj (Program.done.inj (hp.symm.trans hp'))
      refine ⟨some (r.event.queuedText ++ rest), rest, rfl, ?_⟩
      rw [Event.queuedText, show r'.event.queue = [] from hq']
      simp
  have hne : r.event.queuedText ++ rest ≠ "" := by
    intro hempty
    exact Event.queuedText_ne hq (String.append_eq_empty_iff.mp hempty).1
  obtain ⟨o, ho, hotext⟩ := Event.finalCall_text (e := r'.event) hne
  exact ⟨answer, rest, o, rfl, htext, htext ▸ ho, hotext, fun s => s.deliver_delivers _ _⟩

/-- The first command of a chain queues a line and answers with a message that it has sent, so that
the line goes in front of what the second answers with. -/
theorem queued_delivered_message :
    ∃ (c : Chain) (e : Event) (t u : List Talk) (r r' : Run),
      c = [.call "a" [], .call "b" []] ∧
      Run.Course ⟨e, do return Value.ofText? (← chainProgram c), .inline, []⟩ t r ∧
      r.event.queue = ["x"] ∧ ReflTransGen (Run.Saves c) (t, r) (u, r') ∧ r'.frames = [] ∧
      r'.program = .done (.ok (.text "x\ny")) ∧
      ∃ (answer : Option String) (rest : String) (o : Outgoing),
        Value.text "x\ny" = .ofText? answer ∧
        r'.event.queuedText ++ answer.getD "" = r.event.queuedText ++ rest ∧
        r'.event.finalCall (r'.event.queuedText ++ answer.getD "") = some o ∧
        o.text = .text (r.event.queuedText ++ rest) ∧
        ∀ s : Core, s.Delivers r'.event answer (s.deliver r'.event (.text "x\ny")).1
          (s.deliver r'.event (.text "x\ny")).2.1 := by
  let c : Chain := [.call "a" [], .call "b" []]
  let e : Event := { message := ⟨"", some ⟨"u", "", []⟩, "c", none, .null⟩ }
  let speaks : Handler := fun _ _ => do
    Program.act (.append "x") pure
    return .sent (← Program.reply "z")
  let s : Core :=
    { attributes := {}, transport := .fixed .null [] [] []
      registry := (({} : Registry).register { name := "a" } .inline speaks).register { name := "b" }
        .inline fun _ _ => pure (.text "y") }
  -- The run as the first command ends, as it calls the second, as that ends, and at its end.
  let behind (rest : Chain) : Except Fault (Option String) → Program Value := fun x => do
    return Value.ofText? (← Program.done x >>= fun a => chainFrom true a rest)
  let e₁ : Event := { e with command := some { name := "a" }, queue := ["x"] }
  let e₂ : Event := { e₁ with command := some { name := "b" } }
  let r₁ : Run :=
    ⟨e₁, .done (.ok (.sent ⟨"z", "c", none⟩)), .inline, [⟨"a", .inline, behind [.call "b" []]⟩]⟩
  let r₂ : Run := ⟨e₁, .call "b" [] true (behind []), .inline, []⟩
  let r₃ : Run := ⟨e₂, .done (.ok (.text "y")), .inline, [⟨"b", .inline, behind []⟩]⟩
  let r₄ : Run := ⟨{ e₂ with queue := [] }, .done (.ok (.text "x\ny")), .inline, []⟩
  have hcourse : Run.Course ⟨e, do return Value.ofText? (← chainProgram c), .inline, []⟩ _ _ :=
    ((Run.Course.start.step (fun _ => true) s rfl).step (fun _ => true) s rfl).step
      (fun _ => true) s (show _ = some r₁ from rfl)
  have saves {t t' : List Talk} {r r' : Run} (hl : ¬ r.Loses c t)
      (hr : (r.step (fun _ => true) s).2.rest = some r') (ht : t' = t ++ r.talk s) :
      Run.Saves c (t, r) (t', r') :=
    ⟨hl, fun _ => true, s, hr, ht⟩
  let t₁ : List Talk := [.called ⟨"a", [], true⟩]
  let t₂ : List Talk := t₁ ++ [.answered (.ok (some ""))]
  let t₃ : List Talk := t₂ ++ [.called ⟨"b", [], true⟩]
  have h₂ : Run.Saves c (t₁, r₁) (t₂, r₂) := saves (Run.not_loses_of_spares rfl) rfl rfl
  have h₃ : Run.Saves c (t₂, r₂) (t₃, r₃) := saves (Run.not_loses_of_spares rfl) rfl rfl
  have h₄ : Run.Saves c (t₃, r₃) (t₃ ++ [.answered (.ok (some "x\ny"))], r₄) := by
    refine saves ?_ rfl rfl
    rintro (hp | ⟨-, hf, hlast⟩)
    · cases hp
    · cases hf
      exact hlast ⟨rfl, rfl⟩
  have hsaves := (ReflTransGen.single h₂).tail h₃ |>.tail h₄
  exact ⟨c, e, t₁, _, r₁, r₄, rfl, hcourse, rfl, hsaves, rfl, rfl,
    queued_delivered hcourse (List.cons_ne_nil _ _) hsaves rfl rfl⟩

/-- A command queues a line and answers with nothing, and another command answers behind it. The
line is taken out of the queue in front of the first answer, which nobody asks for: it is not
dropped, and it is not sent. -/
theorem queued_lost :
    ∃ (b b' : Bot) (m : Message), m.content = "!a>b" ∧ b' = (b.receive m).1.settle ∧
      b'.units.overview = [("ct-1", "done")] ∧
      .logged (.responseDelivered m.channel 1) ∈ b'.core.told (some 0) ∧
      b'.core.queueing (some 0) = [.queued "x", .merged ["x"], .merged [], .merged []] ∧
      (b'.core.journal.filterMap fun x =>
        match x.what with | .sent o => some o | _ => none) = [.reply "c" "y"] := by
  let queues : Handler := fun _ _ => do
    Program.act (.append "x") pure
    return .null
  let core : Core :=
    { attributes := { advanced := true }, transport := .fixed .null [] [] []
      registry := (({} : Registry).register { name := "a" } .inline queues).register { name := "b" }
        .inline fun _ _ => pure (.text "y") }
  exact ⟨{ trigger := .literal "!", core := core }, _,
    ⟨"!a>b", some ⟨"u", "", []⟩, "c", none, .null⟩, rfl, rfl, by decide +kernel,
    by decide +kernel, by decide +kernel, by decide +kernel⟩

end ChatCommands
