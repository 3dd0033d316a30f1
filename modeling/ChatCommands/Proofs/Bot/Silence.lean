import ChatCommands.Proofs.Bot.Isolation
import ChatCommands.Proofs.Bot.Operations
import ChatCommands.Proofs.Dispatch.Outcome
import ChatCommands.Proofs.Dispatch.Requests

/-!
# Nothing is said in no words

What the bot says by itself are the replies of the gate, the notice of a missing permission and the
final answer. Where there is nothing to say it stays silent, and sends no empty text. There are two
ways in which it does send one. The notice is sent as it stands, also if it is empty; and a template
that consists of marks for a name is not empty, but what it says of the empty name is.

What a program asks to be sent is its own affair: it is sent as it is.

## Main definitions

* `Voiceless`: templates that say nothing of a name
* `Happening.isWorded`: nothing was said without words
* `Run.asksFor`: what a program asks to be sent
* `Core.AnswersJob`, `Core.Worded`: there are words for what is to be said at a request, and at all
* `Scene.Speaks`: what the bot says by itself in a step has words

## Main results

* `templateReply_worded`: a reply from a template
* `Core.work_worded`: a request of a job
* `core_speaks_in_words`: every step speaks in words, and so does whatever happens at a bot
* `core_speaks_no_words`: a notice without words
-/

namespace ChatCommands

/-! ## Templates -/

/-- A template says nothing of a name: it consists of marks, and the name is empty. -/
def Voiceless (mark : String) (template name : Setting) : Prop :=
  name = .text "" ∧ ∃ t, template = .text t ∧ OnlyMarks mark.toList t.toList

theorem eq_text_of_text? {v : Setting} {s : String} (h : v.text? = some s) : v = .text s := by
  unfold Setting.text? at h
  split at h
  · obtain rfl := Option.some.inj h
    rfl
  · cases h

/-- A reply from a template has words, unless the template says nothing of the name. -/
theorem templateReply_worded {template name : Setting} {mark : String} {texts : List String}
    (hm : mark ≠ "") (h : templateReply template mark name = .ok texts)
    (hv : ¬Voiceless mark template name) : ∀ x ∈ texts, x ≠ "" := by
  unfold templateReply at h
  split at h
  next hc =>
    split at h
    next t n ht hn =>
      obtain rfl := Except.ok.inj h
      obtain rfl := eq_text_of_text? ht
      obtain rfl := eq_text_of_text? hn
      refine List.forall_mem_singleton.mpr fun hempty => ?_
      obtain rfl | ⟨rfl, hmarks⟩ := (fill_eq_empty_iff hm n t).mp hempty
      · exact absurd hc (by decide)
      · exact hv ⟨rfl, t, rfl, hmarks⟩
    next => cases h
    next => cases h
  next =>
    obtain rfl := Except.ok.inj h
    exact nofun

/-! ## What is said -/

/-- What is sent is no reply without words. -/
def Outgoing.isWorded : Outgoing → Bool
  | .reply _ t => t.text?.any (· ≠ "")
  | _ => true

/-- Nothing was said without words. -/
def Happening.isWorded : Happening → Bool
  | .sent o => o.isWorded
  | .unsent o => o.isWorded
  | _ => true

theorem Outgoing.isWorded_reply (ch : Id) {x : String} (h : x ≠ "") :
    (Outgoing.reply ch x).isWorded = true := decide_eq_true h

theorem Sends.worded {t : Transport} {ch : Id} {texts : List String} {l : List Happening}
    {r : Except Fault Unit} (hs : Sends t ch texts l r) (h : ∀ x ∈ texts, x ≠ "") :
    ∀ y ∈ l, y.isWorded = true := by
  have hsent {texts : List String} (h : ∀ x ∈ texts, x ≠ "") :
      ∀ y ∈ texts.map fun x : String => Happening.sent (.reply ch x), y.isWorded = true := by
    intro y hy
    obtain ⟨x, hx, rfl⟩ := List.mem_map.mp hy
    exact Outgoing.isWorded_reply ch (h x hx)
  cases hs with
  | all => exact hsent h
  | fails =>
    obtain ⟨hbefore, hx⟩ := List.forall_mem_append.mp h
    refine List.forall_mem_append.mpr ⟨hsent hbefore, List.forall_mem_singleton.mpr ?_⟩
    exact Outgoing.isWorded_reply ch (hx _ List.mem_cons_self)

/-- What begins with words has words. -/
theorem append_ne_empty {a b : String} (h : a ≠ "") : a ++ b ≠ "" := fun hab =>
  h (String.append_eq_empty_iff.mp hab).1

theorem CommandInfo.usageLine_worded (c : CommandInfo) : ∀ x ∈ c.usageLine, x ≠ "" := by
  unfold usageLine
  split
  · exact List.forall_mem_singleton.mpr (append_ne_empty (append_ne_empty (by decide)))
  · exact nofun

theorem Refusal.worded {c : CommandInfo} {n : Nat} {chained : Bool} {texts : List String}
    (h : Refusal c n chained texts) : ∀ x ∈ texts, x ≠ "" := by
  have hline {a b : String} (h : a ≠ "") : a ++ c.name.shown ++ b ≠ "" :=
    append_ne_empty (append_ne_empty h)
  cases h with
  | few => exact List.forall_mem_cons.mpr ⟨hline (by decide), c.usageLine_worded⟩
  | many => exact List.forall_mem_cons.mpr ⟨hline (by decide), c.usageLine_worded⟩
  | inChain => exact List.forall_mem_singleton.mpr (hline (by decide))

/-! ## What the core says -/

/-- There are words for all that is to be said of a call of a name. -/
structure Core.Answers (s : Core) (name : Setting) : Prop where
  notice : s.attributes.noPermissionMessage ≠ some ""
  missing : s.registry.get name = .ok none →
    ¬Voiceless "%command%" (.ofText? s.attributes.notFoundMessage) name
  denied : ∀ c, s.registry.get name = .ok (some c) → ¬Voiceless "%name%" c.permissionMessage name

section Outcomes

variable {s : Core} {e e' : Event} {name : Setting} {c : Command} {arguments : List Setting}
  {chained : Bool} {l : List Happening} {v : Verdict} {f g : Fault}

theorem Noticed.worded (h : Noticed s e name f l g)
    (hm : f.isNoPermission = true → s.attributes.noPermissionMessage ≠ some "") :
    ∀ y ∈ l, y.isWorded = true := by
  have htexts {m : String} (hf : f.isNoPermission = true)
      (h : s.attributes.noPermissionMessage = some m) : ∀ x ∈ [m], x ≠ "" := by
    refine List.forall_mem_singleton.mpr ?_
    rintro rfl
    exact hm hf h
  cases h with
  | other => exact nofun
  | silent => exact List.forall_mem_singleton.mpr rfl
  | told hf h hs => exact List.forall_mem_cons.mpr ⟨rfl, hs.worded (htexts hf h)⟩
  | untold hf h hs => exact List.forall_mem_cons.mpr ⟨rfl, hs.worded (htexts hf h)⟩

theorem BoundOutcome.worded (h : BoundOutcome s e name c arguments chained l e' v)
    (hv : ¬Voiceless "%name%" c.permissionMessage name) : ∀ y ∈ l, y.isWorded = true := by
  have hasked (asked : List Setting) :
      ∀ y ∈ asked.map (Happening.asked e.authorId), y.isWorded = true := by
    intro y hy
    obtain ⟨a, -, rfl⟩ := List.mem_map.mp hy
    rfl
  cases h with
  | entered => exact List.forall_mem_append.mpr ⟨hasked _, List.forall_mem_singleton.mpr rfl⟩
  | refused _ hr hs => exact List.forall_mem_append.mpr ⟨hasked _, hs.worded hr.worded⟩
  | uncounted => exact hasked _
  | denied _ ht hs =>
    refine List.forall_mem_append.mpr ⟨hasked _, List.forall_mem_cons.mpr ⟨rfl, ?_⟩⟩
    exact hs.worded (templateReply_worded (by decide) ht hv)
  | unanswered => exact List.forall_mem_append.mpr ⟨hasked _, List.forall_mem_singleton.mpr rfl⟩
  | unauthorised => exact hasked _

theorem CallOutcome.worded (h : CallOutcome s e name arguments chained l e' v)
    (ha : s.Answers name) : ∀ y ∈ l, y.isWorded = true := by
  cases h with
  | unlooked => exact List.forall_mem_singleton.mpr rfl
  | missing hg ht hs =>
    refine List.forall_mem_cons.mpr ⟨rfl, List.forall_mem_cons.mpr ⟨rfl, ?_⟩⟩
    exact hs.worded (templateReply_worded (by decide) ht (ha.missing hg))
  | unanswered => exact List.forall_mem_cons.mpr ⟨rfl, List.forall_mem_singleton.mpr rfl⟩
  | bound hg hb => exact List.forall_mem_cons.mpr ⟨rfl, hb.worded (ha.denied _ hg)⟩
  | faulted hg hb hn =>
    refine List.forall_mem_append.mpr ⟨?_, hn.worded fun _ => ha.notice⟩
    exact List.forall_mem_cons.mpr ⟨rfl, hb.worded (ha.denied _ hg)⟩

end Outcomes

namespace Core

variable (s : Core) (e : Event)

theorem tells_recordAll {p : Happening → Bool} {u : Option Nat} {l : List Happening}
    (h : ∀ y ∈ l, p y = true) : s.Tells p u (s.recordAll u l) := ⟨l, rfl, h⟩

/-- **The gate** says nothing without words. -/
theorem dispatch_worded {name : Setting} (h : s.Answers name) (arguments : List Setting)
    (chained : Bool) :
    s.Tells Happening.isWorded e.unit (s.dispatch e name arguments chained).1 := by
  obtain ⟨l, e', v, ho⟩ := exists_outcome s e name arguments chained
  rw [ho.eq]
  exact s.tells_recordAll (ho.worded h)

theorem notice_worded {f : Fault}
    (hm : f.isNoPermission = true → s.attributes.noPermissionMessage ≠ some "") (name : Setting) :
    s.Tells Happening.isWorded e.unit (s.notice e name f).1 := by
  obtain ⟨l, g, hn⟩ := exists_noticed s e name f
  rw [hn.eq]
  exact s.tells_recordAll (hn.worded hm)

/-- Calls whose author may use the command are refused in words. -/
theorem accept_worded (name : Setting) (c : Command) (arguments : List Setting) (chained : Bool) :
    s.Tells Happening.isWorded e.unit (s.accept e name c arguments chained).1 := by
  refine s.accept_tells_of e (fun texts hr t ht => ?_) rfl
  have hworded := Outgoing.isWorded_reply e.channel ((refusal?_eq_some_iff.mp hr).worded t ht)
  exact ⟨hworded, hworded⟩

/-- **The final answer** has words: an empty one is not sent. -/
theorem deliver_worded (v : Value) :
    s.Tells Happening.isWorded e.unit (s.deliver e v).1 :=
  s.deliver_tells_sending e rfl
    (fun _ ht => ⟨Outgoing.isWorded_reply e.channel ht, Outgoing.isWorded_reply e.channel ht⟩)
    (fun _ _ => ⟨rfl, rfl⟩) rfl (fun _ => rfl) v

theorem conclude_worded (v : Except Fault Value) :
    s.Tells Happening.isWorded e.unit (s.conclude e v).1 := by
  rcases v with f | v
  · show s.Tells Happening.isWorded e.unit (s.concludeFault e f).1
    unfold concludeFault
    split
    · exact .log s rfl
    · exact .refl s
  · have hd := s.deliver_worded e v
    simp only [conclude]
    generalize s.deliver e v = x at hd ⊢
    rcases x with ⟨s', e', f | _⟩ <;> exact hd

end Core

/-! ## What programs ask for -/

/-- What a request asks to be sent. -/
def Action.asksFor (e : Event) (a : Action) (h : Happening) : Bool :=
  match a.outgoing? e with
  | some o => h = .sent o || h = .unsent o
  | none => false

/-- What the program of a run asks to be sent with its next request. -/
def Run.asksFor (r : Run) (h : Happening) : Bool :=
  match r.program with
  | .act a _ => a.asksFor r.event h
  | _ => false

/-! ## Requests -/

section Requests

variable (s : Core)

theorem Core.serve_worded (e : Event) (a : Action) :
    s.Tells (fun h => h.isWorded || a.asksFor e h) e.unit (s.serve e a).1 := by
  refine s.serve_tells_sending e ?_ (fun _ _ => rfl) (fun _ => rfl) (fun _ _ => rfl) fun _ _ => rfl
  intro o ho
  simp [Action.asksFor, ho]

/-- There are words for all that is to be said at the next request of a run: for the call that it
makes, and for the fault that its program ends with. -/
def Core.AnswersRun (s : Core) (r : Run) : Prop :=
  match r.program with
  | .call name _ _ _ => s.Answers name
  | .done (.error f) => f.isNoPermission = true → s.attributes.noPermissionMessage ≠ some ""
  | _ => True

/-- A request of a run says what its program asks for, and otherwise speaks in words. -/
theorem Run.step_worded (opened : Setting → Bool) (r : Run) (ha : s.AnswersRun r) :
    s.Tells (fun h => h.isWorded || r.asksFor h) r.event.unit (r.step opened s).1 := by
  have hworded {s' : Core} (h : s.Tells Happening.isWorded r.event.unit s') :
      s.Tells (fun h => h.isWorded || r.asksFor h) r.event.unit s' :=
    h.mono fun x hx => by rw [hx]; rfl
  obtain ⟨e, q, m, fs⟩ := r
  cases q with
  | act a next => exact s.serve_worded e a
  | wait g next =>
    simp only [step]
    split <;> exact .refl s
  | call name arguments chained next =>
    have hd := hworded (s.dispatch_worded e ha arguments chained)
    simp only [step]
    generalize s.dispatch e name arguments chained = x at hd ⊢
    rcases x with ⟨s', e', c | t | f⟩ <;> exact hd
  | done result =>
    rcases fs with - | ⟨f, fs⟩
    · exact .refl s
    · rcases result with x | v
      · exact hworded (s.notice_worded e ha f.called)
      · exact s.drainInto_tells_of e rfl v

/-- What the program of a job asks to be sent with its next request. -/
def Job.asksFor (j : Job) (h : Happening) : Bool := j.run?.any (·.asksFor h)

/-- There are words for all that is to be said at the next request of a job. -/
def Core.AnswersJob (s : Core) (j : Job) : Prop := ∀ r, j.run? = some r → s.AnswersRun r

/-- **A request of a job** says what its program asks for, and otherwise speaks in words. -/
theorem Core.work_worded (opened : Setting → Bool) (j : Job) (h : s.AnswersJob j) :
    s.Tells (fun h => h.isWorded || j.asksFor h) j.event.unit (s.work opened j).1 := by
  cases j with
  | chain text e =>
    exact (Tells.log s rfl).trans
      (programOf_tells (s.log e.unit (.chainParsing text)) e (fun _ _ _ => rfl) (fun _ => rfl) text)
  | run r =>
    have hs := Run.step_worded s opened r (h r rfl)
    have hu := r.step_unit opened s
    rw [work]
    generalize r.step opened s = x at hs hu ⊢
    obtain ⟨s', p⟩ := x
    cases p with
    | ended e v =>
      have hend : e.unit = r.event.unit := hu
      have hv := (s'.conclude_worded e v).mono (q := fun h => h.isWorded || Job.asksFor (.run r) h)
        fun x hx => by rw [hx]; rfl
      exact hs.trans (hend ▸ hv)
    | _ => exact hs
  | stray r => exact Run.step_worded s opened r (h r rfl)

end Requests

/-- All templates say something of every name, and the notice is not empty. -/
structure Core.Worded (s : Core) : Prop where
  notice : s.attributes.noPermissionMessage ≠ some ""
  missing : ∀ t, s.attributes.notFoundMessage = some t → ¬OnlyMarks "%command%".toList t.toList
  denied : ∀ name c t, s.registry.get name = .ok (some c) → c.permissionMessage = .text t →
    ¬OnlyMarks "%name%".toList t.toList

theorem Core.Worded.answersJob {s : Core} (h : s.Worded) (j : Job) : s.AnswersJob j := by
  have hname (name : Setting) : s.Answers name := by
    refine ⟨h.notice, ?_, ?_⟩
    · rintro - ⟨-, t, ht, hmarks⟩
      rcases hm : s.attributes.notFoundMessage with - | m
      · rw [hm] at ht
        cases ht
      · rw [hm] at ht
        cases ht
        exact h.missing t hm hmarks
    · rintro c hc ⟨-, t, ht, hmarks⟩
      exact h.denied name c t hc ht hmarks
  intro r _
  unfold AnswersRun
  split
  · exact hname _
  · exact fun _ => h.notice
  · trivial

/-! ## Scenes -/

namespace Scene

variable {p : Prefix} {w w' : Scene}

/-- What happens in a step has words, or it happens for the unit of a job whose program asks for it
or is to be answered without words. -/
def Speaks (w w' : Scene) : Prop :=
  ∃ l, w'.core.journal = w.core.journal ++ l ∧ ∀ x ∈ l, x.what.isWorded = true ∨
    ∃ q j, w.job q = some j ∧ x.unit = j.event.unit ∧
      (j.asksFor x.what = true ∨ ¬w.core.AnswersJob j)

theorem speaks_of_reports (h : Reports w.core w'.core) : Speaks w w' := by
  obtain ⟨l, hl⟩ := h
  refine ⟨_, hl, fun x hx => .inl ?_⟩
  obtain ⟨y, -, rfl⟩ := List.mem_map.mp hx
  rfl

theorem speaks_work {q : Place} {j : Job} (opened : Setting → Bool) (h : w.job q = some j) :
    Speaks w (w.put q (w.core.work opened j)) := by
  by_cases ha : w.core.AnswersJob j
  · obtain ⟨l, hl, hp⟩ := w.core.work_worded opened j ha
    refine ⟨_, by rw [put_core, hl], fun x hx => ?_⟩
    obtain ⟨y, hy, rfl⟩ := List.mem_map.mp hx
    exact (Bool.or_eq_true_iff.mp (hp y hy)).imp_right fun hy => ⟨q, j, h, rfl, .inl hy⟩
  · obtain ⟨l, hl⟩ := w.core.work_journal_eq opened j
    refine ⟨_, by rw [put_core, hl], fun x hx => .inr ⟨q, j, h, ?_, .inr ha⟩⟩
    obtain ⟨y, -, rfl⟩ := List.mem_map.mp hx
    rfl

theorem Move.speaks (h : Move p w w') : Speaks w w' := by
  cases h with
  | work q j opened h => exact speaks_work opened h
  | arrive m text h => exact speaks_of_reports (.refl _)
  | cancel i j behind h hb => exact speaks_of_reports (.refl _)
  | begin e program h => exact speaks_of_reports (.refl _)
  | report s h ht => exact speaks_of_reports h

theorem Step.speaks (h : Step p w w') : Speaks w w' := by
  cases h with
  | move h => exact h.speaks
  | outside s h => exact speaks_of_reports h

end Scene

open Relation (ReflTransGen)

/-- **The core speaks in words.** Whatever happens at a bot is a sequence of steps that do so, and
so does every step. Where all templates say something, there are words for all answers. Calls of
commands whatever their author may do and final answers, for themselves, always have words. What a
program asks for is sent as it is, but the program of a chain text asks for nothing: it makes
calls. -/
theorem core_speaks_in_words {b b' : Bot} {w : Scene} (h : ReflTransGen Bot.Does b b')
    (hw : b.Shows w) :
    (∃ w', ReflTransGen (fun x y => Scene.Step b.trigger x y ∧ Scene.Speaks x y) w w' ∧
      b'.Shows w') ∧
    (∀ x y : Scene, Scene.Step b.trigger x y → Scene.Speaks x y) ∧
    (∀ s : Core, s.Worded → ∀ j, s.AnswersJob j) ∧
    (∀ (s : Core) (e : Event) (name : Setting) (c : Command) (arguments : List Setting)
      (chained : Bool),
      s.Tells Happening.isWorded e.unit (s.accept e name c arguments chained).1) ∧
    (∀ (s : Core) (e : Event) (v : Value),
      s.Tells Happening.isWorded e.unit (s.deliver e v).1) ∧
    ∀ (s : Core) (e : Event) (text : String),
      (s.programOf e text).2.Calls (text.length + 1) := by
  refine ⟨?_, fun _ _ => Scene.Step.speaks, fun _ => Core.Worded.answersJob, Core.accept_worded,
    Core.deliver_worded, Core.programOf_calls⟩
  obtain ⟨-, w', hs, hw'⟩ := Bot.does_shown h hw
  exact ⟨w', ReflTransGen.mono (fun _ _ h => ⟨h, h.speaks⟩) _ _ hs, hw'⟩

/-- A bot whose notice has words, a message to it, and a call of an unknown name for an event made
by hand, which a template with a mark answers. -/
theorem core_speaks_in_words_unknown :
    ∃ (b b' : Bot) (w w' : Scene), ReflTransGen Bot.Does b b' ∧ b.Shows w ∧
      Scene.Step b.trigger w w' ∧ w.core.Worded ∧ (∀ j, w.core.AnswersJob j) ∧
      Scene.Speaks w w' ∧
      w'.core.told none = w.core.told none ++
        [.logged (.commandExecuting "nope" []), .logged (.commandNotFound "nope"),
          .sent (.reply "c" "no nope")] ∧
      ∃ v, ReflTransGen (fun x y => Scene.Step b.trigger x y ∧ Scene.Speaks x y) w v ∧
        b'.Shows v := by
  let core : Core :=
    { attributes := { notFoundMessage := some "no %command%", noPermissionMessage := some "no" }
      transport := .fixed .null [] [] [] }
  let b : Bot := { trigger := .literal "!", core := core }
  let m : Message := ⟨"!nope", some ⟨"u", "", []⟩, "c", none, .null⟩
  let r : Run := { event := { message := m }, program := .call "nope" [] false fun _ => pure .null }
  let w : Scene := { core := core, hands := [some (.stray r)] }
  have hw : b.Shows w := ⟨rfl, rfl⟩
  have hd : ReflTransGen Bot.Does b (b.receive m).1.settle :=
    .tail (.single (.goes (.receive m))) (.goes .settle)
  have hs : Scene.Step b.trigger w _ := .move (.work (.hand 0) (.stray r) (fun _ => true) rfl)
  have hworded : core.Worded := by
    refine ⟨by decide, ?_, ?_⟩
    · rintro _ ⟨⟩ ⟨n, hn⟩
      cases hn
    · rintro name c t h -
      obtain ⟨k, -, hk⟩ := except_bind_eq_ok h
      cases hk
  obtain ⟨hrun, hstep, hanswers, -⟩ := core_speaks_in_words hd hw
  exact ⟨b, _, w, _, hd, hw, hs, hworded, hanswers core hworded, hstep _ _ hs, by decide +kernel,
    hrun⟩

/-- **A notice without words.** A command raises a fault of missing permissions, and asks for
nothing; the notice is empty, and is sent. And a template of a mark alone answers a call of the
empty name with nothing, which is sent too. -/
theorem core_speaks_no_words :
    (∃ (b b' : Bot) (m : Message) (raises : Handler),
      b.core.attributes.noPermissionMessage = some "" ∧
      b.core.registry = Registry.register {} { name := "a" } .inline raises ∧
      (∀ x arguments, (raises x arguments).Calls 0) ∧
      m.content = "!a" ∧ b' = (b.receive m).1.settle ∧
      .sent (.reply "c" "") ∈ b'.core.told (some 0)) ∧
    ∃ (s : Core) (e : Event), s.attributes.notFoundMessage = some "%command%" ∧
      .sent (.reply e.channel "") ∈ (s.dispatch e "" [] false).1.told e.unit := by
  let raises : Handler := fun _ _ => .fail (.failure (.of (.noPermission .null) "x"))
  let core : Core :=
    { attributes := { noPermissionMessage := some "" }, transport := .fixed .null [] [] []
      registry := Registry.register {} { name := "a" } .inline raises }
  let unknown : Core :=
    { attributes := { notFoundMessage := some "%command%" }, transport := .fixed .null [] [] [] }
  let m : Message := ⟨"!a", some ⟨"u", "", []⟩, "c", none, .null⟩
  have hraises (x : Message) (arguments : List Setting) : (raises x arguments).Calls 0 := trivial
  exact ⟨⟨{ trigger := .literal "!", core := core }, _, m, raises, rfl, rfl, hraises, rfl, rfl,
    by decide +kernel⟩, unknown, { message := m }, rfl, by decide +kernel⟩

end ChatCommands
