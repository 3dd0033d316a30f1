import ChatCommands.Proofs.Bot.Undisturbed
import ChatCommands.Proofs.Dispatch.Telling

/-!
# Programs on threads

A program on a thread is a plain function: it may make requests that are served at once and may
wait, but it can call no command. What goes on of a cancelled unit is such a program, without the
programs that waited for its answer. It goes on alone: everything that happens is asked for by its
own requests, nobody enters a command for it, and what it ends with is not looked at.

## Main definitions

* `Program.CallFree`: a program that calls no command
* `Registry.Plain`: commands on threads call no command
* `Run.Plain`, `Run.Lone`: a run among whose programs only the one at work may be on a thread; a
  program without any that wait for it
* `Run.GoesAlone`: a program goes on by itself, with what happens

## Main results

* `Run.advance_plain`: the programs of a run stay where they may be
* `Run.advance_alone`: a program that nobody waits for goes on alone
* `Run.GoesAlone.isOwn`: what happens then is what the program does by itself
-/

namespace ChatCommands

/-- A program that calls no command, whatever it is answered. -/
def Program.CallFree {α : Type} : Program α → Prop
  | .done _ => True
  | .act _ next => ∀ r, (next r).CallFree
  | .call _ _ _ _ => False
  | .wait _ next => next.CallFree

theorem Program.CallFree.bind {α β : Type} {p : Program α} {f : α → Program β} (hp : p.CallFree)
    (hf : ∀ a, (f a).CallFree) : (p >>= f).CallFree := by
  show (p.bind f).CallFree
  induction p with
  | done r =>
    cases r with
    | ok a => exact hf a
    | error x => trivial
  | act a next ih => exact fun r => ih r (hp r)
  | call name arguments chained next ih => cases hp
  | wait g next ih => exact ih hp

/-- Commands that run on threads are plain functions, which can call no command. -/
def Registry.Plain (r : Registry) : Prop :=
  ∀ x ∈ r.bindings, x.command.manner = .thread →
    ∀ m arguments, (x.command.handler m arguments).CallFree

theorem Registry.plain_of_get {r : Registry} {name : Setting} {c : Command} (hr : r.Plain)
    (h : r.get name = .ok (some c)) (hc : c.manner = .thread) (m : Message)
    (arguments : List Setting) : (c.handler m arguments).CallFree := by
  unfold get at h
  rcases hk : name.key with f | k
  · rw [hk] at h
    cases h
  · rw [hk] at h
    have hl : lookUpName r.bindings k = some c := Except.ok.inj h
    obtain ⟨x, hx, rfl⟩ := Option.map_eq_some_iff.mp hl
    exact hr x (List.mem_of_find?_eq_some hx) hc m arguments

/-- What jobs make of a core does not bind names. -/
theorem Core.Later.plain {s s' : Core} (h : s.Later s') (hs : s.registry.Plain) :
    s'.registry.Plain := fun x hx => hs x (h.bindings.subset hx)

namespace Run

variable {opened : Setting → Bool} {s s' : Core} {r r' : Run}

theorem step_later (opened : Setting → Bool) (s : Core) (r : Run) : s.Later (r.step opened s).1 :=
  s.work_later opened (.stray r)

/-! ## Which programs are on threads -/

/-- Of the programs of a run only the one at work may be on a thread, since it calls no command. -/
structure Plain (r : Run) : Prop where
  program : r.manner = .thread → r.program.CallFree
  frames : ∀ f ∈ r.frames, f.manner ≠ .thread

/-- A command on a thread begins as a program that calls no command. -/
theorem enter_plain {e : Event} {name : Setting} {c : Command} {arguments : List Setting}
    {next : Except Fault (Option String) → Program Value} (hr : r.Plain)
    (hm : r.manner ≠ .thread)
    (hc : c.manner = .thread → ∀ m arguments, (c.handler m arguments).CallFree)
    (h : (r.enter e name c arguments next).rest = some r') : r'.Plain := by
  have hframes : ∀ f ∈ ⟨name, r.manner, next⟩ :: r.frames, f.manner ≠ Manner.thread := by
    intro f hf
    rcases List.mem_cons.mp hf with rfl | hf
    · exact hm
    · exact hr.frames f hf
  unfold enter at h
  -- The caller is kept among those that wait, so it must not be on a thread itself.
  rcases hcm : c.manner <;> rw [hcm] at h <;> obtain rfl := Option.some.inj h
  · exact ⟨nofun, hframes⟩
  · exact ⟨fun _ => hc hcm _ _, hframes⟩
  · exact ⟨nofun, hframes⟩

/-- **A request** leaves the programs of a run where they may be. -/
theorem step_plain (hs : s.registry.Plain) (hr : r.Plain)
    (h : (r.step opened s).2.rest = some r') : r'.Plain := by
  obtain ⟨e, p, m, fs⟩ := r
  cases p with
  | act a next =>
    obtain rfl := Option.some.inj h
    exact ⟨fun hm => hr.program hm _, hr.frames⟩
  | wait g next =>
    have hr' : r' = ⟨e, next, m, fs⟩ := by
      simp only [step] at h
      split at h <;> exact (Option.some.inj h).symm
    subst hr'
    exact ⟨hr.program, hr.frames⟩
  | call name arguments chained next =>
    -- A program that calls a command is not on a thread.
    have hm : m ≠ .thread := hr.program
    have hgo {e' : Event} {p : Program Value} : Plain ⟨e', p, m, fs⟩ :=
      ⟨fun h => (hm h).elim, hr.frames⟩
    simp only [step] at h
    rcases hd : s.dispatch e name arguments chained with ⟨s', e', c | t | f⟩ <;> rw [hd] at h
    · obtain ⟨hcleared, -⟩ := Core.dispatch_enter (congrArg (·.2.2) hd)
      exact enter_plain hr hm (Registry.plain_of_get hs hcleared.bound) h
    · obtain rfl := Option.some.inj h
      exact hgo
    · obtain rfl := Option.some.inj h
      exact hgo
  | done result =>
    rcases fs with - | ⟨f, fs⟩
    · cases h
    · -- The program that called is at work again, and it is not on a thread.
      obtain rfl := Option.some.inj h
      obtain ⟨hf, hfs⟩ := List.forall_mem_cons.mp hr.frames
      cases result with
      | ok v => exact ⟨fun h => (hf h).elim, hfs⟩
      | error x => exact ⟨fun h => (hf h).elim, hfs⟩

theorem advance_plain (opened : Setting → Bool) (n : Nat) (hs : s.registry.Plain) (hr : r.Plain)
    (h : (r.advance opened n s).2.rest = some r') : r'.Plain := by
  induction n generalizing s r with
  | zero =>
    obtain rfl := Option.some.inj h
    exact hr
  | succ n ih =>
    have hl := step_later opened s r
    have hstep (r₁ : Run) := @step_plain opened s r r₁ hs hr
    rw [advance] at h
    generalize r.step opened s = q at h hl hstep
    obtain ⟨s', p⟩ := q
    cases p with
    | on r₁ => exact ih (hl.plain hs) (hstep r₁ rfl) h
    | _ => exact hstep r' h

/-! ## A program that goes on alone -/

/-- A program that calls no command, and for whose answer nobody waits. -/
structure Lone (r : Run) : Prop where
  program : r.program.CallFree
  frames : r.frames = []

/-- What is left running of a run is a program that nobody waits for. -/
theorem Plain.behind (hr : r.Plain) (h : r.behind = some r') : r'.Lone := by
  unfold Run.behind at h
  split at h
  next hm =>
    obtain rfl := Option.some.inj h
    exact ⟨hr.program hm, rfl⟩
  · cases h

/-- A program goes on by itself: its requests are served at once, by any cores, or it waits. The
list is what happens by that. -/
inductive GoesAlone (r : Run) : List Happening → Run → Prop where
  | start : GoesAlone r [] r
  | act {l l' : List Happening} {e : Event} {a : Action} {next : a.Reply → Program Value}
      {m : Manner} (h : GoesAlone r l ⟨e, .act a next, m, []⟩) (s : Core)
      (hl : (s.serve e a).1.journal = s.journal ++ l'.map (Entry.mk e.unit)) :
    GoesAlone r (l ++ l') ⟨(s.serve e a).2.1, next (s.serve e a).2.2, m, []⟩
  | wait {l : List Happening} {e : Event} {g : Setting} {next : Program Value} {m : Manner}
      (h : GoesAlone r l ⟨e, .wait g next, m, []⟩) : GoesAlone r l ⟨e, next, m, []⟩

theorem GoesAlone.trans {r r₁ r₂ : Run} {l l' : List Happening} (h : GoesAlone r l r₁)
    (h' : GoesAlone r₁ l' r₂) : GoesAlone r (l ++ l') r₂ := by
  induction h' with
  | start =>
    rw [List.append_nil]
    exact h
  | act _ s hl ih =>
    rw [← List.append_assoc]
    exact ih.act s hl
  | wait _ ih => exact ih.wait

/-- **What happens while a program goes on alone** is what it does by itself. -/
theorem GoesAlone.isOwn {l : List Happening} (h : GoesAlone r l r') :
    ∀ x ∈ l, x.isOwn = true := by
  induction h with
  | start =>
    intro x hx
    cases hx
  | @act l l' e a next m _ s hl ih =>
    -- What was added to the journal is what serving the request tells, and nothing else.
    obtain ⟨l₁, hl₁, hp⟩ := s.serve_tells e a
    have hmap : l'.map (Entry.mk e.unit) = l₁.map (Entry.mk e.unit) :=
      List.append_cancel_left (hl.symm.trans hl₁)
    have heq : l' = l₁ := (List.map_inj_right fun _ _ h => (Entry.mk.inj h).2).mp hmap
    intro x hx
    rcases List.mem_append.mp hx with hx | hx
    · exact ih x hx
    · exact hp x (heq ▸ hx)
  | wait _ ih => exact ih

/-- A request of a program that nobody waits for: it goes on alone, or it is at its end. -/
theorem step_alone (opened : Setting → Bool) (s : Core) (hr : r.Lone) :
    ∃ l r', (r.step opened s).1.journal = s.journal ++ l.map (Entry.mk r.event.unit) ∧
      GoesAlone r l r' ∧ r'.Lone ∧ ∀ r'', (r.step opened s).2.rest = some r'' → r'' = r' := by
  obtain ⟨e, p, m, fs⟩ := r
  obtain ⟨hp, rfl : fs = []⟩ := hr
  cases p with
  | act a next =>
    obtain ⟨l, hl, -⟩ := s.serve_tells e a
    refine ⟨l, _, hl, GoesAlone.start.act s hl, ⟨hp _, rfl⟩, ?_⟩
    rintro r'' ⟨⟩
    rfl
  | wait g next =>
    refine ⟨[], ⟨e, next, m, []⟩, ?_, GoesAlone.start.wait, ⟨hp, rfl⟩, ?_⟩
    · simp only [step]
      split <;> exact (List.append_nil _).symm
    · intro r'' h
      simp only [step] at h
      split at h <;> exact (Option.some.inj h).symm
  | call name arguments chained next => cases hp
  -- At its end nothing goes on of it, and nothing waits for what it ends with.
  | done result =>
    refine ⟨[], _, (List.append_nil _).symm, .start, ⟨trivial, rfl⟩, ?_⟩
    intro r'' h
    cases h

/-- **A program that nobody waits for** goes on alone for as long as it has its turn. -/
theorem advance_alone (opened : Setting → Bool) (n : Nat) (s : Core) (hr : r.Lone) :
    ∃ l r', (r.advance opened n s).1.journal = s.journal ++ l.map (Entry.mk r.event.unit) ∧
      GoesAlone r l r' ∧ r'.Lone ∧ ∀ r'', (r.advance opened n s).2.rest = some r'' → r'' = r' := by
  induction n generalizing s r with
  | zero =>
    refine ⟨[], r, (List.append_nil _).symm, .start, hr, ?_⟩
    rintro r'' ⟨⟩
    rfl
  | succ n ih =>
    obtain ⟨l, r₁, hl, hgo, hlone, hrest⟩ := step_alone opened s hr
    have hu := r.step_unit opened s
    rw [advance]
    generalize r.step opened s = q at hl hrest hu ⊢
    obtain ⟨s', p⟩ := q
    cases p with
    | on r₂ =>
      obtain rfl := hrest r₂ rfl
      obtain ⟨l', r', hl', hgo', hlone', hrest'⟩ := ih s' hlone
      refine ⟨l ++ l', r', ?_, hgo.trans hgo', hlone', hrest'⟩
      rw [show r₂.event.unit = r.event.unit from hu] at hl'
      rw [hl', hl, List.map_append, List.append_assoc]
    | _ => exact ⟨l, r₁, hl, hgo, hlone, hrest⟩

end Run

end ChatCommands
