import ChatCommands.Proofs.Dispatch.Outcome
import ChatCommands.Proofs.Dispatch.Straight
import ChatCommands.Proofs.Dispatch.Telling
import ChatCommands.Proofs.Registry.Bindings

/-!
# Notices of missing permissions

A fault that says that the author may not do something is answered with a notice as it leaves a
command, and goes on. It makes no difference who called the command. If a program of another
command did, the fault leaves that command too, unless it is caught there, and is answered once
more. So its notices count the commands that it leaves on its way to the end of the unit: one
command if the chain itself called it, which sub-chains are part of, and else more than one.

Nothing but the notices of the fault is counted, since the programs that it passes neither call
commands nor send the notice by themselves from then on.

## Main definitions

* `Program.Forwards`, `Program.Relays`: a program that passes a fault on; a program that does so
  with every fault of missing permissions that it hears
* `Core.Relays`, `Run.Relays`: cores of whose commands, and runs of whose programs all do so
* `Run.Leads`: how a run goes on, and what happens in the meantime
* `Run.Raises`: a fault comes up inside of commands

## Main results

* `Run.step_forwards`: a request takes a fault out of a command with one notice, or sends none
* `noPermission_noticed`: there are as many notices of a fault as commands that it leaves
* `noPermission_noticed_twice`: a fault that is answered twice
-/

namespace ChatCommands

/-! ## Programs that pass faults on -/

namespace Program

variable {α : Type} {m : String} {f : Fault}

/-- A program that passes a fault on. It may make requests before it ends with the fault, but it
calls no command and does not send the notice. -/
def Forwards (m : String) (f : Fault) : Program α → Prop
  | done r => r = .error f
  | act a next => a ≠ .reply m ∧ ∀ r, (next r).Forwards m f
  | call _ _ _ _ => False
  | wait _ next => next.Forwards m f

/-- A program that passes on every fault of missing permissions that it hears of a call. -/
def Relays (m : String) : Program α → Prop
  | done _ => True
  | act _ next => ∀ r, (next r).Relays m
  | call _ _ _ next =>
    (∀ a, (next a).Relays m) ∧
      ∀ f : Fault, f.isNoPermission = true → (next (.error f)).Forwards m f
  | wait _ next => next.Relays m

/-- A program that ends with the first fault that it hears passes faults on. -/
theorem Straight.relays {p : Program α} (hp : p.Straight) : p.Relays m := by
  induction p with
  | done r => trivial
  | act a next ih => exact fun r => ih r (hp r)
  | call name arguments chained next ih =>
    obtain ⟨hfault, hok⟩ := hp
    constructor
    · rintro (f | t)
      · rw [hfault f]
        trivial
      · exact ih (.ok t) (hok t)
    · intro f _
      rw [hfault f]
      rfl
  | wait g next ih => exact ih hp

end Program

/-- What waits for the answer of a command passes faults of missing permissions on. -/
def Frame.Relays (m : String) (g : Frame) : Prop :=
  (∀ a, (g.resume a).Relays m) ∧
    ∀ f : Fault, f.isNoPermission = true → (g.resume (.error f)).Forwards m f

/-- A registry all of whose commands pass faults of missing permissions on. -/
def Registry.Relays (m : String) (r : Registry) : Prop :=
  ∀ b ∈ r.bindings, ∀ x arguments, (b.command.handler x arguments).Relays m

theorem Registry.relays_empty (m : String) : Registry.Relays m {} := by
  rintro b ⟨⟩

theorem Registry.Relays.register {m : String} {r : Registry} (h : r.Relays m)
    (info : CommandInfo) (manner : Manner) {handler : Handler}
    (hh : ∀ x arguments, (handler x arguments).Relays m) :
    (r.register info manner handler).Relays m := by
  intro b hb
  rcases mem_bindNames hb with hb | hb
  · exact h b hb
  · rw [hb]
    exact hh

/-- A core with a notice for missing permissions, all of whose commands pass such faults on. -/
structure Core.Relays (m : String) (s : Core) : Prop where
  notice : s.attributes.noPermissionMessage = some m
  commands : s.registry.Relays m

/-- A run whose programs, the one at work and those that wait, pass faults of missing permissions
on. -/
structure Run.Relays (m : String) (r : Run) : Prop where
  program : r.program.Relays m
  frames : ∀ g ∈ r.frames, g.Relays m

/-! ## One notice -/

section Notice

variable {s : Core} {e : Event} {name : Setting} {m : String} {f g : Fault} {l : List Happening}

theorem Sends.single {t : Transport} {ch : Id} {x : String} {r : Except Fault Unit}
    (h : Sends t ch [x] l r) :
    l = [.sent (.reply ch x)] ∧ r = .ok () ∨ l = [.unsent (.reply ch x)] := by
  generalize ht : [x] = texts at h
  cases h with
  | all =>
    subst ht
    exact .inl ⟨rfl, rfl⟩
  | @fails before rest y _ _ _ =>
    obtain ⟨rfl, hy⟩ : before = [] ∧ y :: rest = [x] := by
      rcases before with - | ⟨z, before⟩
      · exact ⟨rfl, ht.symm⟩
      · obtain ⟨-, hnil⟩ := List.cons.inj ht
        exact absurd hnil.symm (List.append_ne_nil_of_right_ne_nil _ (List.cons_ne_nil _ _))
    obtain rfl := (List.cons.inj hy).1
    exact .inr rfl

/-- A fault of missing permissions goes on as it is, behind one notice, unless the notice cannot be
sent. -/
theorem Noticed.once (h : Noticed s e name f l g) (hf : f.isNoPermission = true)
    (hm : s.attributes.noPermissionMessage = some m)
    (hsent : .unsent (.reply e.channel m) ∉ l) :
    g = f ∧ l.count (.sent (.reply e.channel m)) = 1 := by
  cases h with
  | other h =>
    rw [hf] at h
    cases h
  | silent _ h =>
    rw [hm] at h
    cases h
  | told _ h hs =>
    -- The notice is a single text, so either it is all that happens, or it could not be sent.
    obtain rfl := Option.some.inj (hm.symm.trans h)
    rcases hs.single with ⟨rfl, -⟩ | rfl
    · exact ⟨rfl, by simp⟩
    · simp at hsent
  | untold _ h hs =>
    obtain rfl := Option.some.inj (hm.symm.trans h)
    rcases hs.single with ⟨-, hr⟩ | rfl
    · cases hr
    · simp at hsent

/-- What is told without the notice does not count. -/
theorem Core.Tells.count_eq_zero {s' : Core} {u : Option Nat} {x : Happening}
    (h : s.Tells (· != x) u s') (hl : s'.journal = s.journal ++ l.map (Entry.mk u)) :
    l.count x = 0 := by
  obtain ⟨l', hl', hp⟩ := h
  obtain rfl := Core.journal_unique hl hl'
  rw [List.count_eq_zero]
  intro hx
  simpa using hp x hx

/-- A request that does not ask for the notice does not send it. -/
theorem Core.serve_unnoticed {a : Action} (ha : a ≠ .reply m) :
    s.Tells (· != .sent (.reply e.channel m)) e.unit (s.serve e a).1 := by
  refine s.serve_tells_sending e ?_ (fun _ _ => rfl) (fun _ => rfl) (fun _ _ => rfl) fun _ _ => rfl
  intro o ho
  refine ⟨?_, rfl⟩
  rw [bne_iff_ne]
  rintro ⟨⟩
  cases a with
  | reply t =>
    obtain ⟨-, rfl⟩ := Outgoing.reply.inj (Option.some.inj ho)
    exact ha rfl
  | direct t =>
    obtain ⟨u, -, hu⟩ := Option.map_eq_some_iff.mp ho
    cases hu
  | file n c => cases Option.some.inj ho
  | _ => cases ho

end Notice

/-! ## Runs -/

namespace Run

variable {m : String} {s : Core} {r r' r₁ : Run} {f : Fault} {k l : List Happening}
  {opened : Setting → Bool} {n : Nat}

/-- A request leaves the programs of a run as they have to be. -/
theorem step_relays (hs : s.Relays m) (hr : r.Relays m)
    (h : (r.step opened s).2.rest = some r') : r'.Relays m := by
  obtain ⟨e, p, w, fs⟩ := r
  cases p with
  | act a next =>
    obtain rfl := Option.some.inj h
    exact ⟨hr.program _, hr.frames⟩
  | wait g next =>
    obtain rfl : r' = ⟨e, next, w, fs⟩ := by
      simp only [step] at h
      split at h <;> exact (Option.some.inj h).symm
    exact ⟨hr.program, hr.frames⟩
  | call name arguments chained next =>
    simp only [step] at h
    rcases hd : s.dispatch e name arguments chained with ⟨s', e', c | t | x⟩ <;> rw [hd] at h
    · -- A command that is entered is one of the registry, and its caller waits for it now.
      obtain ⟨hc, -⟩ := Core.dispatch_enter (congrArg (·.2.2) hd)
      obtain ⟨b, hb, rfl⟩ := Registry.mem_of_get hc.bound
      obtain ⟨r'', hnext, -, -, hprogram, hframes⟩ := enter_rest
        ⟨e, .call name arguments chained next, w, fs⟩ e' name b.command arguments next
      obtain rfl := Option.some.inj (hnext.symm.trans h)
      refine ⟨hprogram ▸ hs.commands b hb _ _, ?_⟩
      rw [hframes]
      exact List.forall_mem_cons.mpr ⟨hr.program, hr.frames⟩
    · obtain rfl := Option.some.inj h
      exact ⟨hr.program.1 _, hr.frames⟩
    · obtain rfl := Option.some.inj h
      exact ⟨hr.program.1 _, hr.frames⟩
  | done result =>
    rcases fs with - | ⟨g, fs⟩
    · cases h
    · obtain rfl := Option.some.inj h
      obtain ⟨hg, hfs⟩ := List.forall_mem_cons.mp hr.frames
      cases result with
      | ok v => exact ⟨hg.1 _, hfs⟩
      | error x => exact ⟨hg.1 _, hfs⟩

/-- **A request while a fault is on its way** takes it out of a command with one notice, or sends
no notice and leaves it inside of as many commands. -/
theorem step_forwards (hf : f.isNoPermission = true) (hs : s.Relays m) (hr : r.Relays m)
    (hp : r.program.Forwards m f) (h : (r.step opened s).2.rest = some r')
    (hk : (r.step opened s).1.journal = s.journal ++ k.map (Entry.mk r.event.unit))
    (hsent : .unsent (.reply r.event.channel m) ∉ k) :
    r'.program.Forwards m f ∧
      k.count (.sent (.reply r.event.channel m)) + r'.frames.length = r.frames.length := by
  obtain ⟨e, p, w, fs⟩ := r
  cases p with
  | act a next =>
    obtain rfl := Option.some.inj h
    obtain ⟨ha, hp⟩ := hp
    have hcount := (Core.serve_unnoticed ha).count_eq_zero hk
    exact ⟨hp _, by rw [hcount, Nat.zero_add]⟩
  | wait g next =>
    have hstep : (step opened s ⟨e, .wait g next, w, fs⟩).1 = s ∧ r' = ⟨e, next, w, fs⟩ := by
      simp only [step] at h ⊢
      split at h
      next ho => exact ⟨by rw [if_pos ho], (Option.some.inj h).symm⟩
      next ho => exact ⟨by rw [if_neg ho], (Option.some.inj h).symm⟩
    obtain ⟨hs', rfl⟩ := hstep
    rw [hs'] at hk
    obtain rfl : k = [] := Core.journal_unique hk (List.append_nil _).symm
    exact ⟨hp, by rw [List.count_nil, Nat.zero_add]⟩
  | call name arguments chained next => exact hp.elim
  | done result =>
    obtain rfl : result = .error f := hp
    rcases fs with - | ⟨g, fs⟩
    · cases h
    · -- The only request that sends a notice: the fault leaves the command of the innermost frame.
      obtain ⟨l, x, hn⟩ := exists_noticed s e g.called f
      have hstep : step opened s ⟨e, .done (.error f), w, g :: fs⟩ =
          (s.recordAll e.unit l, .on ⟨e, g.resume (.error x), g.manner, fs⟩) := by
        simp only [step, leave, hn.eq]
      rw [hstep] at h hk
      obtain rfl := Option.some.inj h
      obtain rfl := Core.journal_unique hk rfl
      obtain ⟨rfl, hcount⟩ := hn.once hf hs.notice hsent
      exact ⟨(hr.frames g List.mem_cons_self).2 x hf, by rw [hcount, Nat.add_comm]; rfl⟩

/-- A run goes on, each request served by any core whose commands pass faults of missing permissions
on, with any gates open. The list is what happens by the run. -/
inductive Leads (m : String) (r : Run) : List Happening → Run → Prop where
  | start : Leads m r [] r
  | step {l k : List Happening} {r₁ r₂ : Run} (h : Leads m r l r₁) (opened : Setting → Bool)
      (s : Core) (hs : s.Relays m) (hr : (r₁.step opened s).2.rest = some r₂)
      (hk : (r₁.step opened s).1.journal = s.journal ++ k.map (Entry.mk r₁.event.unit)) :
    Leads m r (l ++ k) r₂

theorem Leads.relays (h : Leads m r l r') (hr : r.Relays m) : r'.Relays m := by
  induction h with
  | start => exact hr
  | step _ opened s hs hr _ ih => exact step_relays hs ih hr

theorem Leads.channel (h : Leads m r l r') : r'.event.channel = r.event.channel := by
  induction h with
  | start => rfl
  | step _ opened s _ hr _ ih => exact (congrArg Message.channel (step_message hr)).trans ih

/-- While a fault is on its way, the notices that are sent and the commands that it is inside of
still are as many as the commands that it was inside of. -/
theorem Leads.forwards (h : Leads m r l r') (hf : f.isNoPermission = true) (hr : r.Relays m)
    (hp : r.program.Forwards m f) (hsent : .unsent (.reply r.event.channel m) ∉ l) :
    r'.program.Forwards m f ∧
      l.count (.sent (.reply r.event.channel m)) + r'.frames.length = r.frames.length := by
  -- By induction on the requests: each takes off as many frames as it sends notices.
  induction h with
  | start => exact ⟨hp, by rw [List.count_nil, Nat.zero_add]⟩
  | step h opened s hs hr' hk ih =>
    obtain ⟨hl, hsent⟩ := not_or.mp (mt List.mem_append.mpr hsent)
    obtain ⟨hp, hcount⟩ := ih hl
    rw [← h.channel] at hsent
    obtain ⟨hp, hcount'⟩ := step_forwards hf hs (h.relays hr) hp hr' hk hsent
    rw [h.channel] at hcount'
    refine ⟨hp, ?_⟩
    rw [List.count_append]
    omega

/-- A fault comes up inside of `n` commands of a run: the program at work ends with it, or the core
`s` raises it on the way to the command that is called next, asked whether the author may use it.
Behind such a call the happenings `k` have happened, and the run is `r'`. -/
inductive Raises (s : Core) (r : Run) (f : Fault) : Nat → List Happening → Run → Prop where
  | body (hp : r.program = .done (.error f)) : Raises s r f r.frames.length [] r
  | check {name : Setting} {arguments : List Setting} {chained : Bool}
      {next : Except Fault (Option String) → Program Value} {c : Command} {asked : List Setting}
      {opened : Setting → Bool} {k : List Happening} {r' : Run}
      (hp : r.program = .call name arguments chained next)
      (hg : s.registry.get name = .ok (some c))
      (ha : Authorises s r.event c.toCommandInfo asked (.error f))
      (hr : (r.step opened s).2.rest = some r')
      (hk : (r.step opened s).1.journal = s.journal ++ k.map (Entry.mk r.event.unit)) :
    Raises s r f (r.frames.length + 1) k r'

/-- A fault that comes up is on its way, in a call already behind the first notice. -/
theorem Raises.forwards (h : r.Raises s f n k r') (hf : f.isNoPermission = true)
    (hs : s.Relays m) (hr : r.Relays m) (hsent : .unsent (.reply r.event.channel m) ∉ k) :
    r'.program.Forwards m f ∧ r'.Relays m ∧ r'.event.channel = r.event.channel ∧
      k.count (.sent (.reply r.event.channel m)) + r'.frames.length = n := by
  cases h with
  | body hp => exact ⟨by rw [hp]; rfl, hr, rfl, by rw [List.count_nil, Nat.zero_add]⟩
  | @check name arguments chained next c asked opened _ _ hp hg ha hr' hk =>
    -- The call has no frame, but it notices the fault as a command that is entered would.
    have hrelays := step_relays hs hr hr'
    obtain ⟨e, p, w, fs⟩ := r
    obtain rfl : p = .call name arguments chained next := hp
    obtain ⟨l, x, hn⟩ := exists_noticed s e name f
    have ho : CallOutcome s e name arguments chained _ e (.failed x) :=
      .faulted hg (.unauthorised ha) hn
    simp only [step, ho.eq] at hr' hk
    obtain rfl := Option.some.inj hr'
    obtain rfl := Core.journal_unique hk rfl
    have hl : .unsent (.reply e.channel m) ∉ l := fun h => hsent (List.mem_append_right _ h)
    obtain ⟨rfl, hcount⟩ := hn.once hf hs.notice hl
    have hasked : (asked.map (Happening.asked e.authorId)).count
        (.sent (.reply e.channel m)) = 0 := by
      rw [List.count_eq_zero]
      simp
    refine ⟨hr.program.2 x hf, hrelays, rfl, ?_⟩
    rw [List.count_append, List.count_cons_of_ne (by simp), hasked, hcount, Nat.zero_add,
      Nat.add_comm]

end Run

/-! ## Notices of a chain -/

/-- The run of a chain text begins with a program that passes faults on. -/
theorem Core.programOf_relays (s : Core) (e : Event) (text m : String) :
    Run.Relays m ⟨e, (s.programOf e text).2, .inline, []⟩ :=
  ⟨(s.programOf_straight e text).relays, fun _ hg => nomatch hg⟩

/-- **Notices of missing permissions.** Let a fault of missing permissions come up in the run of a
chain text, inside of `n` commands, and let all programs pass such faults on. As long as no notice
fails to be sent, the notices that are sent from then on and the commands that the fault is inside
of still are `n` together. So a run that comes to its end ends with the fault, and `n` notices of
it have been sent: exactly one if the fault came up inside of one command only. -/
theorem noPermission_noticed {s₀ s : Core} {e : Event} {text m : String} {r r₁ r' : Run} {f : Fault}
    {n : Nat} {l₀ k l : List Happening}
    (h₀ : Run.Leads m ⟨e, (s₀.programOf e text).2, .inline, []⟩ l₀ r) (hs : s.Relays m)
    (hf : f.isNoPermission = true) (hr : r.Raises s f n k r₁) (h : Run.Leads m r₁ l r')
    (hsent : .unsent (.reply e.channel m) ∉ k ++ l) :
    (k ++ l).count (.sent (.reply e.channel m)) + r'.frames.length = n ∧
      ∀ opened s' s'' e' x, r'.step opened s' = (s'', .ended e' x) →
        x = .error f ∧ (k ++ l).count (.sent (.reply e.channel m)) = n := by
  have hd := h₀.relays (s₀.programOf_relays e text m)
  have hc : r.event.channel = e.channel := h₀.channel
  obtain ⟨hk, hl⟩ := not_or.mp (mt List.mem_append.mpr hsent)
  rw [← hc] at hk
  obtain ⟨hp, hd, hc₁, hn⟩ := hr.forwards hf hs hd hk
  rw [hc] at hc₁ hn
  rw [← hc₁] at hl
  obtain ⟨hp, hn'⟩ := h.forwards hf hd hp hl
  rw [hc₁] at hn'
  have hcount : (k ++ l).count (.sent (.reply e.channel m)) + r'.frames.length = n := by
    rw [List.count_append]
    omega
  refine ⟨hcount, ?_⟩
  intro opened s' s'' e' x hend
  obtain ⟨-, hr'⟩ := Run.step_ended hend
  rw [hr'] at hp hcount
  exact ⟨hp, hcount⟩

/-- A command calls another one, about which the network refuses to answer: the fault leaves the
call of the one, then the other command, and two notices are sent. -/
theorem noPermission_noticed_check :
    ∃ (s : Core) (e : Event) (r r₁ r' : Run) (f : Fault) (l₀ k l : List Happening),
      Run.Leads "no" ⟨e, (s.programOf e "a").2, .inline, []⟩ l₀ r ∧ s.Relays "no" ∧
      f.isNoPermission = true ∧ r.Raises s f 2 k r₁ ∧ Run.Leads "no" r₁ l r' ∧
      .unsent (.reply e.channel "no") ∉ k ++ l ∧
      (k ++ l).count (.sent (.reply e.channel "no")) + r'.frames.length = 2 ∧
      ∀ opened s' s'' e' x, r'.step opened s' = (s'', .ended e' x) →
        x = .error f ∧ (k ++ l).count (.sent (.reply e.channel "no")) = 2 := by
  let calls : Handler := fun _ _ => do
    let _ ← Program.callCommand "b" [] false
    return .null
  let s : Core :=
    { attributes := { noPermissionMessage := some "no" }
      transport := .fixed .null [] [.text "kick"] []
      registry := (({} : Registry).register { name := "a" } .inline calls).register
        { name := "b", requiredPermissions := ["kick"] } .inline fun _ _ => pure .null }
  let e : Event := { message := ⟨"!a", some ⟨"u", "", []⟩, "c", none, .null⟩ }
  let e₁ : Event := { e with command := some { name := "a" } }
  let f : Fault := .failure (.of (.noPermission "kick") "Backend refused")
  -- What waits for the commands, and the run as the one calls the other, and from there on.
  let chain : Frame := ⟨"a", .inline, fun x => do
    return Value.ofText? (← (Program.done x : Program (Option String)))⟩
  let r : Run := ⟨e₁, .call "b" [] false fun x => do
    let _ ← (Program.done x : Program (Option String))
    return .null, .inline, [chain]⟩
  let r₁ : Run := ⟨e₁, .done (.error f), .inline, [chain]⟩
  let r' : Run := ⟨e₁, .done (.error f), .inline, []⟩
  have hcalls (x : Message) (arguments : List Setting) : (calls x arguments).Relays "no" :=
    ((Program.callCommand_straight _ _ _).bind fun _ => Program.pure_straight _).relays
  have hs : s.Relays "no" :=
    ⟨rfl, ((Registry.relays_empty "no").register _ _ hcalls).register _ _ fun _ _ => trivial⟩
  have h₀ : Run.Leads "no" ⟨e, (s.programOf e "a").2, .inline, []⟩ _ r :=
    Run.Leads.start.step (fun _ => true) s hs (show _ = some r from rfl)
      (k := [.logged (.commandExecuting "a" []), .began "a" 0 []]) rfl
  have hasks : Asks s.transport e.channel e.message.author ["kick"] ["kick"] (.error f) :=
    @Asks.raised _ _ _ [] _ _ _ (by simp) rfl
  have hr : r.Raises s f 2 [.logged (.commandExecuting "b" []), .asked "u" "kick",
      .logged (.noPermissionRaised "b" "u"), .sent (.reply "c" "no")] r₁ :=
    .check rfl rfl (.stopped rfl hasks nofun)
      (show (r.step (fun _ => true) s).2.rest = some r₁ from rfl) rfl
  have h : Run.Leads "no" r₁ _ r' := Run.Leads.start.step (fun _ => true) s hs
    (show _ = some r' from rfl)
    (k := [.logged (.noPermissionRaised "a" "u"), .sent (.reply "c" "no")]) rfl
  exact ⟨s, e, r, r₁, r', f, _, _, _, h₀, hs, rfl, hr, h, by simp,
    noPermission_noticed h₀ hs rfl hr h (by simp)⟩

/-- A command calls another one, whose program raises a fault of missing permissions. Neither
catches it, and it ends the unit, but the notice is sent as it leaves the one and again as it leaves
the other. -/
theorem noPermission_noticed_twice :
    ∃ (b b' : Bot) (m : Message), b.core.Relays "no" ∧ m.content = "!a" ∧
      b' = (b.receive m).1.settle ∧ b'.units.overview = [("ct-1", "done")] ∧
      .logged (.unitFailed "ct-1" "x [module=permissions]" "NoPermission") ∈
        b'.core.told (some 0) ∧
      (b'.core.journal.filterMap fun x =>
        match x.what with | .sent o => some o | _ => none) =
        [.reply "c" "no", .reply "c" "no"] := by
  let calls : Handler := fun _ _ => do
    let _ ← Program.callCommand "b" [] false
    return .null
  let raises : Handler := fun _ _ => .fail (.failure (.of (.noPermission .null) "x"))
  let core : Core :=
    { attributes := { noPermissionMessage := some "no" }, transport := .fixed .null [] [] []
      registry := (({} : Registry).register { name := "a" } .inline calls).register { name := "b" }
        .inline raises }
  have hcalls (x : Message) (arguments : List Setting) : (calls x arguments).Relays "no" :=
    ((Program.callCommand_straight _ _ _).bind fun _ => Program.pure_straight _).relays
  have hs : core.Relays "no" :=
    ⟨rfl, ((Registry.relays_empty "no").register _ _ hcalls).register _ _ fun _ _ => trivial⟩
  exact ⟨{ trigger := .literal "!", core := core }, _,
    ⟨"!a", some ⟨"u", "", []⟩, "c", none, .null⟩, hs, rfl, rfl, by decide +kernel,
    by decide +kernel, by decide +kernel⟩

end ChatCommands
