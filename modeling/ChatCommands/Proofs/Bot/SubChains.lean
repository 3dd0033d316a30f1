import ChatCommands.Proofs.Bot.Modes

/-!
# Sub-chains and previous results

A command that works on the result of a chain can be written behind the chain, with the mark for the
result of the step before, or around it, with the chain as its argument. Inside a chain the two are
the same program. At the top they differ in one point: behind a chain the command is called as part
of it, and around a chain it is called alone. That is all the same to a command that may be part of
a chain, so that both come to the same, request by request, whatever others do in the meantime.

That two programs make the same requests but for one that is made alone is a relation on programs. A
run keeps it from request to request, with the lowest program on one side of it and the other, and
the same programs above. So nothing has to be known of what the commands of the chain do.

## Main definitions

* `Core.TakesChains`: a name that stands for no command that takes no part in chains
* `Program.Unchained`, `Run.Unchained`: programs and runs that differ in that a command is called
  alone and not in a chain
* `Run.amid`: the requests of a run, with others at work before each

## Main results

* `chainFrom_behind`, `chainFrom_around`: a command behind a chain, and around it
* `Run.Unchained.step`: a request comes to the same in a chain and alone
* `subchain_as_step`: a chain in an argument is a chain in front
-/

namespace ChatCommands

/-! ## Calls in chains and alone -/

/-- The name stands for no command, or for one that may be part of a chain. -/
def Core.TakesChains (s : Core) (name : Setting) : Prop :=
  ∀ c, s.registry.get name = .ok (some c) → c.chainUsable.counts = true

theorem CommandInfo.refusal?_chained {c : CommandInfo} (h : c.chainUsable.counts = true)
    (count : Nat) : c.refusal? count true = c.refusal? count false := by
  rw [refusal?, refusal?, h]
  rfl

/-- A command that may be part of a chain takes a call in it as it takes one alone. -/
theorem Core.dispatch_chained {s : Core} {name : Setting} (h : s.TakesChains name) (e : Event)
    (arguments : List Setting) :
    s.dispatch e name arguments true = s.dispatch e name arguments false := by
  have hget : (s.log e.unit (.commandExecuting name arguments)).registry.get name =
    s.registry.get name := rfl
  have haccept {c : Command} (hc : c.chainUsable.counts = true) (s : Core) (e : Event) :
      s.accept e name c arguments true = s.accept e name c arguments false := by
    rw [accept, accept, CommandInfo.refusal?_chained hc]
  unfold dispatch
  dsimp only
  rw [hget]
  rcases hc : s.registry.get name with f | - | c
  · rfl
  · rfl
  · simp only [dispatchBound, haccept (h c hc)]

namespace Program

/-- Programs that make the same requests, except that the second may call `b` alone where the first
calls it in a chain. -/
inductive Unchained {α : Type} (b : Setting) : Program α → Program α → Prop where
  | done (result : Except Fault α) : Unchained b (.done result) (.done result)
  | act (a : Action) {next next' : a.Reply → Program α} (h : ∀ r, Unchained b (next r) (next' r)) :
    Unchained b (.act a next) (.act a next')
  | wait (g : Setting) {next next' : Program α} (h : Unchained b next next') :
    Unchained b (.wait g next) (.wait g next')
  | call (name : Setting) (arguments : List Setting) (chained : Bool)
      {next next' : Except Fault (Option String) → Program α}
      (h : ∀ x, Unchained b (next x) (next' x)) :
    Unchained b (.call name arguments chained next) (.call name arguments chained next')
  | alone (arguments : List Setting) {next next' : Except Fault (Option String) → Program α}
      (h : ∀ x, Unchained b (next x) (next' x)) :
    Unchained b (.call b arguments true next) (.call b arguments false next')

namespace Unchained

variable {α β : Type} {b : Setting}

theorem refl (p : Program α) : Unchained b p p := by
  induction p with
  | done result => exact .done result
  | act a next ih => exact .act a ih
  | call name arguments chained next ih => exact .call name arguments chained ih
  | wait g next ih => exact .wait g ih

theorem bind {p p' : Program α} {f f' : α → Program β} (h : Unchained b p p')
    (hf : ∀ a, Unchained b (f a) (f' a)) : Unchained b (p >>= f) (p' >>= f') := by
  show Unchained b (p.bind f) (p'.bind f')
  induction h with
  | done result =>
    rcases result with x | a
    · exact .done (.error x)
    · exact hf a
  | act a h ih => exact .act a ih
  | wait g h ih => exact .wait g ih
  | call name arguments chained h ih => exact .call name arguments chained ih
  | alone arguments h ih => exact .alone arguments ih

end Unchained

end Program

/-! ## Commands behind chains and around them -/

theorem chainFrom_append (chained : Bool) (previous : Option String) (A B : Chain) :
    chainFrom chained previous (A ++ B) =
      chainFrom chained previous A >>= fun t => chainFrom chained t B := by
  induction A generalizing previous with
  | nil => rfl
  | cons call rest ih =>
    obtain ⟨name, arguments⟩ := call
    simp only [List.cons_append, chainFrom, Program.bind_assoc, ih]

/-- A command behind a chain, with the result of the step before. -/
theorem chainFrom_behind (chained : Bool) (A : Chain) (b : String) :
    chainFrom chained none (A ++ [.call b [[.previous]]]) = chainFrom chained none A >>= fun t =>
      Program.callCommand b [.text (t.getD "")] chained := by
  rw [chainFrom_append]
  refine congrArg (chainFrom chained none A >>= ·) (funext ?_)
  intro t
  simp [chainFrom, resolve, resolveParts, resolvePart]

/-- A command around a chain, which is its argument. -/
theorem chainFrom_around (chained : Bool) (A : Chain) (b : String) :
    chainFrom chained none [.call b [[.sub A]]] = chainFrom true none A >>= fun t =>
      Program.callCommand b [.text (t.getD "")] chained := by
  simp [chainFrom, resolve, resolveParts, resolvePart, Program.bind_assoc]

/-- At the top, a command around a chain is called alone. -/
theorem chainProgram_unchained (A : Chain) (b : String) :
    (chainProgram (A ++ [.call b [[.previous]]])).Unchained b
      (chainProgram [.call b [[.sub A]]]) := by
  have haround : chainProgram [.call b [[.sub A]]] = chainFrom true none A >>= fun t =>
      Program.callCommand b [.text (t.getD "")] false := chainFrom_around false A b
  rw [haround]
  rcases A with - | ⟨call, A⟩
  · -- With no chain in front there is only one step, which is none of a chain.
    have hbehind : chainProgram ([] ++ [.call b [[.previous]]]) =
        chainFrom true none [] >>= fun t => Program.callCommand b [.text (t.getD "")] false :=
      chainFrom_behind false [] b
    rw [hbehind]
    exact .refl _
  · have hlength : 1 < (call :: A ++ [Invocation.call b [[.previous]]]).length := by simp
    rw [chainProgram, decide_eq_true hlength, chainFrom_behind]
    exact (Program.Unchained.refl _).bind fun t => .alone _ fun x => .refl _

/-! ## Runs -/

/-- Runs at the same point, on which the relation holds, or the same end of both. -/
inductive Progress.Like (R : Run → Run → Prop) : Progress → Progress → Prop where
  | on {r r' : Run} (h : R r r') : Like R (.on r) (.on r')
  | blocked (g : Setting) {r r' : Run} (h : R r r') : Like R (.blocked g r) (.blocked g r')
  | yielded {r r' : Run} (h : R r r') : Like R (.yielded r) (.yielded r')
  | ended (e : Event) (v : Except Fault Value) : Like R (.ended e v) (.ended e v)

namespace Progress.Like

variable {R R' : Run → Run → Prop} {g g' : Progress}

theorem mono (h : Like R g g') (hR : ∀ r r', R r r' → R' r r') : Like R' g g' := by
  cases h with
  | on h => exact .on (hR _ _ h)
  | blocked g h => exact .blocked g (hR _ _ h)
  | yielded h => exact .yielded (hR _ _ h)
  | ended e v => exact .ended e v

/-- Either both go on, or both have come to their end. -/
theorem rest (h : Like R g g') :
    (∃ r r', g.rest = some r ∧ g'.rest = some r' ∧ R r r') ∨ g.rest = none ∧ g'.rest = none := by
  cases h with
  | ended e v => exact .inr ⟨rfl, rfl⟩
  | _ => exact .inl ⟨_, _, rfl, rfl, ‹_›⟩

end Progress.Like

namespace Run

/-- Runs whose lowest programs make the same requests, except that the second may call `b` alone.
Above them the same programs run. -/
inductive Unchained (b : Setting) : Run → Run → Prop where
  | ready (e : Event) (m : Manner) {p p' : Program Value} (h : p.Unchained b p') :
    Unchained b ⟨e, p, m, []⟩ ⟨e, p', m, []⟩
  | above (e : Event) (p : Program Value) (m : Manner) (fs : List Frame) (called : Setting)
      (manner : Manner) {next next' : Except Fault (Option String) → Program Value}
      (h : ∀ x, (next x).Unchained b (next' x)) :
    Unchained b ⟨e, p, m, fs ++ [⟨called, manner, next⟩]⟩
      ⟨e, p, m, fs ++ [⟨called, manner, next'⟩]⟩

theorem Unchained.event {b : Setting} {r r' : Run} (h : r.Unchained b r') : r.event = r'.event := by
  cases h <;> rfl

/-- Programs of commands begin alike above alike runs. -/
theorem enter_like {b : Setting} {r r' : Run} {e : Event} {name : Setting} {c : Command}
    {arguments : List Setting} {next next' : Except Fault (Option String) → Program Value}
    (h : ∀ p m, Unchained b ⟨e, p, m, ⟨name, r.manner, next⟩ :: r.frames⟩
      ⟨e, p, m, ⟨name, r'.manner, next'⟩ :: r'.frames⟩) :
    Progress.Like (Unchained b) (r.enter e name c arguments next)
      (r'.enter e name c arguments next') := by
  unfold enter
  cases c.manner with
  | inline => exact .on (h _ _)
  | thread => exact .yielded (h _ _)
  | deferred => exact .yielded (h _ _)

/-- **A request** comes to the same, if `b` may be part of a chain where the second run calls it. -/
theorem Unchained.step {b : Setting} {r r' : Run} (h : r.Unchained b r') (opened : Setting → Bool)
    {s : Core} (hb : r'.frames = [] → ∀ arguments next,
      r'.program = .call b arguments false next → s.TakesChains b) :
    (r.step opened s).1 = (r'.step opened s).1 ∧
      Progress.Like (Unchained b) (r.step opened s).2 (r'.step opened s).2 := by
  cases h with
  | ready e m h =>
    -- The lowest programs are at work themselves, so that the cases are those of their relation.
    -- This is a call that both make, each with what is to follow.
    have hcall {name : Setting} {arguments : List Setting} {c c' : Bool}
        {next next' : Except Fault (Option String) → Program Value}
        (hd : s.dispatch e name arguments c = s.dispatch e name arguments c')
        (hn : ∀ x, (next x).Unchained b (next' x)) :
        (Run.step opened s ⟨e, .call name arguments c next, m, []⟩).1 =
            (Run.step opened s ⟨e, .call name arguments c' next', m, []⟩).1 ∧
          Progress.Like (Unchained b) (Run.step opened s ⟨e, .call name arguments c next, m, []⟩).2
            (Run.step opened s ⟨e, .call name arguments c' next', m, []⟩).2 := by
      simp only [Run.step, hd]
      rcases s.dispatch e name arguments c' with ⟨s', e', d | t | f⟩
      · exact ⟨rfl, enter_like fun p m' => .above e' p m' [] name m hn⟩
      · exact ⟨rfl, .on (.ready e' m (hn _))⟩
      · exact ⟨rfl, .on (.ready e' m (hn _))⟩
    cases h with
    | done result => exact ⟨rfl, .ended e result⟩
    | act a hn => exact ⟨rfl, .on (.ready _ m (hn _))⟩
    | wait g hn =>
      simp only [Run.step]
      split
      · exact ⟨rfl, .on (.ready e m hn)⟩
      · exact ⟨rfl, .blocked g (.ready e m hn)⟩
    | call name arguments chained hn => exact hcall rfl hn
    | alone arguments hn => exact hcall (Core.dispatch_chained (hb rfl _ _ rfl) e arguments) hn
  | above e p m fs called manner h =>
    -- One and the same program is at work. The lowest ones are touched by its answer only, once it
    -- is the last above them.
    cases p with
    | act a next => exact ⟨rfl, .on (.above _ _ m fs called manner h)⟩
    | wait g next =>
      simp only [Run.step]
      split
      · exact ⟨rfl, .on (.above e next m fs called manner h)⟩
      · exact ⟨rfl, .blocked g (.above e next m fs called manner h)⟩
    | call name arguments chained next =>
      simp only [Run.step]
      rcases s.dispatch e name arguments chained with ⟨s', e', d | t | f⟩
      · exact ⟨rfl, enter_like fun p m' =>
          .above e' p m' (⟨name, m, next⟩ :: fs) called manner h⟩
      · exact ⟨rfl, .on (.above e' _ m fs called manner h)⟩
      · exact ⟨rfl, .on (.above e' _ m fs called manner h)⟩
    | done result =>
      rcases fs with - | ⟨f, fs⟩
      · cases result with
        | ok v => exact ⟨rfl, .on (.ready _ manner (h _))⟩
        | error x => exact ⟨rfl, .on (.ready _ manner (h _))⟩
      · cases result with
        | ok v => exact ⟨rfl, .on (.above _ _ _ fs called manner h)⟩
        | error x => exact ⟨rfl, .on (.above _ _ _ fs called manner h)⟩

/-- A run goes on request by request, with an interlude before each. -/
def amid : List Interlude → Core × Progress → Core × Progress
  | [], p => p
  | x :: xs, p =>
    match p.2.rest with
    | none => p
    | some r => amid xs (r.step x.opened (x.act p.1))

/-- Whenever the lowest program calls `b` alone, `b` may be part of a chain. -/
def TakesChains (b : Setting) (xs : List Interlude) (p : Core × Progress) : Prop :=
  ∀ (n : Nat) (x : Interlude) (r : Run), xs[n]? = some x →
    (amid (xs.take n) p).2.rest = some r → r.frames = [] →
    ∀ arguments next, r.program = .call b arguments false next →
      (x.act (amid (xs.take n) p).1).TakesChains b

/-- **Runs** come to the same, if `b` may be part of a chain whenever the second run calls it. -/
theorem Unchained.amid {b : Setting} {xs : List Interlude} {s : Core} {g g' : Progress}
    (h : Progress.Like (Unchained b) g g') (hb : TakesChains b xs (s, g')) :
    (Run.amid xs (s, g)).1 = (Run.amid xs (s, g')).1 ∧
      Progress.Like (Unchained b) (Run.amid xs (s, g)).2 (Run.amid xs (s, g')).2 := by
  induction xs generalizing s g g' with
  | nil => exact ⟨rfl, h⟩
  | cons x xs ih =>
    rcases h.rest with ⟨r, r', hr, hr', hlike⟩ | ⟨hr, hr'⟩
    · have hstep := hlike.step x.opened (s := x.act s) (hb 0 x r' rfl hr')
      have hmoved (ys : List Interlude) :
          Run.amid (x :: ys) (s, g') = Run.amid ys (r'.step x.opened (x.act s)) := by
        simp only [Run.amid, hr']
      rw [hmoved, Run.amid]
      simp only [hr]
      -- The cores are one behind the request too, so that both runs go on from the same one.
      generalize r.step x.opened (x.act s) = q at hstep ⊢
      generalize r'.step x.opened (x.act s) = q' at hstep hmoved ⊢
      obtain ⟨t, k⟩ := q
      obtain ⟨t', k'⟩ := q'
      obtain ⟨rfl, hk⟩ : t = t' ∧ Progress.Like (Unchained b) k k' := hstep
      refine ih hk ?_
      intro n y r'' hy
      rw [← hmoved]
      exact hb (n + 1) y r'' hy
    · simpa only [Run.amid, hr, hr', true_and] using h

end Run

/-- **A chain in an argument is a chain in front.** A command that takes a sub-chain is the same, in
a chain, as the command that follows this chain and takes its result. At the top it comes to the
same too, if the command may be part of a chain, or is none, whenever it is called in the end. At
every moment the same has happened, the units share the same and the event is the same, whatever
others do, and so it is with the result. -/
theorem subchain_as_step (A : Chain) (b : String) :
    let behind : Chain := A ++ [.call b [[.previous]]]
    let around : Chain := [.call b [[.sub A]]]
    chainFrom true none behind = chainFrom true none around ∧
    ∀ (e : Event) (m : Manner) (s : Core) (others : List Interlude),
      let start (c : Chain) : Core × Progress :=
        (s, .on ⟨e, do return Value.ofText? (← chainProgram c), m, []⟩)
      Run.TakesChains b others (start around) →
        (Run.amid others (start behind)).1 = (Run.amid others (start around)).1 ∧
        (Run.amid others (start behind)).2.Like (fun r r' => r.event = r'.event)
          (Run.amid others (start around)).2 := by
  intro behind around
  refine ⟨(chainFrom_behind true A b).trans (chainFrom_around true A b).symm, ?_⟩
  intro e m s others start hb
  have hstart : (Progress.on ⟨e, do return Value.ofText? (← chainProgram behind), m, []⟩).Like
      (Run.Unchained b) (.on ⟨e, do return Value.ofText? (← chainProgram around), m, []⟩) :=
    .on (.ready e m ((chainProgram_unchained A b).bind fun t => .refl _))
  obtain ⟨hcore, hlike⟩ := Run.Unchained.amid hstart hb
  exact ⟨hcore, hlike.mono fun _ _ => Run.Unchained.event⟩

/-- A command that takes no part in chains is replaced by one that does, before it is called in the
end. -/
theorem subchain_as_step_replaced :
    ∃ (A : Chain) (b : String) (e : Event) (s : Core) (others : List Interlude),
      let behind : Chain := A ++ [.call b [[.previous]]]
      let around : Chain := [.call b [[.sub A]]]
      let start (c : Chain) : Core × Progress :=
        (s, .on ⟨e, do return Value.ofText? (← chainProgram c), .inline, []⟩)
      A ≠ [] ∧ ¬ s.TakesChains b ∧ Run.TakesChains b others (start around) ∧
      chainFrom true none behind = chainFrom true none around ∧
      (Run.amid others (start behind)).1 = (Run.amid others (start around)).1 ∧
      (Run.amid others (start behind)).2.Like (fun r r' => r.event = r'.event)
        (Run.amid others (start around)).2 ∧
      (∃ e', (Run.amid others (start around)).2 = .ended e' (.ok (.text "xx"))) := by
  let twice : Handler := fun _ arguments =>
    pure (.text ((arguments.headD .null).shown ++ (arguments.headD .null).shown))
  let e : Event := { message := ⟨"", some ⟨"u", "", []⟩, "c", none, .null⟩ }
  let names : Registry :=
    (({} : Registry).register { name := "a" } .inline fun _ _ => pure (.text "x")).register
      { name := "b", chainUsable := .bool false } .inline twice
  let s : Core := { attributes := {}, transport := .fixed .null [] [] [], registry := names }
  let idle : Interlude := ⟨id, fun _ => true⟩
  let replaces : Interlude :=
    ⟨fun s => { s with registry := s.registry.register { name := "b" } .inline twice },
      fun _ => true⟩
  let others : List Interlude := [idle, idle, replaces, idle, idle]
  let A : Chain := [.call "a" []]
  let around : Chain := [.call "b" [[.sub A]]]
  have hb : Run.TakesChains "b" others
      (s, .on ⟨e, do return Value.ofText? (← chainProgram around), .inline, []⟩) := by
    intro n x r hx hr hf arguments next hp
    -- Only the third request is a call that is made alone, and by then the command is replaced.
    rcases n with - | - | - | - | - | n
    · cases hr
      obtain ⟨-, -, hchained, -⟩ := Program.call.inj hp
      cases hchained
    · cases hr
      cases hf
    · cases hx
      intro c hc
      cases hc
      rfl
    · cases hr
      cases hf
    · cases hr
      cases hp
    · cases hx
  have hs : ¬ s.TakesChains "b" := by
    intro h
    cases h _ rfl
  obtain ⟨hsub, htop⟩ := subchain_as_step A "b"
  obtain ⟨hcore, hlike⟩ := htop e .inline s others hb
  exact ⟨A, "b", e, s, others, nofun, hs, hb, hsub, hcore, hlike, _, rfl⟩

end ChatCommands
