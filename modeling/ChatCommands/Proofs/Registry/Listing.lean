import ChatCommands.Proofs.Dispatch.Gate
import ChatCommands.Proofs.Dispatch.Requests
import ChatCommands.Proofs.Registry.History

/-!
# What help lists

Help lists commands by their own names, the first ones that they were registered under, whatever
they are still bound under. Each listed command is bound under one of its names. Its own name need
not be among them: it may have been removed while an alias was left, or stand for a later command. A
listed name stands for the command that is listed exactly if nothing was done to it since its
registration, and then help describes that command and a call of the name enters it.

## Main definitions

* `Registry.helpListed`: the commands that help lists
* `KeepsOwnName`: nothing was done to the own name of a command since it was registered
* `Core.Serves`: the own name of a command leads to it

## Main results

* `advance_help`: what help shows, and how
* `help_lists_live`: which of the listed names lead to the commands that are listed
* `help_lists_dead`: a listing with a name that was removed and one that stands for another command
-/

namespace ChatCommands

variable {b : Bot} {c : Command} {ops : List RegistryOp} {s : Core} {e : Event} {n : Setting}

/-- The commands that help lists. -/
def Registry.helpListed (r : Registry) : List Command :=
  r.commands.filter (·.helpAvailable.counts)

/-- What becomes of the commands that are to be listed. -/
def showListed (available : List CommandInfo) : Program Value :=
  if inlineLimit < available.length then do
    let _ ← Program.direct (.text (listCommands available))
    return .text "Sending list in PM!"
  else return .text (listCommands available)

/-- What a list of commands comes to: it is the answer, or sent to the author alone if it is
long. -/
def Core.showsListed (s : Core) (e : Event) (available : List CommandInfo) : Core × Progress :=
  if inlineLimit < available.length then
    match s.serve e (.direct (.text (listCommands available))) with
    | (s, e, r) => (s, .ended e (r.map fun _ => .text "Sending list in PM!"))
  else (s, .ended e (.ok (.text (listCommands available))))

theorem listAll_eq :
    listAll = .act .listing fun cs => showListed (cs.filter (·.helpAvailable.counts)) := rfl

theorem advance_showListed (opened : Setting → Bool) (s : Core) (e : Event)
    (available : List CommandInfo) :
    Run.advance opened 2 s { event := e, program := showListed available } =
      s.showsListed e available := by
  unfold showListed Core.showsListed
  split
  · -- The list is sent at once, and the answer of help follows if it could be sent.
    show Run.advance opened 1 (s.serve e (.direct (.text (listCommands available)))).1
      ⟨(s.serve e (.direct (.text (listCommands available)))).2.1,
        Program.bind (.done (s.serve e (.direct (.text (listCommands available)))).2.2) _,
        .inline, []⟩ = _
    rcases s.serve e (.direct (.text (listCommands available))) with ⟨s', e', f | m⟩
    · rfl
    · rfl
  · rfl

theorem helpListed_toCommandInfo (r : Registry) :
    (r.commands.map (·.toCommandInfo)).filter (·.helpAvailable.counts) =
      r.helpListed.map (·.toCommandInfo) := by
  rw [Registry.helpListed, List.filter_map]
  rfl

theorem Core.serve_listing (s : Core) (e : Event) :
    s.serve e .listing = (s, e, s.registry.commands.map (·.toCommandInfo)) := rfl

/-- **What help shows without a name**: the commands that are listed, in its answer or to the author
alone. -/
theorem advance_help (opened : Setting → Bool) (s : Core) (e : Event) (m : Message)
    {arguments : List Setting} (h : ∀ name ∈ arguments.head?, name.counts = false) :
    Run.advance opened 3 s { event := e, program := helpHandler m arguments } =
      s.showsListed e (s.registry.helpListed.map (·.toCommandInfo)) := by
  have hlist : helpHandler m arguments = listAll := by
    cases arguments with
    | nil => rfl
    | cons name rest =>
      have hname := h name rfl
      simp [helpHandler, hname]
  rw [hlist, listAll_eq, Run.advance_act, Core.serve_listing, helpListed_toCommandInfo]
  exact advance_showListed opened s e _

/-- Nothing was done to the own name of a command since it was registered. -/
def KeepsOwnName (ops : List RegistryOp) (c : Command) : Prop :=
  ∀ i j o, madeAt ops i = some c → i < j → ops[j]? = some o →
    ¬o.Lists c.name ∧ ¬o.Removes c.name

/-- The own name of a command leads to it. -/
structure Core.Serves (s : Core) (c : Command) : Prop where
  /-- The name stands for the command. -/
  bound : s.registry.get c.name = .ok (some c)
  /-- Help with the name describes it. No name that does not count is looked up. -/
  described : ∀ (opened : Setting → Bool) (e : Event) (m : Message) (rest : List Setting),
    c.name.counts = true →
      Run.advance opened 3 s { event := e, program := helpHandler m (c.name :: rest) } =
        (s, .ended e ((describeCommand c.name c.toCommandInfo).map .text))
  /-- A call of the name enters it, if the author may use it and it takes the call. -/
  entered : ∀ (e : Event) (arguments : List Setting) (chained : Bool),
    (s.authorise e c.toCommandInfo).2 = .ok true →
      c.refusal? arguments.length chained = .ok none →
        (s.dispatch e c.name arguments chained).2.2 = .enter c
  /-- A call of the name enters no other command. -/
  alone : ∀ (e : Event) (arguments : List Setting) (chained : Bool) (d : Command),
    (s.dispatch e c.name arguments chained).2.2 = .enter d → d = c

theorem describeNamed_eq (n : Setting) :
    describeNamed n = .act (.lookUp n) fun r => Program.bind (.done r) fun
      | none => pure (.text ("The command `" ++ n.shown ++ "` does not exist!"))
      | some c => Program.bind (.done (describeCommand n c)) fun t => pure (.text t) := rfl

namespace Core

/-- What help says of a name. -/
def helpFor (n : Setting) : Option CommandInfo → Except Fault Value
  | none => .ok (.text ("The command `" ++ n.shown ++ "` does not exist!"))
  | some c => (describeCommand n c).map .text

theorem advance_helpFor {x : Option Command} (opened : Setting → Bool) (s : Core) (e : Event)
    (m : Message) (rest : List Setting) (h : s.registry.get n = .ok x) (hn : n.counts = true) :
    Run.advance opened 3 s { event := e, program := helpHandler m (n :: rest) } =
      (s, .ended e (helpFor n (x.map (·.toCommandInfo)))) := by
  have hdescribe : helpHandler m (n :: rest) = describeNamed n := by simp [helpHandler, hn]
  have hreply : s.serve e (.lookUp n) = (s, e, .ok (x.map (·.toCommandInfo))) := by
    rw [serve, h]
    rfl
  rw [hdescribe, describeNamed_eq, Run.advance_act, hreply]
  cases x with
  | none => rfl
  | some c =>
    show Run.advance opened 2 s
      ⟨e, Program.bind (.done (describeCommand n c.toCommandInfo)) _, .inline, []⟩ = _
    simp only [Option.map_some, helpFor]
    cases describeCommand n c.toCommandInfo <;> rfl

theorem dispatch_enters {arguments : List Setting} {chained : Bool}
    (h : s.registry.get n = .ok (some c)) (ha : (s.authorise e c.toCommandInfo).2 = .ok true)
    (hr : c.refusal? arguments.length chained = .ok none) :
    (s.dispatch e n arguments chained).2.2 = .enter c := by
  have hs := (s.log_keeps e.unit (.commandExecuting n arguments)).tables
  rw [← authorise_outcome hs] at ha
  have h' : (s.log e.unit (.commandExecuting n arguments)).registry.get n = _ := h
  unfold dispatch dispatchBound
  simp only [h']
  generalize (s.log e.unit (.commandExecuting n arguments)).authorise e c.toCommandInfo = p at ha ⊢
  obtain ⟨s', r⟩ := p
  subst ha
  simp [accept, hr]

theorem serves_of_get (h : s.registry.get c.name = .ok (some c)) : s.Serves c where
  bound := h
  described opened e m rest hn := advance_helpFor opened s e m rest h hn
  entered _ _ _ ha hr := dispatch_enters h ha hr
  alone e arguments chained d hd := by
    have hbound := (dispatch_enter hd).1.bound
    rw [h] at hbound
    exact (Option.some.inj (Except.ok.inj hbound)).symm

end Core

/-- The operation that made a command that some name stands for listed its own name too. -/
theorem Counts.lists_name {i : Nat} (h : Counts ops i n c) :
    ∃ o, ops[i]? = some o ∧ o.Lists c.name := by
  obtain ⟨o, ho, hkeys, k, hk, -⟩ := h.keys_eq
  obtain ⟨k', hk', hname⟩ := key_mem_keysOf_cons (hkeys ▸ hk)
  exact ⟨o, ho, k', hkeys ▸ hk', hname⟩

theorem mem_names_of_counts (h : b.core.registry = {}) {i : Nat} (hi : Counts ops i n c) :
    ∃ m ∈ c.names, (b.administered ops).core.registry.get m = .ok (some c) := by
  obtain ⟨o, ho, hkeys, k, hk, hn⟩ := hi.keys_eq
  obtain ⟨m, hm, hmk⟩ := exists_of_mem_keysOf (hkeys ▸ hk)
  refine ⟨m, hm, ?_⟩
  have hget := (get_administered_iff h ops).mpr ⟨i, hi⟩
  rwa [Registry.get_of_key _ hn, ← Registry.get_of_key _ hmk] at hget

/-- What a command's own name stands for is told from what was done to it since. -/
theorem get_name_iff (h : b.core.registry = {})
    (hc : c ∈ (b.administered ops).core.registry.commands) :
    (b.administered ops).core.registry.get c.name = .ok (some c) ↔ KeepsOwnName ops c := by
  obtain ⟨n, hn⟩ := (mem_commands_administered h ops).mp hc
  obtain ⟨i, hi⟩ := (get_administered_iff h ops).mp hn
  rw [get_administered_iff h]
  constructor
  · rintro ⟨j, hj⟩ i' j' o hi' hij ho
    obtain rfl := place_of_registration hi' hj.made rfl
    exact hj.last j' o hij ho
  · intro hkeeps
    exact ⟨i, hi.made, hi.lists_name, fun j o hij ho => hkeeps i j o hi.made hij ho⟩

/-- **Which listed names lead to what is listed.** Help lists what a registry holds, in whatever
form. Each command that it lists is bound under one of its names, and its own name, by which it is
listed, leads to it exactly if nothing was done to that name since the command was registered. -/
theorem help_lists_live (h : b.core.registry = {}) (ops : List RegistryOp)
    (hs : s.registry = (b.administered ops).core.registry) :
    (∀ (opened : Setting → Bool) (e : Event) (m : Message) (arguments : List Setting),
      (∀ name ∈ arguments.head?, name.counts = false) →
        Run.advance opened 3 s { event := e, program := helpHandler m arguments } =
          s.showsListed e (s.registry.helpListed.map (·.toCommandInfo))) ∧
      (∀ c ∈ s.registry.helpListed, ∃ n ∈ c.names, s.registry.get n = .ok (some c)) ∧
      ∀ c ∈ s.registry.helpListed, s.Serves c ↔ KeepsOwnName ops c := by
  have hlisted {c : Command} (hc : c ∈ s.registry.helpListed) :
      c ∈ (b.administered ops).core.registry.commands := hs ▸ List.mem_of_mem_filter hc
  refine ⟨fun opened e m arguments hnames => advance_help opened s e m hnames, ?_, ?_⟩
  · intro c hc
    obtain ⟨n, hn⟩ := (mem_commands_administered h ops).mp (hlisted hc)
    obtain ⟨i, hi⟩ := (get_administered_iff h ops).mp hn
    rw [hs]
    exact mem_names_of_counts h hi
  · intro c hc
    rw [← get_name_iff h (hlisted hc), ← hs]
    exact ⟨Core.Serves.bound, Core.serves_of_get⟩

/-- A bot with help and two commands. One of them loses an alias to the other, and all keep their
own names. -/
theorem help_lists_live_alias :
    ∃ (b : Bot) (ops : List RegistryOp) (s : Core), b.core.registry = {} ∧
      s.registry = (b.administered ops).core.registry ∧
      s.registry.helpListed.map (·.name) = ["help", "alpha", "gamma"] ∧
      ∀ c ∈ s.registry.helpListed, s.Serves c := by
  let b : Bot := .build (.fixed .null [] [] []) (.literal "!") { helpNames := .many [] } .null
  let answers : Handler := fun _ _ => pure (.text "a")
  let ops : List RegistryOp :=
    [.add "help" [] .inline helpHandler, .add (.list ["alpha", "beta"]) [] .inline answers,
      .add (.list ["gamma", "beta"]) [] .inline answers]
  obtain ⟨-, -, hserves⟩ := help_lists_live (b := b) rfl ops rfl
  refine ⟨b, ops, (b.administered ops).core, rfl, rfl, by decide +kernel, fun c hc => ?_⟩
  refine (hserves c hc).mpr fun i j o hi hij ho => ?_
  have hj : j < 3 := (List.getElem?_eq_some_iff.mp ho).1
  have hname : some c.name = (madeAt ops i).map (·.name) := by rw [hi]; rfl
  have hleft {name : String} {ns : Setting} {h : Handler}
      (hk : .text name ∉ (RegistryOp.add ns [] .inline h).keys) :
      ¬(RegistryOp.add ns [] .inline h).Lists (.text name) ∧
        ¬(RegistryOp.add ns [] .inline h).Removes (.text name) :=
    ⟨(RegistryOp.lists_iff _ rfl).not.mpr hk, fun ⟨_, hm, _⟩ => nomatch hm⟩
  obtain ⟨rfl, rfl⟩ | ⟨rfl, rfl⟩ | ⟨rfl, rfl⟩ :
      i = 0 ∧ j = 1 ∨ i = 0 ∧ j = 2 ∨ i = 1 ∧ j = 2 := by omega
  all_goals
    obtain rfl := Option.some.inj ho
    rw [Option.some.inj hname]
    exact hleft (by decide +kernel)

/-- Help lists a command by a name that was removed, and says of that name that it does not
exist. -/
theorem help_lists_dead :
    ∃ (b : Bot) (c : Command),
      b = (Bot.build (.fixed .null [] [] []) (.literal "!") {} .null).administered
        [.add (.list ["alpha", "beta"]) [] .inline fun _ _ => pure (.text "a"),
          .remove "alpha"] ∧
      c ∈ b.core.registry.helpListed ∧ c.name = "alpha" ∧
      b.core.registry.get "alpha" = .ok none ∧ b.core.registry.names = ["help", "beta"] ∧
      listCommands (b.core.registry.helpListed.map (·.toCommandInfo)) =
        "**List of commands:**\n**`help`**: " ++ (helpInfo "help" []).summary ++
          "\n**`alpha`**: *No description available*\n" ∧
      Run.advance (fun _ => true) 3 b.core
          { event := default, program := helpHandler default ["alpha"] } =
        (b.core, .ended default (.ok (.text "The command `alpha` does not exist!"))) := by
  let answers : Handler := fun _ _ => pure (.text "a")
  let c : Command :=
    { name := "alpha", aliases := ["beta"], registration := 1, manner := .inline
      handler := answers }
  refine ⟨_, c, rfl, .tail _ (.head _), rfl, rfl, by decide +kernel, by decide +kernel, ?_⟩
  exact Core.advance_helpFor (n := "alpha") (x := none) _ _ _ _ _ rfl (by decide)

end ChatCommands
