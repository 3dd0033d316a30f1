import ChatCommands.Proofs.Chain.Size
import ChatCommands.Proofs.Dispatch.Telling

/-!
# Requests one after another

What a run does in its next turn begins with what its next request does. A run of many requests may
be cut into turns anywhere: what it comes to in the end is the same.

A chain makes calls and no other requests, one for each of its invocations. If every command answers
after a few requests of its own that change no tables, the run of a chain comes to its end after a
number of requests that its text gives, whatever gates are open.

## Main definitions

* `Program.Calls`: a program that makes so many calls at most, and no other requests
* `Program.Brief`: a program that makes so many requests at most, which are served at once
* `Registry.Brief`: every command answers after so many requests
* `Run.Ending`: a run that ends after so many requests

## Main results

* `Run.advance_act`: the next request of a run
* `Run.advance_split`: a run that ends has ended after some of the requests, or goes on to its end
* `Core.programOf_calls`: a chain text makes no more calls than it has characters, and one
* `Run.Ending.advance`: a run that ends after so many requests
-/

namespace ChatCommands

namespace Run

variable {opened : Setting → Bool} {s s' : Core} {e : Event} {r : Run}

theorem advance_act (opened : Setting → Bool) (n : Nat) (s : Core) (e : Event) (a : Action)
    (next : a.Reply → Program Value) (m : Manner) (fs : List Frame) :
    advance opened (n + 1) s ⟨e, .act a next, m, fs⟩ =
      advance opened n (s.serve e a).1
        ⟨(s.serve e a).2.1, next (s.serve e a).2.2, m, fs⟩ := rfl

/-- **A run that ends** has ended after some of its requests already, or it goes on from there to
the same end. -/
theorem advance_split {v : Except Fault Value} (n k : Nat)
    (h : r.advance opened (n + k) s = (s', .ended e v)) :
    r.advance opened n s = (s', .ended e v) ∨
      ∃ s₁ r₁, r.advance opened n s = (s₁, .yielded r₁) ∧
        r₁.advance opened k s₁ = (s', .ended e v) := by
  induction n generalizing r s with
  | zero =>
    rw [Nat.zero_add] at h
    exact .inr ⟨s, r, rfl, h⟩
  | succ n ih =>
    rw [Nat.succ_add, advance] at h
    rw [advance]
    rcases hstep : r.step opened s with ⟨s₁, r₁ | ⟨g, r₁⟩ | r₁ | ⟨e₁, v₁⟩⟩ <;> rw [hstep] at h
    · exact ih h
    -- After a request that the run does not go on from, the others are not made.
    · exact .inl h
    · exact .inl h
    · exact .inl h

/-- Once a run has ended more requests make no difference. -/
theorem advance_ended_of_le {v : Except Fault Value} {n k : Nat}
    (h : r.advance opened n s = (s', .ended e v)) (hle : n ≤ k) :
    r.advance opened k s = (s', .ended e v) := by
  induction n generalizing r s k with
  | zero => cases (Prod.mk.inj h).2
  | succ n ih =>
    obtain ⟨k, rfl⟩ : ∃ k', k = k' + 1 := ⟨k - 1, by omega⟩
    rw [advance] at h ⊢
    rcases hstep : r.step opened s with ⟨s₁, r₁ | ⟨g, r₁⟩ | r₁ | ⟨e₁, v₁⟩⟩ <;> rw [hstep] at h
    · exact ih h (by omega)
    · exact h
    · exact h
    · exact h

/-- A run ends in one way only. -/
theorem advance_ended_unique {v v' : Except Fault Value} {e' : Event} {s'' : Core} {n k : Nat}
    (h : r.advance opened n s = (s', .ended e v))
    (h' : r.advance opened k s = (s'', .ended e' v')) :
    s'' = s' ∧ e' = e ∧ v' = v := by
  have hn := advance_ended_of_le h (Nat.le_add_right n k)
  rw [advance_ended_of_le h' (Nat.le_add_left k n)] at hn
  obtain ⟨hs, hp⟩ := Prod.mk.inj hn
  exact ⟨hs, Progress.ended.inj hp⟩

end Run

/-! ## Programs that call -/

namespace Program

variable {α β : Type}

/-- The program makes so many calls at most, and no other requests. -/
def Calls : Program α → Nat → Prop
  | done _, _ => True
  | call _ _ _ next, n + 1 => ∀ a, (next a).Calls n
  | _, _ => False

theorem Calls.mono {p : Program α} {m n : Nat} (h : p.Calls m) (hle : m ≤ n) : p.Calls n := by
  induction p generalizing m n with
  | done r => trivial
  | act a next => cases h
  | wait g next => cases h
  | call name arguments chained next ih =>
    cases m with
    | zero => cases h
    | succ m =>
      obtain ⟨n, rfl⟩ : ∃ n', n = n' + 1 := ⟨n - 1, by omega⟩
      exact fun a => ih a (h a) (by omega)

theorem pure_calls (a : α) : (pure a : Program α).Calls 0 := trivial

/-- One program after another makes the calls of both. -/
theorem Calls.bind {p : Program α} {f : α → Program β} {m n : Nat} (hp : p.Calls m)
    (hf : ∀ a, (f a).Calls n) : (p >>= f).Calls (m + n) := by
  show (p.bind f).Calls (m + n)
  -- Induction on the first program; the second has its part only where the first is done.
  induction p generalizing m with
  | done r =>
    cases r with
    | ok a => exact (hf a).mono (Nat.le_add_left n m)
    | error x => trivial
  | act a next => cases hp
  | wait g next => cases hp
  | call name arguments chained next ih =>
    cases m with
    | zero => cases hp
    | succ m =>
      rw [Nat.succ_add]
      exact fun a => ih a (hp a)

theorem callCommand_calls (name : Setting) (arguments : List Setting) (chained : Bool) :
    (callCommand name arguments chained).Calls 1 := fun _ => trivial

end Program

-- Induction on the chain, along the definitions of its program and of the number of its
-- invocations.
mutual

/-- **The program of a chain** makes one call for each of its invocations. -/
theorem chainFrom_calls (chained : Bool) (previous : Option String) :
    ∀ c : Chain, (chainFrom chained previous c).Calls (chainCalls c)
  | [] => by
    rw [chainFrom]
    trivial
  | .call name arguments :: rest => by
    rw [chainFrom, chainCalls, Nat.add_assoc]
    refine (resolve_calls previous arguments).bind fun texts => ?_
    exact (Program.callCommand_calls _ _ _).bind fun a => chainFrom_calls chained a rest

theorem resolve_calls (previous : Option String) :
    ∀ as : List (List Part), (resolve previous as).Calls (argumentsCalls as)
  | [] => by
    rw [resolve]
    trivial
  | a :: as => by
    rw [resolve, argumentsCalls]
    refine (resolveParts_calls previous a).bind fun text => ?_
    exact (resolve_calls previous as).bind fun texts => Program.pure_calls _

theorem resolveParts_calls (previous : Option String) :
    ∀ ps : List Part, (resolveParts previous ps).Calls (argumentCalls ps)
  | [] => by
    rw [resolveParts]
    trivial
  | .text s :: ps => by
    rw [resolveParts, resolvePart, argumentCalls]
    exact (resolveParts_calls previous ps).bind fun texts => Program.pure_calls _
  | .previous :: ps => by
    rw [resolveParts, resolvePart, argumentCalls]
    exact (resolveParts_calls previous ps).bind fun texts => Program.pure_calls _
  | .sub c :: ps => by
    rw [resolveParts, resolvePart, argumentCalls]
    have htext : (chainFrom true none c >>= fun result => pure (result.getD "")).Calls
        (chainCalls c) :=
      (chainFrom_calls true none c).bind fun result => Program.pure_calls _
    refine htext.bind fun text => ?_
    exact (resolveParts_calls previous ps).bind fun texts => Program.pure_calls _

end

theorem simpleProgram_calls (c : Chain) : (simpleProgram c).Calls 1 := by
  cases c with
  | nil => trivial
  | cons i c => exact Program.callCommand_calls _ _ _

/-- A chain text makes no more calls than it has characters, and one. -/
theorem Core.programOf_calls (s : Core) (e : Event) (text : String) :
    (s.programOf e text).2.Calls (text.length + 1) := by
  unfold programOf
  split
  · unfold programOfParsed
    rcases h : (parseChain s.attributes text).chain with f | c
    · trivial
    · have hc := (chainFrom_calls (1 < c.length) none c).mono (parseChain_calls_le h)
      exact (hc.bind fun result => Program.pure_calls _).mono (by omega)
  · exact ((simpleProgram_calls _).bind fun result => Program.pure_calls _).mono (by omega)

/-! ## Programs that answer -/

/-- Whether a request is served at once and changes no tables. A reply has to be a text. -/
def Action.isMild : Action → Bool
  | reply t => t.text?.isSome
  | setUser _ _ => false
  | setRole _ _ => false
  | unregister _ => false
  | _ => true

/-- The program makes so many requests at most, all of them mild, and calls nothing. -/
def Program.Brief {α : Type} : Program α → Nat → Prop
  | done _, _ => True
  | act a next, n + 1 => a.isMild = true ∧ ∀ reply, (next reply).Brief n
  | _, _ => False

/-- Every command runs as part of the unit that calls it, and answers after so many requests. -/
def Registry.Brief (r : Registry) (n : Nat) : Prop :=
  ∀ b ∈ r.bindings, b.command.manner = .inline ∧ ∀ m as, (b.command.handler m as).Brief n

/-- Whether a reply, if it is one, is a text. -/
def Happening.inText : Happening → Bool
  | sent o => o.inText
  | unsent o => o.inText
  | _ => true

theorem Happening.inText_of_isSilent {h : Happening} (hs : h.isSilent = true) :
    h.inText = true := by
  cases h with
  | sent o => exact hs
  | unsent o => exact hs
  | _ => rfl

namespace Core

variable (s : Core) (e : Event) {a : Action}

/-- What a mild request changes is the journal, which it tells of no reply that is not a text. -/
theorem serve_mild (ha : a.isMild = true) :
    (s.serve e a).1.tables = s.tables ∧ s.Tells Happening.inText e.unit (s.serve e a).1 := by
  have hsend {o : Outgoing} (ho : o.inText = true) :
      (s.send e o).1.tables = s.tables ∧ s.Tells Happening.inText e.unit (s.send e o).1 :=
    ⟨(s.send_keeps e o).tables,
      (s.send_gate e ho).mono fun _ hg =>
        Happening.inText_of_isSilent (Happening.isSilent_of_isGate hg)⟩
  cases a with
  | reply t => exact hsend (o := .reply e.channel t) ha
  | direct t =>
    simp only [serve]
    split
    · exact ⟨rfl, .refl s⟩
    next u _ => exact hsend (o := .direct u.id t) rfl
  | file n c => exact hsend (o := .file e.channel n c) rfl
  | append l => exact ⟨rfl, .record s rfl⟩
  | drain => exact ⟨rfl, .record s rfl⟩
  | setUser id n => cases ha
  | setRole id n => cases ha
  | unregister n => cases ha
  | _ => exact ⟨rfl, .refl s⟩

end Core

/-! ## Runs that end -/

namespace Run

/-- The run ends after so many requests, where every command answers after `n`: it makes calls, or
it waits for a command that it has called. -/
inductive Ending (n : Nat) : Run → Nat → Prop where
  | calling {e : Event} {p : Program Value} {m : Manner} {k : Nat} (hp : p.Calls k) :
    Ending n ⟨e, p, m, []⟩ (k * (n + 2))
  | waiting {e : Event} {p : Program Value} {m : Manner} {f : Frame} {i k : Nat} (hp : p.Brief i)
      (hf : ∀ a, (f.resume a).Calls k) : Ending n ⟨e, p, m, [f]⟩ (i + 1 + k * (n + 2))

variable {s : Core} {r : Run} {n j : Nat}

/-- Only a program that waits looks at the gates. -/
theorem step_opened (h : ∀ g next, r.program ≠ .wait g next) (opened opened' : Setting → Bool) :
    r.step opened s = r.step opened' s := by
  obtain ⟨e, p, m, fs⟩ := r
  cases p with
  | wait g next => exact absurd rfl (h g next)
  | _ => rfl

theorem Ending.ne_wait (h : r.Ending n j) (g : Setting) (next : Program Value) :
    r.program ≠ .wait g next := by
  cases h with
  | calling hp =>
    rintro rfl
    cases hp
  | waiting hp hf =>
    rintro rfl
    cases hp

/-- **A request** brings the run nearer to its end. -/
theorem Ending.step (h : r.Ending n j) (hs : s.registry.Brief n) (opened : Setting → Bool) :
    (∃ v, r.step opened s = (s, .ended r.event v)) ∨
      ∃ s' r' j', r.step opened s = (s', .on r') ∧ r'.Ending n j' ∧ j' < j := by
  cases h with
  | @calling e p m k hp =>
    cases p with
    | done result => exact .inl ⟨result, rfl⟩
    | act a next => cases hp
    | wait g next => cases hp
    | call name arguments chained next =>
      right
      cases k with
      | zero => cases hp
      | succ k =>
        have hless : k * (n + 2) < (k + 1) * (n + 2) := by
          rw [Nat.succ_mul]
          omega
        rcases hd : s.dispatch e name arguments chained with ⟨s', e', c | t | f⟩
        · -- A command that is entered is one of the registry.
          obtain ⟨b, hb, rfl⟩ := Registry.mem_of_get
            (Core.dispatch_enter (congrArg (·.2.2) hd)).1.bound
          obtain ⟨hm, hh⟩ := hs b hb
          have hstep : Run.step opened s ⟨e, .call name arguments chained next, m, []⟩ =
              (s', .on
                ⟨e', b.command.handler e'.message arguments, .inline, [⟨name, m, next⟩]⟩) := by
            simp only [Run.step, hd, enter, hm]
          refine ⟨_, _, _, hstep, .waiting (hh _ _) hp, ?_⟩
          rw [Nat.succ_mul]
          omega
        · have hstep : Run.step opened s ⟨e, .call name arguments chained next, m, []⟩ =
              (s', .on ⟨e', next (.ok t), m, []⟩) := by
            simp only [Run.step, hd]
          exact ⟨_, _, _, hstep, .calling (hp _), hless⟩
        · have hstep : Run.step opened s ⟨e, .call name arguments chained next, m, []⟩ =
              (s', .on ⟨e', next (.error f), m, []⟩) := by
            simp only [Run.step, hd]
          exact ⟨_, _, _, hstep, .calling (hp _), hless⟩
  | @waiting e p m f i k hp hf =>
    right
    cases p with
    | done result =>
      -- The program that has called goes on without a request of its own.
      have hleave : (leave s e f [] result).2.Ending n (k * (n + 2)) := by
        cases result <;> exact .calling (hf _)
      exact ⟨_, _, _, rfl, hleave, by omega⟩
    | act a next =>
      cases i with
      | zero => cases hp
      | succ i => exact ⟨_, _, _, rfl, .waiting (hp.2 _) hf, by omega⟩
    | wait g next => cases hp
    | call name arguments chained next => cases hp

/-- A request of such a run changes the journal, which it tells of no reply that is not a text. -/
theorem Ending.step_tells (h : r.Ending n j) (opened : Setting → Bool) :
    (r.step opened s).1.tables = s.tables ∧
      s.Tells Happening.inText r.event.unit (r.step opened s).1 := by
  have hact {a : Action} {next : a.Reply → Program Value} (hp : r.program = .act a next) :
      a.isMild = true := by
    cases h with
    | calling hc =>
      subst hp
      cases hc
    | @waiting _ _ _ _ i _ hb hf =>
      subst hp
      cases i with
      | zero => cases hb
      | succ i => exact hb.1
  constructor
  · rcases r.step_tables opened s with ⟨a, next, hp⟩ | ht
    · obtain ⟨e, p, m, fs⟩ := r
      obtain rfl : p = _ := hp
      exact (s.serve_mild e (hact rfl)).1
    · exact ht
  · refine step_tells_of ⟨fun _ => Happening.inText_of_isSilent, ?_, ?_, fun _ _ => rfl⟩ opened s
    · intro a next hp s
      exact (s.serve_mild r.event (hact hp)).2
    · intro name arguments chained next _
      exact ⟨⟨fun _ => Happening.inText_of_isSilent, rfl, fun _ _ => rfl, rfl⟩, rfl⟩

/-- **Such a run ends** after so many requests and the one that ends it, whatever gates are open.
The tables are as they were, and all replies are texts. -/
theorem Ending.advance (h : r.Ending n j) (hs : s.registry.Brief n) :
    ∃ s' e v, (∀ opened, r.advance opened (j + 1) s = (s', .ended e v)) ∧ s'.tables = s.tables ∧
      e.unit = r.event.unit ∧ s.Tells Happening.inText r.event.unit s' := by
  -- Induction on the number of requests; each of them is served alike, whatever gates are open.
  induction j using Nat.strongRecOn generalizing s r with
  | ind j ih =>
    have hopened := step_opened (s := s) h.ne_wait (fun _ => true)
    rcases h.step hs fun _ => true with ⟨v, hstep⟩ | ⟨s₁, r₁, j₁, hstep, h₁, hlt⟩
    · refine ⟨s, r.event, v, ?_, rfl, rfl, .refl s⟩
      intro opened
      rw [advance, ← hopened opened, hstep]
    · obtain ⟨ht, htells⟩ := h.step_tells (s := s) fun _ => true
      have hunit := r.step_unit (fun _ => true) s
      rw [hstep] at ht htells hunit
      have hu₁ : r₁.event.unit = r.event.unit := hunit
      have hregistry : s₁.registry = s.registry := congrArg (·.registry) ht
      have hs₁ : s₁.registry.Brief n := by rwa [hregistry]
      obtain ⟨s', e, v, hadvance, ht', hu', htells'⟩ := ih j₁ hlt h₁ hs₁
      refine ⟨s', e, v, ?_, ht'.trans ht, hu'.trans hu₁, htells.trans (hu₁ ▸ htells')⟩
      intro opened
      rw [advance, ← hopened opened, hstep]
      exact advance_ended_of_le (hadvance opened) hlt

end Run

end ChatCommands
