import ChatCommands.Proofs.Dispatch.Gate

/-!
# The outcome of a call

What becomes of a call of a name, told by what holds of the name, the author, the arguments and the
network: which questions are asked, which texts are sent, which program begins, what the call
returns, and which fault it ends with. The relations below say so without the order in which the
gate goes about it, and there is exactly one outcome of every call.

## Main definitions

* `Sends`, `Asks`: what comes of sending texts and of asking about actions
* `Authorises`, `Refusal`: what the author may do, and the texts that refuse a call
* `BoundOutcome`, `Noticed`, `CallOutcome`: what becomes of a call of a command, of a fault on its
  way out, and of a call of a name
* `Typed`: the settings of a command are of the types that they are meant to have

## Main results

* `dispatch_outcome`: every call has the outcome that the relation tells, and enters a command
  exactly if it is cleared
-/

namespace ChatCommands

/-- The core after happenings of a unit. -/
def Core.recordAll (s : Core) (u : Option Nat) (l : List Happening) : Core :=
  { s with journal := s.journal ++ l.map (Entry.mk u) }

namespace Core

variable (s : Core) (u : Option Nat) (e : Event)

@[simp] theorem recordAll_nil : s.recordAll u [] = s := by simp [recordAll]

@[simp] theorem recordAll_recordAll (l l' : List Happening) :
    (s.recordAll u l).recordAll u l' = s.recordAll u (l ++ l') := by
  simp [recordAll]

@[simp] theorem recordAll_attributes (l : List Happening) :
    (s.recordAll u l).attributes = s.attributes := rfl

@[simp] theorem recordAll_transport (l : List Happening) :
    (s.recordAll u l).transport = s.transport := rfl

@[simp] theorem recordAll_registry (l : List Happening) :
    (s.recordAll u l).registry = s.registry := rfl

theorem record_eq (h : Happening) : s.record u h = s.recordAll u [h] := rfl

theorem log_eq (l : LogEvent) : s.log u l = s.recordAll u [.logged l] := rfl

theorem askAll_eq (asked : List Setting) :
    s.askAll e asked = s.recordAll e.unit (asked.map (.asked e.authorId)) := by
  induction asked generalizing s with
  | nil => exact (s.recordAll_nil _).symm
  | cons a asked ih =>
    have hs := ih (s.record e.unit (.asked e.authorId a))
    rw [record_eq, recordAll_recordAll] at hs
    exact hs

variable {s u} in
/-- What is new in a journal tells what has happened. -/
theorem journal_unique {s' : Core} {l l' : List Happening}
    (h : s'.journal = s.journal ++ l.map (Entry.mk u))
    (h' : s'.journal = s.journal ++ l'.map (Entry.mk u)) : l = l' :=
  (List.map_inj_right fun _ _ h => (Entry.mk.inj h).2).mp
    (List.append_cancel_left (h.symm.trans h'))

/-- Different happenings leave different journals. -/
theorem recordAll_injective : Function.Injective (s.recordAll u) :=
  fun _ _ h => journal_unique rfl (congrArg Core.journal h)

end Core

/-! ## Texts that are sent -/

/-- Texts are sent to a channel in order, all of them or up to the first that cannot be sent. -/
inductive Sends (t : Transport) (ch : Id) :
    List String → List Happening → Except Fault Unit → Prop where
  | all {texts : List String} (h : ∀ x ∈ texts, t.deliver (.reply ch x) = .ok ()) :
    Sends t ch texts (texts.map fun x : String => .sent (.reply ch x)) (.ok ())
  | fails {texts rest : List String} {x : String} {f : Fault}
      (h : ∀ x ∈ texts, t.deliver (.reply ch x) = .ok ())
      (hx : t.deliver (.reply ch x) = .error f) :
    Sends t ch (texts ++ x :: rest)
      ((texts.map fun x : String => .sent (.reply ch x)) ++ [.unsent (.reply ch x)]) (.error f)

theorem exists_sends (t : Transport) (ch : Id) (texts : List String) :
    ∃ l r, Sends t ch texts l r := by
  induction texts with
  | nil => exact ⟨_, _, .all (by simp)⟩
  | cons x texts ih =>
    rcases hx : t.deliver (.reply ch x) with f | ⟨⟩
    · exact ⟨_, _, @Sends.fails _ _ [] _ _ _ (by simp) hx⟩
    · obtain ⟨l, r, h | ⟨h, hf⟩⟩ := ih
      · exact ⟨_, _, .all (List.forall_mem_cons.mpr ⟨hx, h⟩)⟩
      · exact ⟨_, _, @Sends.fails _ _ (x :: _) _ _ _ (List.forall_mem_cons.mpr ⟨hx, h⟩) hf⟩

namespace Core

variable {s : Core} {e : Event} {texts : List String} {l : List Happening} {r : Except Fault Unit}

theorem replyAll_append (h : ∀ x ∈ texts, s.transport.deliver (.reply e.channel x) = .ok ())
    (rest : List String) :
    s.replyAll e (texts ++ rest) =
      (s.recordAll e.unit (texts.map fun x : String => .sent (.reply e.channel x))).replyAll e
        rest := by
  induction texts generalizing s with
  | nil => simp
  | cons x texts ih =>
    obtain ⟨hx, h⟩ := List.forall_mem_cons.mp h
    rw [List.cons_append, replyAll, send, hx]
    dsimp only
    rw [ih (s := s.record e.unit (.sent (.reply e.channel x))) h, record_eq, recordAll_recordAll]
    rfl

theorem replyAll_of_sends (h : Sends s.transport e.channel texts l r) :
    s.replyAll e texts = (s.recordAll e.unit l, r) := by
  rcases h with h | ⟨h, hx⟩
  · have ha := replyAll_append h []
    rwa [List.append_nil] at ha
  · rw [replyAll_append h, replyAll, send, recordAll_transport, hx]
    dsimp only
    rw [record_eq, recordAll_recordAll]

end Core

/-! ## What an author may do -/

/-- The network is asked about actions of an author in order: about all of them, if it grants them,
or up to the first that it denies or refuses to answer about. Nobody can be asked about if there is
no author. -/
inductive Asks (t : Transport) (ch : Id) :
    Option User → List Setting → List Setting → Except Fault Bool → Prop where
  | granted {v : User} {as : List Setting} (h : ∀ a ∈ as, t.mayPerform v a ch = .ok true) :
    Asks t ch (some v) as as (.ok true)
  | denied {v : User} {as rest : List Setting} {a : Setting}
      (h : ∀ a ∈ as, t.mayPerform v a ch = .ok true) (ha : t.mayPerform v a ch = .ok false) :
    Asks t ch (some v) (as ++ a :: rest) (as ++ [a]) (.ok false)
  | raised {v : User} {as rest : List Setting} {a : Setting} {f : Fault}
      (h : ∀ a ∈ as, t.mayPerform v a ch = .ok true) (ha : t.mayPerform v a ch = .error f) :
    Asks t ch (some v) (as ++ a :: rest) (as ++ [a]) (.error f)
  | nothing : Asks t ch none [] [] (.ok true)
  | nobody {a : Setting} {as : List Setting} :
    Asks t ch none (a :: as) [] (.error (.lacks .null "id"))

theorem checkActions_append {t : Transport} {ch : Id} {v : User} {as : List Setting}
    (h : ∀ a ∈ as, t.mayPerform v a ch = .ok true) (rest : List Setting) :
    checkActions t (some v) ch (as ++ rest) =
      ⟨as ++ (checkActions t (some v) ch rest).asked,
        (checkActions t (some v) ch rest).outcome⟩ := by
  induction as with
  | nil => rfl
  | cons a as ih =>
    obtain ⟨ha, h⟩ := List.forall_mem_cons.mp h
    rw [List.cons_append, checkActions, ha]
    simp only [ih h]
    rfl

theorem Asks.eq {t : Transport} {ch : Id} {u : Option User} {as asked : List Setting}
    {r : Except Fault Bool} (h : Asks t ch u as asked r) :
    checkActions t u ch as = ⟨asked, r⟩ := by
  cases h with
  | granted h =>
    have ha := checkActions_append h []
    rw [List.append_nil] at ha
    simpa [checkActions] using ha
  | denied h ha => rw [checkActions_append h, checkActions, ha]
  | raised h ha => rw [checkActions_append h, checkActions, ha]
  | nothing => rfl
  | nobody => rfl

theorem exists_asks (t : Transport) (ch : Id) (u : Option User) (as : List Setting) :
    ∃ asked r, Asks t ch u as asked r := by
  rcases u with - | v
  · rcases as with - | ⟨a, as⟩
    · exact ⟨_, _, .nothing⟩
    · exact ⟨_, _, .nobody⟩
  · induction as with
    | nil => exact ⟨_, _, .granted (by simp)⟩
    | cons a as ih =>
      rcases ha : t.mayPerform v a ch with f | _ | _
      · exact ⟨_, _, @Asks.raised _ _ _ [] _ _ _ (by simp) ha⟩
      · exact ⟨_, _, @Asks.denied _ _ _ [] _ _ (by simp) ha⟩
      · obtain ⟨asked, r, h⟩ := ih
        cases h with
        | granted h => exact ⟨_, _, .granted (List.forall_mem_cons.mpr ⟨ha, h⟩)⟩
        | denied h hb =>
          exact ⟨_, _, @Asks.denied _ _ _ (a :: _) _ _ (List.forall_mem_cons.mpr ⟨ha, h⟩) hb⟩
        | raised h hb =>
          exact ⟨_, _, @Asks.raised _ _ _ (a :: _) _ _ _ (List.forall_mem_cons.mpr ⟨ha, h⟩) hb⟩

/-- Whether an author reaches the level of a command. -/
def Core.reaches (s : Core) (e : Event) (c : CommandInfo) : Except Fault Bool :=
  s.levels.permits e.message.author c.permissionLevel e.message.server

/-- What the author of an event may do, and the actions that were asked about. Nothing is asked of
an author below the level, and roles are looked at only if all actions are granted. -/
inductive Authorises (s : Core) (e : Event) (c : CommandInfo) :
    List Setting → Except Fault Bool → Prop where
  | below (h : s.reaches e c = .ok false) : Authorises s e c [] (.ok false)
  | unlevelled {f : Fault} (h : s.reaches e c = .error f) : Authorises s e c [] (.error f)
  | stopped {asked : List Setting} {r : Except Fault Bool} (h : s.reaches e c = .ok true)
      (ha : Asks s.transport e.channel e.message.author c.requiredPermissions asked r)
      (hr : r ≠ .ok true) :
    Authorises s e c asked r
  | roles (h : s.reaches e c = .ok true)
      (ha : Asks s.transport e.channel e.message.author c.requiredPermissions
        c.requiredPermissions (.ok true)) :
    Authorises s e c c.requiredPermissions (holdsRoles e.message.author c.requiredRoles)

section Authorises

variable {s : Core} {e : Event} {c : CommandInfo} {asked : List Setting} {r : Except Fault Bool}

theorem Asks.asked_of_true {t : Transport} {ch : Id} {u : Option User} {as : List Setting}
    (h : Asks t ch u as asked (.ok true)) : asked = as := by
  cases h <;> rfl

theorem exists_authorises (s : Core) (e : Event) (c : CommandInfo) :
    ∃ asked r, Authorises s e c asked r := by
  rcases h : s.reaches e c with f | _ | _
  · exact ⟨_, _, .unlevelled h⟩
  · exact ⟨_, _, .below h⟩
  · obtain ⟨asked, r, ha⟩ :=
      exists_asks s.transport e.channel e.message.author c.requiredPermissions
    by_cases hr : r = .ok true
    · subst hr
      obtain rfl := ha.asked_of_true
      exact ⟨_, _, .roles h ha⟩
    · exact ⟨_, _, .stopped h ha hr⟩

theorem Core.authorise_of_reaches (h : s.reaches e c = .ok true)
    (ha : Asks s.transport e.channel e.message.author c.requiredPermissions asked r) :
    s.authorise e c = (s.recordAll e.unit (asked.map (.asked e.authorId)), do
      if ← r then holdsRoles e.message.author c.requiredRoles else return false) := by
  have hl : s.levels.permits e.message.author c.permissionLevel e.message.server = .ok true := h
  rw [← askAll_eq, Core.authorise, hl]
  simp only [ha.eq]
  rfl

theorem Authorises.eq (h : Authorises s e c asked r) :
    s.authorise e c = (s.recordAll e.unit (asked.map (.asked e.authorId)), r) := by
  cases h with
  | below h =>
    have hl : s.levels.permits e.message.author c.permissionLevel e.message.server = _ := h
    simp [Core.authorise, hl]
  | unlevelled h =>
    have hl : s.levels.permits e.message.author c.permissionLevel e.message.server = _ := h
    simp [Core.authorise, hl]
  | stopped h ha hr =>
    rw [Core.authorise_of_reaches h ha]
    rcases r with f | _ | _
    · rfl
    · rfl
    · exact absurd rfl hr
  | roles h ha =>
    rw [Core.authorise_of_reaches h ha]
    rfl

end Authorises

/-! ## Calls that a command does not take -/

/-- The texts that refuse a call with so many arguments: too few come before too many, and the
number of arguments before chains. -/
inductive Refusal (c : CommandInfo) (n : Nat) (chained : Bool) : List String → Prop where
  | few (h : Setting.compare .less (.int n) c.minArgs = .ok true) :
    Refusal c n chained
      (("Too few arguments for command `" ++ c.name.shown ++ "`!") :: c.usageLine)
  | many (h : Setting.compare .less (.int n) c.minArgs = .ok false)
      (h₀ : Setting.compare .atMost (.int 0) c.maxArgs = .ok true)
      (h₁ : c.maxArgs.compare .less (.int n) = .ok true) :
    Refusal c n chained
      (("Too many arguments for command `" ++ c.name.shown ++ "`!") :: c.usageLine)
  | inChain (h : Setting.compare .less (.int n) c.minArgs = .ok false)
      (h₁ : CommandInfo.exceeds (.int n) c.maxArgs = .ok false) (hc : chained = true)
      (hu : c.chainUsable.counts = false) :
    Refusal c n chained ["Command `" ++ c.name.shown ++ "` cannot be used in a command chain!"]

theorem refusal?_eq_some_iff {c : CommandInfo} {n : Nat} {chained : Bool} {texts : List String} :
    c.refusal? n chained = .ok (some texts) ↔ Refusal c n chained texts := by
  constructor
  · intro h
    obtain ⟨few, hfew, h⟩ := except_bind_eq_ok h
    cases few
    · obtain ⟨many, hmany, h⟩ := except_bind_eq_ok h
      cases many
      · rcases chained with - | -
        · cases h
        · rcases hu : c.chainUsable.counts with - | -
          · rw [hu] at h
            obtain rfl := Option.some.inj (Except.ok.inj h)
            exact .inChain hfew hmany rfl hu
          · rw [hu] at h
            cases h
      · obtain ⟨b, hb, hm⟩ := except_bind_eq_ok hmany
        cases b
        · cases hm
        · obtain rfl := Option.some.inj (Except.ok.inj h)
          exact .many hfew hb hm
    · obtain rfl := Option.some.inj (Except.ok.inj h)
      exact .few hfew
  · rintro (h | ⟨h, h₀, h₁⟩ | ⟨h, h₁, rfl, hu⟩)
    · rw [CommandInfo.refusal?, h]
      rfl
    · rw [CommandInfo.refusal?, h, CommandInfo.exceeds, h₀]
      simp only [bind, Except.bind, Bool.false_eq_true, reduceIte, h₁]
      rfl
    · rw [CommandInfo.refusal?, h, h₁, hu]
      rfl

/-! ## What becomes of a call -/

/-- What a call comes to that does not enter its command: what it returns, or the fault of its
reply. -/
def Verdict.ofSending (text : Option String) : Except Fault Unit → Verdict
  | .ok () => .answered text
  | .error f => .failed f

/-- What becomes of a call of a command, up to faults that have to be noticed. -/
inductive BoundOutcome (s : Core) (e : Event) (name : Setting) (c : Command)
    (arguments : List Setting) (chained : Bool) : List Happening → Event → Verdict → Prop where
  | entered {asked : List Setting} (ha : Authorises s e c.toCommandInfo asked (.ok true))
      (hr : c.refusal? arguments.length chained = .ok none) :
    BoundOutcome s e name c arguments chained
      (asked.map (.asked e.authorId) ++ [.began name c.registration arguments])
      { e with command := some c.toCommandInfo } (.enter c)
  | refused {asked : List Setting} {texts : List String} {l : List Happening}
      {r : Except Fault Unit} (ha : Authorises s e c.toCommandInfo asked (.ok true))
      (hr : Refusal c.toCommandInfo arguments.length chained texts)
      (hs : Sends s.transport e.channel texts l r) :
    BoundOutcome s e name c arguments chained (asked.map (.asked e.authorId) ++ l)
      { e with command := some c.toCommandInfo } (.ofSending (some "") r)
  | uncounted {asked : List Setting} {f : Fault}
      (ha : Authorises s e c.toCommandInfo asked (.ok true))
      (hr : c.refusal? arguments.length chained = .error f) :
    BoundOutcome s e name c arguments chained (asked.map (.asked e.authorId))
      { e with command := some c.toCommandInfo } (.failed f)
  | denied {asked : List Setting} {texts : List String} {l : List Happening}
      {r : Except Fault Unit} (ha : Authorises s e c.toCommandInfo asked (.ok false))
      (ht : templateReply c.permissionMessage "%name%" name = .ok texts)
      (hs : Sends s.transport e.channel texts l r) :
    BoundOutcome s e name c arguments chained
      (asked.map (.asked e.authorId) ++
        .logged (.permissionDenied name e.authorId c.permissionLevel) :: l)
      e (.ofSending none r)
  | unanswered {asked : List Setting} {f : Fault}
      (ha : Authorises s e c.toCommandInfo asked (.ok false))
      (ht : templateReply c.permissionMessage "%name%" name = .error f) :
    BoundOutcome s e name c arguments chained
      (asked.map (.asked e.authorId) ++
        [.logged (.permissionDenied name e.authorId c.permissionLevel)])
      e (.failed f)
  | unauthorised {asked : List Setting} {f : Fault}
      (ha : Authorises s e c.toCommandInfo asked (.error f)) :
    BoundOutcome s e name c arguments chained (asked.map (.asked e.authorId)) e (.failed f)

/-- What becomes of a fault on its way out of a command: one that says that the author may not do
something is reported, and answered if there is a text for it; then it goes on, unless the answer
cannot be sent. -/
inductive Noticed (s : Core) (e : Event) (name : Setting) :
    Fault → List Happening → Fault → Prop where
  | other {f : Fault} (h : f.isNoPermission = false) : Noticed s e name f [] f
  | silent {f : Fault} (h : f.isNoPermission = true)
      (hm : s.attributes.noPermissionMessage = none) :
    Noticed s e name f [.logged (.noPermissionRaised name e.authorId)] f
  | told {f : Fault} {m : String} {l : List Happening} (h : f.isNoPermission = true)
      (hm : s.attributes.noPermissionMessage = some m)
      (hs : Sends s.transport e.channel [m] l (.ok ())) :
    Noticed s e name f (.logged (.noPermissionRaised name e.authorId) :: l) f
  | untold {f g : Fault} {m : String} {l : List Happening} (h : f.isNoPermission = true)
      (hm : s.attributes.noPermissionMessage = some m)
      (hs : Sends s.transport e.channel [m] l (.error g)) :
    Noticed s e name f (.logged (.noPermissionRaised name e.authorId) :: l) g

/-- What becomes of a call of a name. -/
inductive CallOutcome (s : Core) (e : Event) (name : Setting) (arguments : List Setting)
    (chained : Bool) : List Happening → Event → Verdict → Prop where
  | unlooked {f : Fault} (hg : s.registry.get name = .error f) :
    CallOutcome s e name arguments chained [.logged (.commandExecuting name arguments)] e
      (.failed f)
  | missing {texts : List String} {l : List Happening} {r : Except Fault Unit}
      (hg : s.registry.get name = .ok none)
      (ht : templateReply (.ofText? s.attributes.notFoundMessage) "%command%" name = .ok texts)
      (hs : Sends s.transport e.channel texts l r) :
    CallOutcome s e name arguments chained
      (.logged (.commandExecuting name arguments) :: .logged (.commandNotFound name) :: l)
      e (.ofSending none r)
  | unanswered {f : Fault} (hg : s.registry.get name = .ok none)
      (ht : templateReply (.ofText? s.attributes.notFoundMessage) "%command%" name = .error f) :
    CallOutcome s e name arguments chained
      [.logged (.commandExecuting name arguments), .logged (.commandNotFound name)] e (.failed f)
  | bound {c : Command} {l : List Happening} {e' : Event} {v : Verdict}
      (hg : s.registry.get name = .ok (some c))
      (hb : BoundOutcome s e name c arguments chained l e' v) (hv : ∀ f, v ≠ .failed f) :
    CallOutcome s e name arguments chained (.logged (.commandExecuting name arguments) :: l) e' v
  | faulted {c : Command} {l l' : List Happening} {e' : Event} {f g : Fault}
      (hg : s.registry.get name = .ok (some c))
      (hb : BoundOutcome s e name c arguments chained l e' (.failed f))
      (hn : Noticed s e' name f l' g) :
    CallOutcome s e name arguments chained
      (.logged (.commandExecuting name arguments) :: l ++ l') e' (.failed g)

section Outcomes

variable {s : Core} {e e' : Event} {name : Setting} {c : Command} {arguments : List Setting}
  {chained : Bool} {l : List Happening} {v : Verdict} {f g : Fault} {u : Option Nat}

/-- What happened makes no difference to what becomes of texts, authors and faults. -/
theorem Authorises.recordAll {c : CommandInfo} {asked : List Setting} {r : Except Fault Bool}
    (h : Authorises s e c asked r) (u : Option Nat) (l : List Happening) :
    Authorises (s.recordAll u l) e c asked r := by
  cases h with
  | below h => exact .below h
  | unlevelled h => exact .unlevelled h
  | stopped h ha hr => exact .stopped h ha hr
  | roles h ha => exact .roles h ha

theorem Noticed.eq (h : Noticed s e name f l g) :
    s.notice e name f = (s.recordAll e.unit l, g) := by
  cases h with
  | other h => simp [Core.notice, h]
  | silent h hm => simp only [Core.notice, h, reduceIte, Core.log_eq, Core.recordAll_attributes, hm]
  | told h hm hs =>
    have hr := Core.replyAll_of_sends
      (s := s.recordAll e.unit [.logged (.noPermissionRaised name e.authorId)]) hs
    simp only [Core.notice, h, reduceIte, Core.log_eq, Core.recordAll_attributes, hm, hr,
      Core.recordAll_recordAll, List.singleton_append]
  | untold h hm hs =>
    have hr := Core.replyAll_of_sends
      (s := s.recordAll e.unit [.logged (.noPermissionRaised name e.authorId)]) hs
    simp only [Core.notice, h, reduceIte, Core.log_eq, Core.recordAll_attributes, hm, hr,
      Core.recordAll_recordAll, List.singleton_append]

theorem exists_noticed (s : Core) (e : Event) (name : Setting) (f : Fault) :
    ∃ l g, Noticed s e name f l g := by
  rcases hf : f.isNoPermission with - | -
  · exact ⟨_, _, .other hf⟩
  · rcases hm : s.attributes.noPermissionMessage with - | m
    · exact ⟨_, _, .silent hf hm⟩
    · obtain ⟨l, r, hs⟩ := exists_sends s.transport e.channel [m]
      rcases r with g | ⟨⟩
      · exact ⟨_, _, .untold hf hm hs⟩
      · exact ⟨_, _, .told hf hm hs⟩

theorem Core.turnAway_of_sends {texts : List String} {r : Except Fault Unit}
    (h : Sends s.transport e.channel texts l r) :
    s.turnAway e (.ok texts) = (s.recordAll e.unit l, .ofSending none r) := by
  have hr := Core.replyAll_of_sends h
  simp only [Core.turnAway, hr]
  rcases r with f | ⟨⟩ <;> rfl

theorem BoundOutcome.eq (h : BoundOutcome s e name c arguments chained l e' v) :
    s.dispatchBound e name c arguments chained = (s.recordAll e.unit l, e', v) := by
  cases h with
  | entered ha hr =>
    simp only [Core.dispatchBound, ha.eq, Core.accept, hr, Core.record_eq, Core.recordAll_recordAll]
  | @refused asked texts l r ha hr hs =>
    have hsend := Core.replyAll_of_sends (e := { e with command := some c.toCommandInfo })
      (s := s.recordAll e.unit (asked.map (.asked e.authorId))) hs
    simp only [Core.dispatchBound, ha.eq, Core.accept, refusal?_eq_some_iff.mpr hr, hsend]
    rcases r with f | ⟨⟩ <;> simp [Verdict.ofSending]
  | uncounted ha hr => simp only [Core.dispatchBound, ha.eq, Core.accept, hr]
  | @denied asked texts l r ha ht hs =>
    have hsend := Core.turnAway_of_sends
      (s := s.recordAll e.unit (asked.map (.asked e.authorId) ++
        [.logged (.permissionDenied name e.authorId c.permissionLevel)])) hs
    simp only [Core.dispatchBound, ha.eq, ht, Core.log_eq, Core.recordAll_recordAll, hsend,
      List.append_assoc, List.singleton_append]
  | unanswered ha ht =>
    simp only [Core.dispatchBound, ha.eq, ht, Core.turnAway, Core.log_eq, Core.recordAll_recordAll]
  | unauthorised ha => simp only [Core.dispatchBound, ha.eq]

theorem exists_boundOutcome (s : Core) (e : Event) (name : Setting) (c : Command)
    (arguments : List Setting) (chained : Bool) :
    ∃ l e' v, BoundOutcome s e name c arguments chained l e' v := by
  obtain ⟨asked, r, ha⟩ := exists_authorises s e c.toCommandInfo
  rcases r with f | _ | _
  · exact ⟨_, _, _, .unauthorised ha⟩
  · rcases ht : templateReply c.permissionMessage "%name%" name with f | texts
    · exact ⟨_, _, _, .unanswered ha ht⟩
    · obtain ⟨l, r, hs⟩ := exists_sends s.transport e.channel texts
      exact ⟨_, _, _, .denied ha ht hs⟩
  · rcases hr : c.refusal? arguments.length chained with f | - | texts
    · exact ⟨_, _, _, .uncounted ha hr⟩
    · exact ⟨_, _, _, .entered ha hr⟩
    · obtain ⟨l, r, hs⟩ := exists_sends s.transport e.channel texts
      exact ⟨_, _, _, .refused ha (refusal?_eq_some_iff.mp hr) hs⟩

theorem BoundOutcome.recordAll (h : BoundOutcome s e name c arguments chained l e' v)
    (u : Option Nat) (l' : List Happening) :
    BoundOutcome (s.recordAll u l') e name c arguments chained l e' v := by
  cases h with
  | entered ha hr => exact .entered (ha.recordAll u l') hr
  | refused ha hr hs => exact .refused (ha.recordAll u l') hr hs
  | uncounted ha hr => exact .uncounted (ha.recordAll u l') hr
  | denied ha ht hs => exact .denied (ha.recordAll u l') ht hs
  | unanswered ha ht => exact .unanswered (ha.recordAll u l') ht
  | unauthorised ha => exact .unauthorised (ha.recordAll u l')

theorem Noticed.recordAll (h : Noticed s e name f l g) (u : Option Nat) (l' : List Happening) :
    Noticed (s.recordAll u l') e name f l g := by
  cases h with
  | other h => exact .other h
  | silent h hm => exact .silent h hm
  | told h hm hs => exact .told h hm hs
  | untold h hm hs => exact .untold h hm hs

/-- The event of a call keeps its unit and its channel. -/
theorem BoundOutcome.event (h : BoundOutcome s e name c arguments chained l e' v) :
    e'.unit = e.unit ∧ e'.channel = e.channel := by
  cases h <;> exact ⟨rfl, rfl⟩

theorem CallOutcome.eq (h : CallOutcome s e name arguments chained l e' v) :
    s.dispatch e name arguments chained = (s.recordAll e.unit l, e', v) := by
  cases h with
  | unlooked hg => simp only [Core.dispatch, Core.log_eq, Core.recordAll_registry, hg]
  | missing hg ht hs =>
    have hsend := Core.turnAway_of_sends
      (s := s.recordAll e.unit
        [.logged (.commandExecuting name arguments), .logged (.commandNotFound name)]) hs
    simp only [Core.dispatch, Core.log_eq, Core.recordAll_registry, hg, Core.recordAll_recordAll,
      Core.recordAll_attributes, ht, hsend, List.cons_append, List.nil_append]
  | unanswered hg ht =>
    simp only [Core.dispatch, Core.log_eq, Core.recordAll_registry, hg, Core.recordAll_recordAll,
      List.singleton_append, Core.recordAll_attributes, ht, Core.turnAway]
  | bound hg hb hv =>
    have hd := (hb.recordAll e.unit [.logged (.commandExecuting name arguments)]).eq
    simp only [Core.dispatch, Core.log_eq, Core.recordAll_registry, hg, hd,
      Core.recordAll_recordAll, List.singleton_append]
    rcases v with c' | t | f
    · rfl
    · rfl
    · exact absurd rfl (hv f)
  | @faulted c l l' _ f g hg hb hn =>
    have hd := (hb.recordAll e.unit [.logged (.commandExecuting name arguments)]).eq
    have hnotice := (hn.recordAll e.unit (.logged (.commandExecuting name arguments) :: l)).eq
    simp only [Core.dispatch, Core.log_eq, Core.recordAll_registry, hg, hd,
      Core.recordAll_recordAll, List.singleton_append, hnotice, hb.event.1]

theorem exists_outcome (s : Core) (e : Event) (name : Setting) (arguments : List Setting)
    (chained : Bool) : ∃ l e' v, CallOutcome s e name arguments chained l e' v := by
  rcases hg : s.registry.get name with f | - | c
  · exact ⟨_, _, _, .unlooked hg⟩
  · rcases ht : templateReply (.ofText? s.attributes.notFoundMessage) "%command%" name with
      f | texts
    · exact ⟨_, _, _, .unanswered hg ht⟩
    · obtain ⟨l, r, hs⟩ := exists_sends s.transport e.channel texts
      exact ⟨_, _, _, .missing hg ht hs⟩
  · obtain ⟨l, e', v, hb⟩ := exists_boundOutcome s e name c arguments chained
    rcases v with c' | t | f
    · exact ⟨_, _, _, .bound hg hb nofun⟩
    · exact ⟨_, _, _, .bound hg hb nofun⟩
    · obtain ⟨l', g, hn⟩ := exists_noticed s e' name f
      exact ⟨_, _, _, .faulted hg hb hn⟩

/-- What the relation tells is what the gate does. -/
theorem dispatch_eq_iff :
    s.dispatch e name arguments chained = (s.recordAll e.unit l, e', v) ↔
      CallOutcome s e name arguments chained l e' v := by
  refine ⟨?_, CallOutcome.eq⟩
  intro h
  -- There is an outcome, it is what the gate does, and the journal tells what happened.
  obtain ⟨l₀, e₀, v₀, h₀⟩ := exists_outcome s e name arguments chained
  rw [h₀.eq, Prod.mk.injEq, Prod.mk.injEq] at h
  obtain ⟨hl, rfl, rfl⟩ := h
  obtain rfl := s.recordAll_injective e.unit hl
  exact h₀

end Outcomes

/-! ## Calls that enter -/

section Cleared

variable {s : Core} {e : Event} {name : Setting} {c : Command} {arguments : List Setting}
  {chained : Bool}

theorem holdsRoles_of_forall {u : Option User} {roles : List Id}
    (h : ∀ r ∈ roles, ∃ v, u = some v ∧ v.holds r) : holdsRoles u roles = .ok true := by
  rcases roles with - | ⟨r, roles⟩
  · rfl
  · obtain ⟨v, rfl, -⟩ := h r List.mem_cons_self
    rw [holdsRoles, Except.ok.injEq, List.all_eq_true]
    · intro q hq
      obtain ⟨w, hw, hh⟩ := h q hq
      rwa [Option.some.inj hw]
    · nofun

theorem asks_of_forall {t : Transport} {ch : Id} {u : Option User} {as : List Setting}
    (h : ∀ a ∈ as, ∃ v, u = some v ∧ t.mayPerform v a ch = .ok true) :
    Asks t ch u as as (.ok true) := by
  rcases u with - | v
  · rcases as with - | ⟨a, as⟩
    · exact .nothing
    · obtain ⟨v, hv, -⟩ := h a List.mem_cons_self
      cases hv
  · refine .granted ?_
    intro a ha
    obtain ⟨w, hw, hm⟩ := h a ha
    rwa [Option.some.inj hw]

theorem Core.reaches_eq_true_iff {c : CommandInfo} :
    s.reaches e c = .ok true ↔
      ∃ n, s.levels.effective e.message.author e.message.server = .ok n ∧
        n.compare .atLeast c.permissionLevel = .ok true := by
  refine ⟨except_bind_eq_ok, ?_⟩
  rintro ⟨n, hn, h⟩
  rw [Core.reaches, Levels.permits, hn]
  exact h

/-- A call that is cleared enters its command. -/
theorem Cleared.outcome (h : Cleared s e name c arguments chained) :
    CallOutcome s e name arguments chained
      (.logged (.commandExecuting name arguments) ::
        (c.requiredPermissions.map (.asked e.authorId) ++
          [.began name c.registration arguments]))
      { e with command := some c.toCommandInfo } (.enter c) := by
  have ha : Authorises s e c.toCommandInfo c.requiredPermissions (.ok true) := by
    rw [← holdsRoles_of_forall h.roles]
    exact .roles (Core.reaches_eq_true_iff.mpr h.level) (asks_of_forall h.actions)
  have hr : c.refusal? arguments.length chained = .ok none := by
    obtain ⟨b, hb, hmany⟩ := h.fitting
    have he : CommandInfo.exceeds (.int arguments.length) c.maxArgs = .ok false := by
      rw [CommandInfo.exceeds, hb]
      cases b
      · rfl
      · exact hmany rfl
    rw [CommandInfo.refusal?, h.enough, he]
    rcases chained with - | -
    · rfl
    · rw [h.usable rfl]
      rfl
  exact .bound h.bound (.entered ha hr) nofun

/-- A call enters a command exactly if it is cleared. -/
theorem dispatch_enter_iff :
    (s.dispatch e name arguments chained).2.2 = .enter c ↔
      Cleared s e name c arguments chained := by
  refine ⟨fun h => (Core.dispatch_enter h).1, ?_⟩
  intro h
  rw [h.outcome.eq]

/-- A call is cleared with bounds that are whole numbers if its arguments are not fewer than the
least number, and not more than the greatest one unless that is negative. -/
theorem cleared_iff_of_int {lo hi : Int} (hlo : c.minArgs = .int lo) (hhi : c.maxArgs = .int hi) :
    Cleared s e name c arguments chained ↔
      s.registry.get name = .ok (some c) ∧ s.reaches e c.toCommandInfo = .ok true ∧
      (∀ a ∈ c.requiredPermissions,
        ∃ u, e.message.author = some u ∧ s.transport.mayPerform u a e.channel = .ok true) ∧
      (∀ r ∈ c.requiredRoles, ∃ u, e.message.author = some u ∧ u.holds r) ∧
      lo ≤ arguments.length ∧ (hi < 0 ∨ arguments.length ≤ hi) ∧
      ¬(chained = true ∧ c.chainUsable.counts = false) := by
  have hmin : Setting.compare .less (.int arguments.length) c.minArgs = .ok false ↔
      lo ≤ arguments.length := by
    rw [hlo, Setting.compare_int, Except.ok.injEq, decide_eq_false_iff_not, Int.not_lt]
  have hmax : (∃ b, Setting.compare .atMost (.int 0) c.maxArgs = .ok b ∧
        (b = true → c.maxArgs.compare .less (.int arguments.length) = .ok false)) ↔
      (hi < 0 ∨ arguments.length ≤ hi) := by
    simp only [hhi, Setting.compare_int, Except.ok.injEq, exists_eq_left', decide_eq_true_eq,
      decide_eq_false_iff_not]
    omega
  have huse : (chained = true → c.chainUsable.counts = true) ↔
      ¬(chained = true ∧ c.chainUsable.counts = false) := by
    rcases c.chainUsable.counts with - | - <;> simp
  constructor
  · intro h
    exact ⟨h.bound, Core.reaches_eq_true_iff.mpr h.level, h.actions, h.roles, hmin.mp h.enough,
      hmax.mp h.fitting, huse.mp h.usable⟩
  · rintro ⟨hb, hl, ha, hr, hn, hm, hu⟩
    exact ⟨hb, Core.reaches_eq_true_iff.mp hl, ha, hr, hmin.mpr hn, hmax.mpr hm, huse.mpr hu⟩

end Cleared

/-! ## Where faults come from -/

/-- The settings that a call of a command looks at are of the types that they are meant to have. -/
structure Typed (s : Core) (e : Event) (c : CommandInfo) : Prop where
  author : ∃ u, e.message.author = some u
  /-- The levels can be compared. -/
  level : ∃ b, s.reaches e c = .ok b
  least : ∃ k : Int, c.minArgs = .int k
  most : ∃ k : Int, c.maxArgs = .int k
  message : c.permissionMessage.isNull = true ∨ c.permissionMessage.text?.isSome = true

/-- The network raises a fault, asked about an action or taking a reply. -/
def NetworkFault (s : Core) (e : Event) (f : Fault) : Prop :=
  (∃ u a, s.transport.mayPerform u a e.channel = .error f) ∨
    ∃ x : String, s.transport.deliver (.reply e.channel x) = .error f

section Faults

variable {s : Core} {e e' : Event} {name : Setting} {c : Command} {arguments : List Setting}
  {chained : Bool} {l : List Happening} {f g : Fault}

theorem Sends.networkFault {texts : List String}
    (h : Sends s.transport e.channel texts l (.error f)) : NetworkFault s e f := by
  rcases h with - | ⟨-, hx⟩
  exact .inr ⟨_, hx⟩

theorem templateReply_ne_error {template : Setting} {mark : String}
    (ht : template.isNull = true ∨ template.text?.isSome = true) (hn : name.text?.isSome = true) :
    templateReply template mark name ≠ .error f := by
  obtain ⟨n, hn⟩ := Option.isSome_iff_exists.mp hn
  rcases ht with ht | ht
  · have hc : template.counts = false := by
      rcases template with v | _ | _
      · cases v <;> first | rfl | cases ht
      · cases ht
      · cases ht
    simp [templateReply, hc]
  · obtain ⟨t, ht⟩ := Option.isSome_iff_exists.mp ht
    rw [templateReply, ht, hn]
    split <;> nofun

theorem Authorises.networkFault {c : CommandInfo} {asked : List Setting} (ht : Typed s e c)
    (h : Authorises s e c asked (.error f)) : NetworkFault s e f := by
  obtain ⟨u, hu⟩ := ht.author
  obtain ⟨b, hb⟩ := ht.level
  generalize hr : (Except.error f : Except Fault Bool) = r at h
  cases h with
  | below h => cases hr
  | unlevelled h =>
    rw [hb] at h
    cases h
  | stopped h ha _ =>
    subst hr
    rw [hu] at ha
    generalize c.requiredPermissions = as at ha
    cases ha with
    | raised _ ha => exact .inl ⟨_, _, ha⟩
  | roles h ha =>
    rw [hu] at hr
    rcases hq : c.requiredRoles with - | ⟨q, qs⟩ <;> rw [hq] at hr <;> cases hr

theorem refusal?_ne_error {n : Nat} (ht : Typed s e c.toCommandInfo) :
    c.refusal? n chained ≠ .error f := by
  obtain ⟨lo, hlo⟩ := ht.least
  obtain ⟨hi, hhi⟩ := ht.most
  simp only [CommandInfo.refusal?, CommandInfo.exceeds, hlo, hhi, Setting.compare_int]
  simp only [bind, Except.bind, pure, Except.pure]
  grind

theorem BoundOutcome.networkFault (hn : name.text?.isSome = true) (ht : Typed s e c.toCommandInfo)
    (h : BoundOutcome s e name c arguments chained l e' (.failed f)) : NetworkFault s e f := by
  have hsend (text : Option String) {r : Except Fault Unit} {texts : List String}
      {l : List Happening} (hs : Sends s.transport e.channel texts l r)
      (hr : Verdict.failed f = .ofSending text r) : NetworkFault s e f := by
    rcases r with g | ⟨⟩
    · obtain rfl := Verdict.failed.inj hr
      exact hs.networkFault
    · cases hr
  generalize hv : Verdict.failed f = v at h
  cases h with
  | entered _ _ => cases hv
  | refused _ _ hs => exact hsend _ hs hv
  | uncounted _ hr => exact absurd hr (refusal?_ne_error ht)
  | denied _ _ hs => exact hsend _ hs hv
  | unanswered _ hm => exact absurd hm (templateReply_ne_error ht.message hn)
  | unauthorised ha =>
    obtain rfl := Verdict.failed.inj hv
    exact ha.networkFault ht

theorem Noticed.networkFault (h : Noticed s e name f l g) (hf : NetworkFault s e f) :
    NetworkFault s e g := by
  cases h with
  | other _ => exact hf
  | silent _ _ => exact hf
  | told _ _ _ => exact hf
  | untold _ _ hs => exact hs.networkFault

/-- A call whose settings are of the right types ends with no fault but one of the network. -/
theorem CallOutcome.networkFault (hn : name.text?.isSome = true)
    (ht : ∀ c, s.registry.get name = .ok (some c) → Typed s e c.toCommandInfo)
    (h : CallOutcome s e name arguments chained l e' (.failed f)) : NetworkFault s e f := by
  generalize hv : Verdict.failed f = v at h
  cases h with
  | unlooked hg =>
    -- Every text has a key.
    obtain ⟨n, hn⟩ := Option.isSome_iff_exists.mp hn
    rcases name with v | _ | _
    · cases hg
    · cases hn
    · cases hn
  | @missing _ _ r _ _ hs =>
    rcases r with g | ⟨⟩
    · obtain rfl := Verdict.failed.inj hv
      exact hs.networkFault
    · cases hv
  | unanswered _ hm =>
    refine absurd hm (templateReply_ne_error ?_ hn)
    rcases s.attributes.notFoundMessage with - | m
    · exact .inl rfl
    · exact .inr rfl
  | bound _ _ hne => exact absurd hv.symm (hne f)
  | faulted hg hb hno =>
    obtain rfl := Verdict.failed.inj hv
    -- The fault is noticed in the channel of the call, also if the command was accepted before.
    have hf := hb.networkFault hn (ht _ hg)
    have hc := hb.event.2
    unfold NetworkFault at hf ⊢
    rw [← hc] at hf ⊢
    exact hno.networkFault hf

end Faults

/-! ## Every call -/

/-- **The outcome of a call.** Every call has exactly one outcome, and it is what the relation
tells: happenings, the event that the call leaves, and a verdict. It enters a command exactly if it
is cleared, which with whole numbers for bounds is a matter of counting. Where the settings have the
types that they are meant to have, a fault is one of the network. -/
theorem dispatch_outcome (s : Core) (e : Event) (name : Setting) (arguments : List Setting)
    (chained : Bool) :
    (∃ l e' v, CallOutcome s e name arguments chained l e' v) ∧
    (∀ l e' v, s.dispatch e name arguments chained = (s.recordAll e.unit l, e', v) ↔
      CallOutcome s e name arguments chained l e' v) ∧
    (∀ c, (s.dispatch e name arguments chained).2.2 = .enter c ↔
      Cleared s e name c arguments chained) ∧
    (∀ (c : Command) (lo hi : Int), c.minArgs = .int lo → c.maxArgs = .int hi →
      (Cleared s e name c arguments chained ↔
        s.registry.get name = .ok (some c) ∧ s.reaches e c.toCommandInfo = .ok true ∧
        (∀ a ∈ c.requiredPermissions,
          ∃ u, e.message.author = some u ∧ s.transport.mayPerform u a e.channel = .ok true) ∧
        (∀ r ∈ c.requiredRoles, ∃ u, e.message.author = some u ∧ u.holds r) ∧
        lo ≤ arguments.length ∧ (hi < 0 ∨ arguments.length ≤ hi) ∧
        ¬(chained = true ∧ c.chainUsable.counts = false))) ∧
    (name.text?.isSome = true →
      (∀ c, s.registry.get name = .ok (some c) → Typed s e c.toCommandInfo) →
      ∀ f, (s.dispatch e name arguments chained).2.2 = .failed f → NetworkFault s e f) := by
  refine ⟨exists_outcome s e name arguments chained, fun l e' v => dispatch_eq_iff,
    fun c => dispatch_enter_iff, fun c lo hi => cleared_iff_of_int, ?_⟩
  intro hn ht f hf
  obtain ⟨l, e', v, h⟩ := exists_outcome s e name arguments chained
  rw [h.eq] at hf
  obtain rfl : v = .failed f := hf
  exact h.networkFault hn ht

/-- A call by an alias, of a command that no call has enough arguments for. The network denies the
second of three actions, which is all that is asked and more than is looked at before the reply. -/
theorem dispatch_outcome_denied :
    let info : CommandInfo :=
      { name := "ban", aliases := ["b"], permissionMessage := "%name%: no %name%",
        requiredPermissions := ["read", "kick", "ban"], minArgs := .int 2, maxArgs := .int 1 }
    let s : Core :=
      { attributes := {}, transport := .fixed .null [.text "kick"] [] [],
        registry := Registry.register {} info .inline fun _ _ => .done (.ok (.plain .null)) }
    let e : Event :=
      { message := { content := "", author := some { id := .int 1 }, channel := "c",
                     server := none } }
    CallOutcome s e "b" [] true
      [.logged (.commandExecuting "b" []), .asked (.int 1) "read", .asked (.int 1) "kick",
        .logged (.permissionDenied "b" (.int 1) (.int 0)), .sent (.reply "c" "b: no b")]
      e (.answered none) := by
  intro info s e
  exact ((dispatch_outcome s e "b" [] true).2.1 _ _ _).mp rfl

end ChatCommands
