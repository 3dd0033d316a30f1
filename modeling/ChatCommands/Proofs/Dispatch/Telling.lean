import ChatCommands.Proofs.Dispatch.Guise
import ChatCommands.Proofs.Dispatch.Step

/-!
# What requests tell

The journal only grows, and what a request adds to it is told of the unit of its event. What is told
depends on who acts. A program of its own can send, queue and drop lines and set levels; the gate
and the final answer add their reports. None of them tells how a unit came to its end, which is left
to the scheduler and to the one who runs the chain.

## Main definitions

* `Core.Tells`: the journal goes on with such happenings of one unit
* `Core.told`: what the journal tells of a unit
* `Action.outgoing?`: what a request sends
* `Happening.isSilent`, `Happening.isOwn`, `Happening.isDiagnosis`: what reports nothing and replies
  in texts, what a program does by itself, and what tells that a unit was cut short
* `Happening.isGate`: what the gate does besides reporting
* `Event.AllowsGate`, `Event.Allows`, `Run.Allows`: what may be told of a call, and of a request

## Main results

* `Core.serve_tells`: a request that is served at once tells what its program does by itself
* `Core.dispatch_tells`, `Run.step_tells_of`: what the gate and a request of a run may tell
* `Run.step_tells`, `Run.step_unit`: a request of a run tells no diagnosis, and of no other unit
-/

namespace ChatCommands

/-- What a request sends for an event, if it sends something. -/
def Action.outgoing? (e : Event) : Action → Option Outgoing
  | reply t => some (.reply e.channel t)
  | direct t => e.message.author.map fun u => .direct u.id t
  | file n c => some (.file e.channel n c)
  | _ => none

/-- Whether a reply, if it is one, is a text. -/
def Outgoing.inText : Outgoing → Bool
  | .reply _ t => t.text?.isSome
  | _ => true

namespace Happening

/-- Whether something was sent or could not be sent. -/
def isSending : Happening → Bool
  | sent _ => true
  | unsent _ => true
  | _ => false

/-- Whether a program may have done it by itself, with a request that is served at once. -/
def isOwn : Happening → Bool
  | queued _ => true
  | dropped _ => true
  | logged (.userLevelSet _ _) => true
  | logged (.roleLevelSet _ _) => true
  | h => h.isSending

/-- Whether it tells that a unit was cut short. -/
def isDiagnosis : Happening → Bool
  | logged (.chainTooDeep _ _) => true
  | logged (.unitFailed _ _ _) => true
  | _ => false

/-- Whether it tells of no end of a unit. -/
def isRoutine (h : Happening) : Bool := !h.isDiagnosis

/-- Whether nothing is reported by it. What is replied then is a text. -/
def isSilent : Happening → Bool
  | sent o => o.inText
  | unsent o => o.inText
  | logged _ => false
  | _ => true

/-- Whether the gate may have done it, reports left aside: it sends texts, asks about actions and
lets programs begin. -/
def isGate : Happening → Bool
  | sent o => o.inText
  | unsent o => o.inText
  | asked _ _ => true
  | began _ _ _ => true
  | _ => false

theorem isSilent_of_isGate {h : Happening} (hg : h.isGate = true) : h.isSilent = true := by
  cases h with
  | sent o => exact hg
  | unsent o => exact hg
  | logged l => cases hg
  | _ => rfl

theorem isRoutine_of_isSilent {h : Happening} (hs : h.isSilent = true) : h.isRoutine = true := by
  cases h with
  | logged l => cases hs
  | _ => rfl

theorem isOwn_of_isSending {h : Happening} (hs : h.isSending = true) : h.isOwn = true := by
  cases h with
  | sent o => rfl
  | unsent o => rfl
  | _ => cases hs

theorem isRoutine_of_isOwn {h : Happening} (hs : h.isOwn = true) : h.isRoutine = true := by
  cases h with
  | logged l =>
    cases l with
    | chainTooDeep n a => cases hs
    | unitFailed u e t => cases hs
    | _ => rfl
  | _ => rfl

end Happening

namespace Core

variable {p q : Happening → Bool} {u : Option Nat} {s s₁ s₂ : Core}

/-- The journal goes on with such happenings of a unit alone. -/
def Tells (p : Happening → Bool) (u : Option Nat) (s s' : Core) : Prop :=
  ∃ l : List Happening, s'.journal = s.journal ++ l.map (Entry.mk u) ∧ ∀ h ∈ l, p h = true

namespace Tells

theorem of_eq (h : s₁.journal = s.journal) : Tells p u s s₁ := ⟨[], by simp [h], by simp⟩

theorem refl (s : Core) : Tells p u s s := of_eq rfl

theorem record (s : Core) {h : Happening} (hp : p h = true) : Tells p u s (s.record u h) :=
  ⟨[h], rfl, fun _ hm => List.mem_singleton.mp hm ▸ hp⟩

theorem log (s : Core) {l : LogEvent} (hp : p (.logged l) = true) : Tells p u s (s.log u l) :=
  record s hp

theorem trans (h : Tells p u s s₁) (h' : Tells p u s₁ s₂) : Tells p u s s₂ := by
  obtain ⟨l, hl, hp⟩ := h
  obtain ⟨l', hl', hp'⟩ := h'
  refine ⟨l ++ l', by rw [hl', hl, List.map_append, List.append_assoc], ?_⟩
  intro x hx
  rcases List.mem_append.mp hx with hx | hx
  · exact hp x hx
  · exact hp' x hx

theorem mono (h : Tells p u s s₁) (hpq : ∀ x, p x = true → q x = true) : Tells q u s s₁ := by
  obtain ⟨l, hl, hp⟩ := h
  exact ⟨l, hl, fun x hx => hpq x (hp x hx)⟩

theorem logAll (s : Core) {ls : List LogEvent} (hp : ∀ l ∈ ls, p (.logged l) = true) :
    Tells p u s (s.logAll u ls) := by
  induction ls generalizing s with
  | nil => exact refl s
  | cons l ls ih =>
    have hl := hp l List.mem_cons_self
    exact (log s hl).trans (ih _ fun l' hl' => hp l' (List.mem_cons_of_mem _ hl'))

end Tells

/-- What the journal tells of a unit, or of events made by hand. -/
def told (s : Core) (u : Option Nat) : List Happening :=
  (s.journal.filter fun x => x.unit = u).map (·.what)

theorem told_of_journal {l : List Happening} (h : s₁.journal = s.journal ++ l.map (Entry.mk u)) :
    s₁.told u = s.told u ++ l := by
  have hl : (l.map (Entry.mk u)).filter (fun x => x.unit = u) = l.map (Entry.mk u) := by
    simp [List.filter_eq_self]
  rw [told, h, List.filter_append, hl, List.map_append, List.map_map]
  exact congrArg _ (List.map_id' l)

theorem told_of_journal_ne {v : Option Nat} (hv : u ≠ v) {l : List Happening}
    (h : s₁.journal = s.journal ++ l.map (Entry.mk u)) : s₁.told v = s.told v := by
  have hl : (l.map (Entry.mk u)).filter (fun x => x.unit = v) = [] := by
    simp [List.filter_eq_nil_iff, hv]
  rw [told, h, List.filter_append, hl, List.append_nil, told]

theorem told_record (s : Core) (u : Option Nat) (h : Happening) :
    (s.record u h).told u = s.told u ++ [h] := told_of_journal (l := [h]) rfl

theorem told_record_ne (s : Core) {u v : Option Nat} (hv : u ≠ v) (h : Happening) :
    (s.record u h).told v = s.told v := told_of_journal_ne hv (l := [h]) rfl

theorem told_logAll (s : Core) (u : Option Nat) (ls : List LogEvent) :
    (s.logAll u ls).told u = s.told u ++ ls.map .logged := by
  induction ls generalizing s with
  | nil => exact (List.append_nil _).symm
  | cons l ls ih =>
    show ((s.log u l).logAll u ls).told u = _
    rw [ih, log, told_record, List.append_assoc]
    rfl

/-- What is told of one unit is not told of another. -/
theorem Tells.told_ne (h : Tells p u s s₁) {v : Option Nat} (hv : u ≠ v) :
    s₁.told v = s.told v := by
  obtain ⟨l, hl, -⟩ := h
  exact told_of_journal_ne hv hl

end Core

/-- What the gate may tell of a call of a name, behind the report that it is made. -/
structure Event.AllowsGate (p : Happening → Bool) (e : Event) (name : Setting) : Prop where
  gate : ∀ h : Happening, h.isGate = true → p h = true
  notFound : p (.logged (.commandNotFound name)) = true
  denied : ∀ level : Setting, level.number?.isSome = true →
    p (.logged (.permissionDenied name e.authorId level)) = true
  raised : p (.logged (.noPermissionRaised name e.authorId)) = true

/-- What may be told of a call of a name, if all that reports nothing may be. -/
structure Event.Allows (p : Happening → Bool) (e : Event) (name : Setting) : Prop where
  silent : ∀ h : Happening, h.isSilent = true → p h = true
  notFound : p (.logged (.commandNotFound name)) = true
  denied : ∀ level : Setting, level.number?.isSome = true →
    p (.logged (.permissionDenied name e.authorId level)) = true
  raised : p (.logged (.noPermissionRaised name e.authorId)) = true

theorem Event.Allows.gate {p : Happening → Bool} {e : Event} {name : Setting}
    (h : e.Allows p name) : e.AllowsGate p name :=
  ⟨fun _ hg => h.silent _ (Happening.isSilent_of_isGate hg), h.notFound, h.denied, h.raised⟩

/-- The notes on a reading tell of no end of a unit. -/
theorem Note.isRoutine (n : Note) (l : LogEvent) (h : n.event? = some l) :
    (Happening.logged l).isRoutine = true := by
  cases n with
  | opened d => cases h
  | _ =>
    obtain rfl := Option.some.inj h
    rfl

/-! ## Operations of the core -/

namespace Core

section Operations

variable {p : Happening → Bool}

variable (s : Core) (e : Event)

theorem send_tells {o : Outgoing} (hsent : p (.sent o) = true) (hunsent : p (.unsent o) = true) :
    s.Tells p e.unit (s.send e o).1 := by
  unfold send
  split
  · exact .record s hsent
  · exact .record s hunsent

/-- What is sent reports nothing; if it is a reply it has to be a text. -/
theorem send_gate {o : Outgoing} (ho : o.inText = true) :
    s.Tells Happening.isGate e.unit (s.send e o).1 := s.send_tells e ho ho

/-- Texts that are sent one after another, up to the first that cannot be sent. -/
theorem replyAll_tells_of {ts : List String}
    (h : ∀ t ∈ ts, p (.sent (.reply e.channel t)) = true ∧
      p (.unsent (.reply e.channel t)) = true) :
    s.Tells p e.unit (s.replyAll e ts).1 := by
  induction ts generalizing s with
  | nil => exact .refl s
  | cons t ts ih =>
    obtain ⟨ht, hts⟩ := List.forall_mem_cons.mp h
    have hs := s.send_tells e (o := .reply e.channel t) ht.1 ht.2
    rw [replyAll]
    generalize s.send e (.reply e.channel t) = x at hs ⊢
    rcases x with ⟨s', f | m⟩
    · exact hs
    · exact hs.trans (ih s' hts)

theorem replyAll_tells (ts : List String) :
    s.Tells Happening.isGate e.unit (s.replyAll e ts).1 :=
  s.replyAll_tells_of e fun _ _ => ⟨rfl, rfl⟩

theorem drainInto_tells_of (hm : p (.merged e.queue) = true) (v : Value) :
    s.Tells p e.unit (s.drainInto e v).1 := by
  unfold drainInto
  split
  · exact .refl s
  · exact .record s hm

theorem drainInto_tells (v : Value) : s.Tells Happening.isSilent e.unit (s.drainInto e v).1 :=
  s.drainInto_tells_of e rfl v

theorem authorise_tells (c : CommandInfo) :
    s.Tells Happening.isGate e.unit (s.authorise e c).1 := by
  have ha (asked : List Setting) (s : Core) :
      s.Tells Happening.isGate e.unit (s.askAll e asked) := by
    induction asked generalizing s with
    | nil => exact .refl s
    | cons a asked ih => exact (Tells.record s rfl).trans (ih _)
  unfold authorise
  split
  · exact .refl s
  · exact .refl s
  · exact ha _ s

theorem turnAway_tells (r : Except Fault (List String)) :
    s.Tells Happening.isGate e.unit (s.turnAway e r).1 := by
  cases r with
  | error f => exact .refl s
  | ok ts =>
    have hs := s.replyAll_tells e ts
    simp only [turnAway]
    generalize s.replyAll e ts = x at hs ⊢
    rcases x with ⟨s', f | _⟩ <;> exact hs

/-- A call that is not taken sends the texts that refuse it, and any other begins the program. -/
theorem accept_tells_of {name : Setting} {c : Command} {arguments : List Setting} {chained : Bool}
    (h : ∀ texts, c.refusal? arguments.length chained = .ok (some texts) → ∀ t ∈ texts,
      p (.sent (.reply e.channel t)) = true ∧ p (.unsent (.reply e.channel t)) = true)
    (hb : p (.began name c.registration arguments) = true) :
    s.Tells p e.unit (s.accept e name c arguments chained).1 := by
  unfold accept
  split
  · exact .refl s
  next texts hr =>
    have hs := s.replyAll_tells_of e (h texts hr)
    generalize s.replyAll e texts = x at hs ⊢
    rcases x with ⟨s', f | _⟩ <;> exact hs
  · exact .record s hb

theorem accept_tells (name : Setting) (c : Command) (arguments : List Setting) (chained : Bool) :
    s.Tells Happening.isGate e.unit (s.accept e name c arguments chained).1 :=
  s.accept_tells_of e (fun _ _ _ _ => ⟨rfl, rfl⟩) rfl

/-- A level counts only if it is a number. -/
theorem authorise_level {c : CommandInfo} {b : Bool} (h : (s.authorise e c).2 = .ok b) :
    c.permissionLevel.number?.isSome = true := by
  have hlevel {b : Bool}
      (hb : s.levels.permits e.message.author c.permissionLevel e.message.server = .ok b) :
      c.permissionLevel.number?.isSome = true := by
    obtain ⟨x, -, hx⟩ := except_bind_eq_ok hb
    rcases hn : c.permissionLevel.number? with - | n
    · -- What is no number cannot be compared.
      rw [Setting.compare, hn] at hx
      rcases hm : x.number? with - | m <;> rw [hm] at hx <;> cases hx
    · rfl
  unfold authorise at h
  split at h
  next => cases h
  next heq => exact hlevel heq
  next heq => exact hlevel heq

/-- A fault that is noticed on its way out of a command. -/
theorem notice_tells (hp : ∀ h : Happening, h.isGate = true → p h = true) {name : Setting}
    (hn : p (.logged (.noPermissionRaised name e.authorId)) = true) (f : Fault) :
    s.Tells p e.unit (s.notice e name f).1 := by
  unfold notice
  split
  · have hl : s.Tells p e.unit (s.log e.unit (.noPermissionRaised name e.authorId)) := .log s hn
    dsimp only
    split
    · exact hl
    next m _ =>
      have hs := (replyAll_tells (s.log e.unit (.noPermissionRaised name e.authorId)) e [m]).mono hp
      generalize (s.log e.unit (.noPermissionRaised name e.authorId)).replyAll e [m] = x at hs ⊢
      rcases x with ⟨s', g | _⟩ <;> exact hl.trans hs
  · exact .refl s

theorem dispatchBound_tells {name : Setting} (hp : e.AllowsGate p name) (c : Command)
    (arguments : List Setting) (chained : Bool) :
    s.Tells p e.unit (s.dispatchBound e name c arguments chained).1 := by
  have ha := (s.authorise_tells e c.toCommandInfo).mono hp.gate
  have hlevel := @authorise_level s e c.toCommandInfo false
  unfold dispatchBound
  generalize s.authorise e c.toCommandInfo = x at ha hlevel ⊢
  rcases x with ⟨s', f | _ | _⟩
  · exact ha
  · have ht := (turnAway_tells (s'.log e.unit (.permissionDenied name e.authorId c.permissionLevel))
      e (templateReply c.permissionMessage "%name%" name)).mono hp.gate
    exact (ha.trans (.log s' (hp.denied _ (hlevel rfl)))).trans ht
  · exact ha.trans ((accept_tells s' { e with command := some c.toCommandInfo } name c arguments
      chained).mono hp.gate)

theorem dispatchBound_event (name : Setting) (c : Command) (arguments : List Setting)
    (chained : Bool) : (s.dispatchBound e name c arguments chained).2.1.unit = e.unit ∧
      (s.dispatchBound e name c arguments chained).2.1.authorId = e.authorId := by
  unfold dispatchBound
  split <;> exact ⟨rfl, rfl⟩

/-- **The gate** tells that a call is made, and then what comes of it. -/
theorem dispatch_tells {name : Setting} (hp : e.AllowsGate p name) (arguments : List Setting)
    (chained : Bool) :
    (s.log e.unit (.commandExecuting name arguments)).Tells p e.unit
      (s.dispatch e name arguments chained).1 := by
  unfold dispatch
  dsimp only
  split
  · exact .refl _
  · exact (Tells.log _ hp.notFound).trans ((turnAway_tells _ e _).mono hp.gate)
  next c _ =>
    have hb := dispatchBound_tells (s.log e.unit (.commandExecuting name arguments)) e hp c
      arguments chained
    have he := dispatchBound_event (s.log e.unit (.commandExecuting name arguments)) e name c
      arguments chained
    generalize dispatchBound _ e name c arguments chained = x at hb he ⊢
    rcases x with ⟨s', e', d | t | f⟩
    · exact hb
    · exact hb
    · obtain ⟨hu, hauthor⟩ := he
      refine hb.trans ?_
      rw [← hu]
      exact notice_tells s' e' hp.gate (hauthor ▸ hp.raised) f

/-- A request that is served at once sends what it asks for, queues or drops lines, or sets a
level. -/
theorem serve_tells_sending {a : Action}
    (hs : ∀ o, a.outgoing? e = some o → p (.sent o) = true ∧ p (.unsent o) = true)
    (hq : ∀ l, a = .append l → p (.queued l) = true) (hd : a = .drain → p (.dropped e.queue) = true)
    (hu : ∀ id n, p (.logged (.userLevelSet id n)) = true)
    (hr : ∀ id n, p (.logged (.roleLevelSet id n)) = true) :
    s.Tells p e.unit (s.serve e a).1 := by
  have hw (levels : Except Fault Levels) {l : LogEvent} (hl : p (.logged l) = true) :
      s.Tells p e.unit (s.withLevels e levels l).1 := by
    cases levels with
    | ok l' => exact .log s hl
    | error f => exact .refl s
  have hs {o : Outgoing} (ho : a.outgoing? e = some o) : s.Tells p e.unit (s.send e o).1 :=
    s.send_tells e (hs o ho).1 (hs o ho).2
  cases a with
  | reply t => exact hs rfl
  | direct t =>
    simp only [serve]
    split
    · exact .refl s
    next u hu => exact hs (by rw [Action.outgoing?, hu]; rfl)
  | file n c => exact hs rfl
  | append l => exact .record s (hq l rfl)
  | drain => exact .record s (hd rfl)
  | setUser id n => exact hw _ (hu id n)
  | setRole id n => exact hw _ (hr id n)
  | unregister n =>
    simp only [serve]
    split <;> exact .of_eq rfl
  | _ => exact .refl s

/-- Where all sendings may be told it does not matter what is sent. -/
theorem serve_tells_of {a : Action} (hs : ∀ h : Happening, h.isSending = true → p h = true)
    (hq : ∀ l, a = .append l → p (.queued l) = true) (hd : a = .drain → p (.dropped e.queue) = true)
    (hu : ∀ id n, p (.logged (.userLevelSet id n)) = true)
    (hr : ∀ id n, p (.logged (.roleLevelSet id n)) = true) :
    s.Tells p e.unit (s.serve e a).1 :=
  s.serve_tells_sending e (fun _ _ => ⟨hs _ rfl, hs _ rfl⟩) hq hd hu hr

/-- **A request that is served at once** tells what its program does by itself. -/
theorem serve_tells (a : Action) : s.Tells Happening.isOwn e.unit (s.serve e a).1 :=
  s.serve_tells_of e (fun _ => Happening.isOwn_of_isSending) (fun _ _ => rfl) (fun _ => rfl)
    (fun _ _ => rfl) fun _ _ => rfl

/-- The final answer takes the queued lines, and is sent with the file or as a text with words. -/
theorem deliver_tells_sending (hm : p (.merged e.queue) = true)
    (hreply : ∀ t : String, t ≠ "" → p (.sent (.reply e.channel t)) = true ∧
      p (.unsent (.reply e.channel t)) = true)
    (hfile : ∀ f c, p (.sent (.file e.channel f c)) = true ∧
      p (.unsent (.file e.channel f c)) = true)
    (hf : p (.logged (.fileDelivered e.channel)) = true)
    (hr : ∀ n, p (.logged (.responseDelivered e.channel n)) = true) (v : Value) :
    s.Tells p e.unit (s.deliver e v).1 := by
  have hd := s.drainInto_tells_of e hm v
  have he : (s.drainInto e v).2.1.unit = e.unit ∧ (s.drainInto e v).2.1.channel = e.channel := by
    cases v <;> exact ⟨rfl, rfl⟩
  unfold deliver
  generalize s.drainInto e v = x at hd he ⊢
  obtain ⟨s₁, e₁, text⟩ := x
  obtain ⟨hu, hc⟩ : e₁.unit = e.unit ∧ e₁.channel = e.channel := he
  rw [← hu] at hd ⊢
  rw [← hc] at hreply hfile hf hr
  have hs {o : Outgoing} (ho : p (.sent o) = true ∧ p (.unsent o) = true) :=
    hd.trans (s₁.send_tells e₁ ho.1 ho.2)
  rcases hef : e₁.file with - | f
  · rcases text with - | t
    · simpa only [hef] using hd
    · simp only [hef]
      split
      next => exact hd
      next hempty =>
        have ht := hs (hreply t hempty)
        generalize s₁.send e₁ (.reply e₁.channel t) = z at ht ⊢
        rcases z with ⟨s₂, g | m⟩
        · exact ht
        · exact ht.trans (.log s₂ (hr _))
  · have ht := hs (hfile f (.ofText? text))
    simp only [hef]
    generalize s₁.send e₁ (.file e₁.channel f (.ofText? text)) = z at ht ⊢
    rcases z with ⟨s₂, g | m⟩
    · exact ht
    · exact ht.trans (.log s₂ hf)

/-- The final answer. -/
theorem deliver_tells (hp : ∀ h : Happening, h.isSilent = true → p h = true)
    (hf : p (.logged (.fileDelivered e.channel)) = true)
    (hr : ∀ n, p (.logged (.responseDelivered e.channel n)) = true) (v : Value) :
    s.Tells p e.unit (s.deliver e v).1 :=
  s.deliver_tells_sending e (hp _ rfl) (fun _ _ => ⟨hp _ rfl, hp _ rfl⟩)
    (fun _ _ => ⟨hp _ rfl, hp _ rfl⟩) hf hr v

/-- What is reported of a reading, and how many invocations were read. -/
theorem programOfParsed_tells {x : Parsed} (hx : ∀ l ∈ x.events, p (.logged l) = true)
    (hp : ∀ n, p (.logged (.chainParsed n)) = true) :
    s.Tells p e.unit (s.programOfParsed e x).1 := by
  have hl : s.Tells p e.unit (s.logAll e.unit x.events) := .logAll s hx
  unfold programOfParsed
  rcases x.chain with f | c
  · exact hl
  · exact hl.trans (.log _ (hp _))

/-- What is reported while a text is read. -/
theorem programOf_tells (hn : ∀ (n : Note) l, n.event? = some l → p (.logged l) = true)
    (hp : ∀ n, p (.logged (.chainParsed n)) = true) (text : String) :
    s.Tells p e.unit (s.programOf e text).1 := by
  unfold programOf
  split
  · refine s.programOfParsed_tells e ?_ hp
    intro l hl
    simp only [parseChain, Reading.within, Parsed.within, List.mem_filterMap] at hl
    obtain ⟨n, -, hnl⟩ := hl
    exact hn n l hnl
  · exact .refl s

theorem programOfGiven_tells (v : Setting) :
    s.Tells (fun _ => true) e.unit (s.programOfGiven e v).1 := by
  unfold programOfGiven
  split
  · exact s.programOf_tells e (fun _ _ _ => rfl) (fun _ => rfl) _
  · exact s.programOfParsed_tells e (fun _ _ => rfl) fun _ => rfl

end Operations

end Core

/-! ## Runs -/

/-- The event that a run is for, whether or not it has ended. -/
def Progress.event : Progress → Event
  | .on r => r.event
  | .blocked _ r => r.event
  | .yielded r => r.event
  | .ended e _ => e

theorem Progress.event_of_rest {p : Progress} {r : Run} (h : p.rest = some r) :
    p.event = r.event := by
  cases p <;> cases h <;> rfl

namespace Run

theorem leave_tells {p : Happening → Bool} (hp : ∀ h : Happening, h.isSilent = true → p h = true)
    (s : Core) (e : Event) {f : Frame}
    (hf : p (.logged (.noPermissionRaised f.called e.authorId)) = true) (fs : List Frame)
    (result : Except Fault Value) : s.Tells p e.unit (leave s e f fs result).1 := by
  rcases result with x | v
  · exact s.notice_tells e (fun h hg => hp h (Happening.isSilent_of_isGate hg)) hf x
  · exact (s.drainInto_tells e v).mono hp

/-- What may be told of the next request of a run. -/
structure Allows (p : Happening → Bool) (r : Run) : Prop where
  silent : ∀ h : Happening, h.isSilent = true → p h = true
  act : ∀ a next, r.program = .act a next →
    ∀ s : Core, s.Tells p r.event.unit (s.serve r.event a).1
  call : ∀ name arguments chained next, r.program = .call name arguments chained next →
    r.event.Allows p name ∧ p (.logged (.commandExecuting name arguments)) = true
  frames : ∀ f ∈ r.frames, p (.logged (.noPermissionRaised f.called r.event.authorId)) = true

/-- **A request of a run** tells of its own unit what is allowed of the request. -/
theorem step_tells_of {p : Happening → Bool} {r : Run} (hp : r.Allows p)
    (opened : Setting → Bool) (s : Core) : s.Tells p r.event.unit (r.step opened s).1 := by
  obtain ⟨e, q, m, fs⟩ := r
  cases q with
  | act a next => exact hp.act a next rfl s
  | wait g next =>
    simp only [step]
    split <;> exact .refl s
  | call name arguments chained next =>
    obtain ⟨ha, hc⟩ := hp.call name arguments chained next rfl
    have hd := (Core.Tells.log s hc).trans (s.dispatch_tells e ha.gate arguments chained)
    simp only [step]
    generalize s.dispatch e name arguments chained = x at hd ⊢
    rcases x with ⟨s', e', c | t | f⟩ <;> exact hd
  | done result =>
    rcases fs with - | ⟨f, fs⟩
    · exact .refl s
    · exact leave_tells hp.silent s e (hp.frames f List.mem_cons_self) fs result

/-- It tells of no end. -/
theorem step_tells (opened : Setting → Bool) (s : Core) (r : Run) :
    s.Tells Happening.isRoutine r.event.unit (r.step opened s).1 := by
  refine step_tells_of ⟨fun _ => Happening.isRoutine_of_isSilent, ?_, ?_, fun _ _ => rfl⟩ opened s
  · intro a next _ s
    exact (s.serve_tells r.event a).mono fun _ => Happening.isRoutine_of_isOwn
  · intro name arguments chained next _
    exact ⟨⟨fun _ => Happening.isRoutine_of_isSilent, rfl, fun _ _ => rfl, rfl⟩, rfl⟩

/-- A run belongs to the same unit all the time. -/
theorem step_unit (opened : Setting → Bool) (s : Core) (r : Run) :
    (r.step opened s).2.event.unit = r.event.unit := by
  -- Told for its own unit behind the same journal, the request is itself.
  let g : Guise := { before := s.journal, unit := fun _ => r.event.unit }
  have hs : g.core s.tables = s := by simp [g, Guise.core, Core.tables]
  have hstep := g.step s.tables opened r fun _ _ => rfl
  rw [hs] at hstep
  rw [show r.step opened s = _ from hstep]
  cases (r.step opened s.tables).2 <;> rfl

/-- Requests that go on tell of the unit of the run, and of no end. -/
theorem advance_tells (opened : Setting → Bool) (n : Nat) (s : Core) (r : Run) :
    s.Tells Happening.isRoutine r.event.unit (r.advance opened n s).1 ∧
      (r.advance opened n s).2.event.unit = r.event.unit := by
  induction n generalizing s r with
  | zero => exact ⟨.refl s, rfl⟩
  | succ n ih =>
    have ht := r.step_tells opened s
    have hu := r.step_unit opened s
    rw [advance]
    generalize r.step opened s = x at ht hu ⊢
    obtain ⟨s', p⟩ := x
    cases p with
    | on r' =>
      obtain ⟨ht', hu'⟩ := ih s' r'
      have hr : r'.event.unit = r.event.unit := hu
      exact ⟨ht.trans (hr ▸ ht'), hu'.trans hr⟩
    | _ => exact ⟨ht, hu⟩

end Run

end ChatCommands
