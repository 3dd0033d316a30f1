import ChatCommands.Proofs.Bot.Ticks
import ChatCommands.Proofs.Chain.Depth

/-!
# Chains that nest too deep

A limit to nesting refuses a text as a whole: it is parsed as it would be under any greater limit,
or it is not parsed at all. A unit whose text is refused ends in its first turn, before anything
that the text asks for has happened, although invocations in front of the one that nests too deep
may be in order. All that is ever told of such a unit are reports.

## Main definitions

* `Task.Refused`: what can be found of a unit whose text is refused

## Main results

* `Core.advanceJob_refused`: what comes of reading a text that is refused
* `Task.Refused.turns`: a unit whose text is refused does nothing in its turn
* `parseChain_depth`: the limit is exact, and what goes beyond it does nothing
-/

namespace ChatCommands

open Relation (ReflTransGen)

/-- Whether something was reported. -/
def Happening.isReport : Happening → Bool
  | logged _ => true
  | _ => false

/-- A run whose next request ends it does not go on. -/
theorem Run.advance_ended {opened : Setting → Bool} {s s' : Core} {r : Run} {e : Event}
    {v : Except Fault Value} (h : r.step opened s = (s', .ended e v)) :
    r.advance opened turnLength s = (s', .ended e v) := by
  -- A turn is long enough for one request at least.
  show Run.advance opened (99999 + 1) s r = _
  rw [Run.advance, h]

section Refused

variable {opened : Setting → Bool} {s s' : Core} {text : String} {f : Fault}

/-- A text that is refused makes a run that ends with the refusal at once. -/
theorem Core.advanceJob_refused (opened : Setting → Bool) (e : Event)
    (ha : s.attributes.advanced = true) (hp : (parseChain s.attributes text).chain = .error f) :
    ∃ s', s.advanceJob opened (.chain text e) = (s', .ended e (.error f)) ∧
      s.Tells Happening.isReport e.unit s' ∧ s'.tables = s.tables := by
  let s₁ := s.log e.unit (.chainParsing text)
  let s₂ := s₁.logAll e.unit (parseChain s.attributes text).events
  have hprogram : s₁.programOf e text = (s₂, .fail f) := by
    have ha₁ : s₁.attributes.advanced = true := ha
    have hp₁ : (parseChain s₁.attributes text).chain = .error f := hp
    rw [programOf, if_pos ha₁, programOfParsed, hp₁]
    rfl
  refine ⟨s₂, ?_, ?_, ?_⟩
  · rw [advanceJob, hprogram]
    exact Run.advance_ended rfl
  · exact (Tells.log s rfl).trans (.logAll s₁ fun l _ => rfl)
  · exact (s₁.logAll_keeps _ _).tables

/-- What can be found of a unit whose text is refused: nobody has looked at the text yet, or the
unit has ended and left nothing running. -/
inductive Task.Refused (a : Attributes) (u : Task Job) : Prop where
  | unread {text : String} {e : Event} {f : Fault} (hs : u.stage = .fresh (.chain text e))
      (ha : a.advanced = true) (hp : (parseChain a text).chain = .error f)
  | ended (hs : u.stage = .done ∨ u.stage = .cancelled none)

namespace Task.Refused

variable {i : Nat} {u u' : Task Job}

/-- **A unit whose text is refused** does nothing in its turn but report that. -/
theorem turns (h : Refused s.attributes u) (ho : u.Owned i)
    (ht : Task.Turns opened i s u s' u') :
    Refused s.attributes u' ∧ s.Tells Happening.isReport (some i) s' ∧ s'.tables = s.tables := by
  cases h with
  | @unread text e f hs ha hp =>
    have hj : u.stage.standing = (some (.chain text e), false) := by
      rw [hs]
      rfl
    have he : e.unit = some i := (ho _ _ hj).1
    obtain ⟨s₁, hadv, htells, htables⟩ := Core.advanceJob_refused opened e ha hp
    rcases hc : u.cancelling
    · -- The run has ended, so that the unit neither waits nor lets others go first.
      obtain ⟨rfl, rfl⟩ := ht.of_ends hj hc (.cut hadv)
      refine ⟨.ended (.inl rfl), ?_, ?_⟩
      · rw [← he]
        exact htells.trans (.logAll _ fun l _ => rfl)
      · exact (s₁.logAll_keeps _ _).tables.trans htables
    · obtain ⟨rfl, rfl⟩ := ht.of_fresh hs hc
      exact ⟨.ended (.inr rfl), .refl s', rfl⟩
  | ended hs =>
    obtain ⟨rfl, rfl⟩ := ht.of_over hs
    exact ⟨.ended hs, .refl s', rfl⟩

/-- While others act, nothing comes of it. -/
theorem meanwhile {a : Attributes} (h : Refused a u) (hm : Task.Meanwhile u u') :
    Refused a u' := by
  cases h with
  | unread hs ha hp =>
    have hstage := hm.stage_eq (by rw [hs]; rfl)
    exact .unread (hstage.trans hs) ha hp
  | ended hs =>
    refine .ended ?_
    rw [hm.stage_eq (by rcases hs with hs | hs <;> rw [hs] <;> rfl)]
    exact hs

end Task.Refused

end Refused

namespace Bot

variable {b b' : Bot} {i : Nat}

/-- A unit whose text is refused, with nothing but reports told of it. -/
structure Refuses (b : Bot) (i : Nat) : Prop where
  owned : b.Owned
  unit : ∃ u, b.units.units[i]? = some u ∧ u.Refused b.core.attributes
  told : ∀ h ∈ b.core.told (some i), h.isReport = true

theorem Refuses.step (h : b.Refuses i) (hs : b.Step b') : b'.Refuses i := by
  obtain ⟨hown, ⟨u, hu, hr⟩, ht⟩ := h
  have ha := hs.attributes
  obtain ⟨u', hu', ⟨hm, htold⟩ | hturn⟩ := hs.unit hown hu
  · -- While others act nothing is told of it, and the limit stays what it is.
    refine ⟨hs.owned hown, ⟨u', hu', ha ▸ hr.meanwhile hm⟩, ?_⟩
    rw [htold]
    exact ht
  · obtain ⟨hr', ⟨l, hl, hp⟩, -⟩ := hr.turns (hown.units i u hu) hturn
    refine ⟨hs.owned hown, ⟨u', hu', ha ▸ hr'⟩, ?_⟩
    rw [Core.told_of_journal hl]
    intro x hx
    rcases List.mem_append.mp hx with hx | hx
    · exact ht x hx
    · exact hp x hx

theorem Refuses.steps (h : b.Refuses i) (hs : ReflTransGen Step b b') : b'.Refuses i := by
  induction hs with
  | refl => exact h
  | tail _ hstep ih => exact ih.step hstep

/-- The turn of a unit whose text is refused changes nothing that the units share. -/
theorem Refuses.turn_tables (h : b.Refuses i) : (b.turn i).core.tables = b.core.tables := by
  obtain ⟨hown, ⟨u, hu, hr⟩, -⟩ := h
  obtain ⟨s', u', ht, he⟩ := Scheduler.takeTurn_turns b.core hu (hown.units i u hu)
  have hcore : (b.turn i).core = s' := congrArg Prod.fst he
  rw [hcore]
  exact (hr.turns (hown.units i u hu) ht).2.2

/-- A message that triggers the bot becomes a unit for its chain text, behind reports of it. -/
theorem receive_unit {m : Message} {text name : String}
    (ht : (b.chainText m.content).2 = .ok (some text))
    (hr : (b.receive m).2 = .ok (some name)) :
    ∃ l : List LogEvent,
      (b.receive m).1 = enrol { b with core := b.core.logAll none l } text m := by
  cases b.receives m with
  | passed l hl hb hr' => exact absurd hr (hr' name)
  | enrolled u text' hu ht' hb hr' =>
    obtain rfl := Option.some.inj (Except.ok.inj (ht.symm.trans ht'))
    exact ⟨[.chainTriggered u.id m.channel text.length], hb⟩

/-- The unit of a message whose text is refused. -/
theorem receive_refuses {m : Message} {text name : String} {f : Fault} (hb : b.Reached)
    (ht : (b.chainText m.content).2 = .ok (some text))
    (hr : (b.receive m).2 = .ok (some name)) (ha : b.core.attributes.advanced = true)
    (hp : (parseChain b.core.attributes text).chain = .error f) :
    (b.receive m).1.Refuses b.units.units.length := by
  obtain ⟨l, hl⟩ := receive_unit ht hr
  have haside : b.core.Aside (b.core.logAll none l) :=
    .of_tables (b.core.logAll_keeps none l).tables (b.core.logAll_tells none l)
  have hown : Owned { b with core := b.core.logAll none l } :=
    Step.owned hb.owned (.tick (.aside haside))
  have hattr : (b.core.logAll none l).attributes = b.core.attributes := haside.later.attributes
  obtain ⟨n, hunits, hcore⟩ := enrol_eq { b with core := b.core.logAll none l } text m
  rw [hl]
  constructor
  · exact Step.owned hown (.tick (.enrol text m))
  · have hattr' : (enrol { b with core := b.core.logAll none l } text m).core.attributes =
        b.core.attributes := (congrArg (·.attributes) hcore).trans hattr
    rw [hattr', hunits]
    exact ⟨_, List.getElem?_concat_length, .unread rfl ha hp⟩
  · obtain ⟨n', htold⟩ := hown.told_enrol text m
    intro h hh
    obtain rfl := List.mem_singleton.mp (htold ▸ hh)
    rfl

end Bot

/-- **The limit to nesting is exact.** A text that is parsed is parsed alike under greater limits.
It is refused exactly if more sub-chains than the limit are open at once at some point of it,
whatever becomes of them, so never if it has no more characters that open one; and it is refused for
nothing else. A message whose text is refused becomes a unit of which nothing but reports is ever
told, so that it begins no command and sends nothing; and none of its turns changes what the units
share. -/
theorem depth_guard (a : Attributes) (text : String) :
    (∀ {d : Nat} (hd : 0 < d) {c : Chain}, a.maxDepth ≤ d → (parseChain a text).chain = .ok c →
      (parseChain { a with maxDepth := d, maxDepth_pos := hd } text).chain = .ok c) ∧
    ((parseChain a text).chain = .error (tooDeep a.maxDepth) ↔
      ∃ n, a.maxDepth < n ∧ OpenAtOnce a.symbols text.toList n) ∧
    (text.toList.count a.symbols.subStart ≤ a.maxDepth →
      ∃ c, (parseChain a text).chain = .ok c) ∧
    (∀ f, (parseChain a text).chain = .error f → f = tooDeep a.maxDepth) ∧
    ∀ {b : Bot} {m : Message} {name : String} {f : Fault}, b.Reached → b.core.attributes = a →
      a.advanced = true → (b.chainText m.content).2 = .ok (some text) →
      (b.receive m).2 = .ok (some name) → (parseChain a text).chain = .error f →
      ∀ b', ReflTransGen Bot.Step (b.receive m).1 b' →
        (∀ h ∈ b'.core.told (some b.units.units.length), h.isReport = true) ∧
        (b'.turn b.units.units.length).core.tables = b'.core.tables := by
  refine ⟨?_, parseChain_isError_iff a text, parseChain_of_count_le,
    fun f => eq_tooDeep_of_parseChain, ?_⟩
  · intro d hd c hle hc
    exact parseChain_mono (a := a) rfl hle hc
  · rintro b m name f hb rfl ha ht hr hp b' hsteps
    have hrefuses := (Bot.receive_refuses hb ht hr ha hp).steps hsteps
    exact ⟨hrefuses.told, hrefuses.turn_tables⟩

/-- One sub-chain at a time is allowed. In the middle of a chain two of them are open at once, in an
invocation that is dropped for want of a name. -/
theorem depth_guard_discarded :
    ∃ (a : Attributes) (shallow deep : String) (b : Bot) (m : Message) (b' : Bot) (c : Chain),
      a.maxDepth = 1 ∧ shallow = "a [b]>c [d]" ∧ deep = "a>[a [b]]>c" ∧ b.Reached ∧
      (b.chainText m.content).2 = .ok (some deep) ∧
      (parseChain a shallow).chain = .ok c ∧
      (parseChain { a with maxDepth := 2, maxDepth_pos := Nat.two_pos } shallow).chain = .ok c ∧
      (parseChain a deep).chain = .error (tooDeep 1) ∧
      (∃ c', (parseChain a "a [b]").chain = .ok c') ∧
      (b'.core.told (some 0)).length = 3 ∧
      (∀ h ∈ b'.core.told (some 0), h.isReport = true) ∧
      (b'.turn 0).core.tables = b'.core.tables := by
  let a : Attributes := { advanced := true, maxDepth := 1 }
  let b : Bot :=
    { trigger := .literal "!", core := { attributes := a, transport := .fixed .null [] [] [] } }
  let m : Message := ⟨"!a>[a [b]]>c", some ⟨"u", "", []⟩, "c", none, .null⟩
  have hb : b.Reached := ⟨b, ⟨rfl, rfl, rfl, fun x hx => nomatch hx⟩, .refl⟩
  have hopen : OpenAtOnce a.symbols "a>[a [b]]>c".toList 2 :=
    .inl ⟨"a>[a [".toList, by decide +kernel, by decide +kernel⟩
  obtain ⟨hmono, -⟩ := depth_guard a "a [b]>c [d]"
  obtain ⟨-, -, hcount, -⟩ := depth_guard a "a [b]"
  obtain ⟨-, hdeep, -, -, hunit⟩ := depth_guard a "a>[a [b]]>c"
  have hrefused := hdeep.mpr ⟨2, by decide, hopen⟩
  have hshallow : (parseChain { advanced := true, maxDepth := 1 } "a [b]>c [d]").chain =
      .ok [.call "a" [[.sub [.call "b" []]]], .call "c" [[.sub [.call "d" []]]]] := rfl
  have htext : (b.chainText m.content).2 = .ok (some "a>[a [b]]>c") := rfl
  obtain ⟨name, hname⟩ : ∃ name, (b.receive m).2 = .ok (some name) := ⟨_, rfl⟩
  have hturn : ReflTransGen Bot.Step (b.receive m).1 ((b.receive m).1.turn 0) :=
    Bot.acts_steps (.does (.goes (.turn 0)))
  obtain ⟨htold, htables⟩ := hunit hb rfl rfl htext hname hrefused _ hturn
  exact ⟨a, _, _, b, m, (b.receive m).1.turn 0, _, rfl, rfl, rfl, hb, htext, hshallow,
    hmono Nat.two_pos (by decide) hshallow, hrefused, hcount (by decide +kernel),
    by decide +kernel, htold, htables⟩

end ChatCommands
