import ChatCommands.Proofs.Bot.Accounting
import ChatCommands.Proofs.Chain.Words
import ChatCommands.Proofs.Dispatch.Conversation
import ChatCommands.Proofs.Dispatch.Modes

/-!
# What a bot takes in

A message is taken in if it says something behind the prefix that the bot may read as a chain text,
and if it comes from somebody whom the bot listens to. Then there is one unit more. Otherwise there
is nothing but a report. What stands behind the prefix is decided by the first candidate that the
message begins with, and no other is tried if the bot does not let it pass.

The gates behind the prefix and the words of a text go by the same blanks, so that a text that was
let pass has a word. In simple mode its unit looks up the command of the first word, and no other.

## Main definitions

* `Prefix.Leaves`: what a message says behind a prefix
* `Attributes.LetsPass`: the texts that may be chain texts
* `Bot.Takes`, `Bot.Admits`, `Bot.Ignores`: messages that are taken in, and what becomes of them and
  of others
* `Program.LooksUpOnce`: a program that calls one command and ends with its answer

## Main results

* `trigger_eq_ok_iff`: when a content is a chain text behind a prefix
* `words_ne_nil`: a text that is not blank has a word
* `intake_exact`: what is taken in of all that comes, and what it comes to in simple mode
-/

namespace ChatCommands

open Relation (ReflTransGen)

/-! ## Behind a prefix -/

/-- What a message says behind a prefix. Among candidates the first counts that it begins with. -/
inductive Prefix.Leaves : Prefix → Setting → String → Prop where
  | literal (lead chain : String) :
    Leaves (.literal (.text lead)) (.text (lead ++ chain)) chain
  | anyOf {before : List Setting} {lead chain : String}
      (hb : ∀ v ∈ before, ∃ t : String, v = .text t ∧ ∀ u, lead ++ chain ≠ t ++ u)
      (after : List Setting) :
    Leaves (.anyOf (before ++ .text lead :: after)) (.text (lead ++ chain)) chain
  | custom {f : Setting → Except Fault Setting} {content : Setting} {chain : String}
      (h : f content = .ok (.text chain)) : Leaves (.custom f) content chain

/-- The texts that may be chain texts: they hold more than blanks, and begin with something else
unless they may begin with a blank. -/
structure Attributes.LetsPass (a : Attributes) (chain : String) : Prop where
  notBlank : ∃ c ∈ chain.toList, blank c = false
  begins : a.spacesAllowed = true ∨ ∀ c ∈ chain.toList.head?, blank c = false

theorem dropLeading_eq_some_iff {lead s chain : String} :
    dropLeading lead s = some chain ↔ s = lead ++ chain := by
  unfold dropLeading
  constructor
  · intro h
    split at h
    next hp =>
      obtain ⟨l, hl⟩ := List.isPrefixOf_iff_prefix.mp hp
      obtain rfl := Option.some.inj h
      apply String.toList_inj.mp
      rw [String.toList_append, String.toList_ofList, ← hl, List.drop_left]
    · cases h
  · rintro rfl
    have hp : lead.toList <+: (lead ++ chain).toList := by
      rw [String.toList_append]
      exact List.prefix_append _ _
    rw [if_pos (List.isPrefixOf_iff_prefix.mpr hp), String.toList_append, List.drop_left,
      String.ofList_toList]

theorem dropLeading_eq_none_iff {lead s : String} :
    dropLeading lead s = none ↔ ∀ u, s ≠ lead ++ u := by
  rw [Option.eq_none_iff_forall_ne_some]
  exact forall_congr' fun u => not_congr dropLeading_eq_some_iff

namespace Prefix

theorem textsOf_eq_ok {part : String} {m mark : Setting} {s t : String}
    (h : textsOf part m mark = .ok (s, t)) : m = .text s ∧ mark = .text t := by
  have htext {v : Setting} {u : String} (hv : v.text? = some u) : v = .text u := by
    unfold Setting.text? at hv
    split at hv
    · obtain rfl := Option.some.inj hv
      rfl
    · cases hv
  unfold textsOf at h
  split at h
  next s' t' hs ht =>
    obtain ⟨rfl, rfl⟩ := Prod.mk.inj (Except.ok.inj h)
    exact ⟨htext hs, htext ht⟩
  · cases h
  · cases h

/-- A content is compared with a candidate only if both are texts. -/
theorem behind_eq_ok {v m : Setting} {r : Option String} (h : behind v m = .ok r) :
    ∃ lead s : String, v = .text lead ∧ m = .text s ∧ r = dropLeading lead s := by
  unfold behind at h
  rcases htexts : textsOf "startswith" m v with f | ⟨s, lead⟩
  · rw [htexts] at h
    cases h
  · rw [htexts] at h
    obtain ⟨rfl, rfl⟩ := textsOf_eq_ok htexts
    exact ⟨lead, s, rfl, rfl, (Except.ok.inj h).symm⟩

/-- **The first candidate** that a content begins with decides what stands behind it. -/
theorem behindFirst_eq_some_iff {vs : List Setting} {m : Setting} {chain : String} :
    behindFirst m vs = .ok (some chain) ↔ (anyOf vs).Leaves m chain := by
  constructor
  · intro h
    induction vs with
    | nil => cases h
    | cons v vs ih =>
      obtain ⟨r, hr, h⟩ := except_bind_eq_ok h
      obtain ⟨lead, s, rfl, rfl, rfl⟩ := behind_eq_ok hr
      rcases hdrop : dropLeading lead s with - | t
      · -- The candidate is passed over, and is one more before the one that counts.
        rw [hdrop] at h
        cases ih h with
        | @anyOf before lead' _ hb after =>
          refine @Leaves.anyOf (.text lead :: before) lead' chain ?_ after
          intro v hv
          rcases List.mem_cons.mp hv with rfl | hv
          · exact ⟨lead, rfl, dropLeading_eq_none_iff.mp hdrop⟩
          · exact hb v hv
      · rw [hdrop] at h
        obtain rfl := Option.some.inj (Except.ok.inj h)
        obtain rfl := dropLeading_eq_some_iff.mp hdrop
        exact @Leaves.anyOf [] lead t (List.forall_mem_nil _) vs
  · rintro (_ | @⟨before, lead, _, hb, after⟩)
    induction before with
    | nil =>
      have hdrop : dropLeading lead (lead ++ chain) = some chain :=
        dropLeading_eq_some_iff.mpr rfl
      show (Except.ok (dropLeading lead (lead ++ chain)) >>= _) = _
      rw [hdrop]
      rfl
    | cons v before ih =>
      obtain ⟨t, rfl, ht⟩ := hb v List.mem_cons_self
      have hdrop : dropLeading t (lead ++ chain) = none := dropLeading_eq_none_iff.mpr ht
      show (Except.ok (dropLeading t (lead ++ chain)) >>= _) = _
      rw [hdrop]
      exact ih fun v hv => hb v (List.mem_cons_of_mem _ hv)

theorem remainder_eq_text_iff {p : Prefix} {m : Setting} {chain : String} :
    p.remainder m = .ok (.text chain) ↔ p.Leaves m chain := by
  have hmap {x : Except Fault (Option String)} :
      x.map Setting.ofText? = .ok (.text chain) ↔ x = .ok (some chain) := by
    rcases x with f | - | t
    · exact ⟨nofun, nofun⟩
    · exact ⟨nofun, nofun⟩
    · constructor
      · rintro ⟨⟩
        rfl
      · rintro ⟨⟩
        rfl
  cases p with
  | literal v =>
    rw [remainder, hmap]
    constructor
    · intro h
      obtain ⟨lead, s, rfl, rfl, hdrop⟩ := behind_eq_ok h
      obtain rfl := dropLeading_eq_some_iff.mp hdrop.symm
      exact .literal lead chain
    · rintro ⟨lead⟩
      exact congrArg Except.ok (dropLeading_eq_some_iff.mpr rfl)
  | anyOf vs =>
    rw [remainder, hmap]
    exact behindFirst_eq_some_iff
  | custom f =>
    constructor
    · exact .custom
    · rintro ⟨⟩
      assumption

end Prefix

/-! ## The gates -/

theorem isBlankText_eq_false_iff {s : List Char} :
    isBlankText s = false ↔ ∃ c ∈ s, blank c = false := by
  simp [isBlankText]

theorem gate_chain (a : Attributes) (chain : String) :
    (a.LetsPass chain ∧ (gate a chain).chain = some chain) ∨
      (¬ a.LetsPass chain ∧ (gate a chain).chain = none) := by
  unfold gate
  split
  next h =>
    -- Nothing stands behind the prefix.
    refine .inr ⟨?_, rfl⟩
    rintro ⟨⟨c, hc, -⟩, -⟩
    rw [h] at hc
    cases hc
  next c s h =>
    split
    next hlead =>
      -- It begins with a blank and may not.
      obtain ⟨hblank, hspaces⟩ := Bool.and_eq_true_iff.mp hlead
      refine .inr ⟨?_, rfl⟩
      rintro ⟨-, hbegins | hbegins⟩
      · rw [hbegins] at hspaces
        cases hspaces
      · have hc := hbegins c (by rw [h]; rfl)
        rw [hblank] at hc
        cases hc
    next hlead =>
      split
      next hall =>
        -- There are blanks only.
        refine .inr ⟨?_, rfl⟩
        rintro ⟨⟨d, hd, hblank⟩, -⟩
        rw [h] at hd
        rw [List.all_eq_true.mp hall d hd] at hblank
        cases hblank
      next hall =>
        refine .inl ⟨⟨?_, ?_⟩, rfl⟩
        · rw [h]
          exact isBlankText_eq_false_iff.mp (Bool.eq_false_iff.mpr hall)
        · rcases hspaces : a.spacesAllowed with - | -
          · right
            rintro d hd
            rw [h] at hd
            obtain rfl := Option.some.inj hd
            simpa [hspaces] using hlead
          · exact .inl rfl

/-- **A content triggers the bot** exactly if what stands behind the prefix is let pass. -/
theorem trigger_eq_ok_iff {p : Prefix} {a : Attributes} {m : Setting} {chain : String} :
    (∃ t, trigger p a m = .ok t ∧ t.chain = some chain) ↔ p.Leaves m chain ∧ a.LetsPass chain := by
  rw [← Prefix.remainder_eq_text_iff]
  constructor
  · rintro ⟨t, ht, hchain⟩
    obtain ⟨v, hv, ht⟩ := except_bind_eq_ok ht
    split at ht
    · obtain rfl := Except.ok.inj ht
      cases hchain
    next c =>
      obtain rfl := Except.ok.inj ht
      rcases gate_chain a c with ⟨hpass, hc⟩ | ⟨-, hc⟩
      · obtain rfl := Option.some.inj (hc.symm.trans hchain)
        exact ⟨hv, hpass⟩
      · rw [hc] at hchain
        cases hchain
    · cases ht
  · rintro ⟨hv, hpass⟩
    refine ⟨gate a chain, ?_, ?_⟩
    · rw [trigger, hv]
      rfl
    · rcases gate_chain a chain with ⟨-, hc⟩ | ⟨hn, -⟩
      · exact hc
      · exact absurd hpass hn

/-! ## Words -/

theorem wordsFrom_ne_nil {w : List Char} (hw : w ≠ []) (s : List Char) : wordsFrom w s ≠ [] := by
  induction s generalizing w with
  | nil =>
    rw [wordsFrom, if_neg (by simpa using hw)]
    exact List.cons_ne_nil _ _
  | cons c s ih =>
    rw [wordsFrom]
    split
    · rw [if_neg (by simpa using hw)]
      exact List.cons_ne_nil _ _
    · exact ih (by simp)

/-- **A text that is not blank** has a word. -/
theorem words_ne_nil {s : List Char} (h : ∃ c ∈ s, blank c = false) : words s ≠ [] := by
  obtain ⟨c, hc, hblank⟩ := h
  induction s with
  | nil => cases hc
  | cons d s ih =>
    by_cases hd : blank d = true
    · rw [words_blank hd]
      rcases List.mem_cons.mp hc with rfl | hc
      · rw [hd] at hblank
        cases hblank
      · exact ih hc
    · rw [words, wordsFrom, if_neg hd]
      exact wordsFrom_ne_nil (List.cons_ne_nil _ _) s

/-! ## Programs of one call -/

/-- A program that looks up one command: it makes this call and no other, and is at its end when it
hears the answer. -/
def Program.LooksUpOnce (p : Program Value) (c : Call) : Prop :=
  ∀ (e : Event) (m : Manner) (t : List Talk) (r : Run), Run.Course ⟨e, p, m, []⟩ t r →
    (t = [] ∧ r.base.ahead = some (.calls c)) ∨
    (t = [.called c] ∧ r.base.ahead = some .hears) ∨
    ∃ a v, t = [.called c, .answered a] ∧ r.base.ahead = some (.ends v)

theorem looksUpOnce_call {name : Setting} {arguments : List Setting} {chained : Bool}
    {next : Except Fault (Option String) → Program Value} (hend : ∀ a, ∃ v, next a = .done v) :
    (Program.call name arguments chained next).LooksUpOnce ⟨name, arguments, chained⟩ := by
  intro e m t r h
  -- The lowest program is before its call, waits for the answer, or is at its end.
  have hbase : (t = [] ∧ r.base = .ready (.call name arguments chained next)) ∨
      (t = [.called ⟨name, arguments, chained⟩] ∧ r.base = .waiting next) ∨
      ∃ a v, t = [.called ⟨name, arguments, chained⟩, .answered a] ∧
        r.base = .ready (.done v) := by
    induction h with
    | start => exact .inl ⟨rfl, rfl⟩
    | @step t r r' _ opened s hr ih =>
      have hgoes := Run.step_base hr
      generalize r.talk s = u at hgoes
      generalize r'.base = b' at hgoes
      rcases ih with ⟨rfl, hb⟩ | ⟨rfl, hb⟩ | ⟨a, v, rfl, hb⟩ <;> rw [hb] at hgoes
      · cases hgoes with
        | call => exact .inr (.inl ⟨rfl, rfl⟩)
        | callAnswered _ _ _ _ a =>
          obtain ⟨v, hv⟩ := hend a
          exact .inr (.inr ⟨a, v, rfl, congrArg Base.ready hv⟩)
      · cases hgoes with
        | above => exact .inr (.inl ⟨rfl, rfl⟩)
        | answer _ a =>
          obtain ⟨v, hv⟩ := hend a
          exact .inr (.inr ⟨a, v, rfl, congrArg Base.ready hv⟩)
      · nomatch hgoes
  rcases hbase with ⟨ht, hb⟩ | ⟨ht, hb⟩ | ⟨a, v, ht, hb⟩
  · exact .inl ⟨ht, by rw [hb]; rfl⟩
  · exact .inr (.inl ⟨ht, by rw [hb]; rfl⟩)
  · exact .inr (.inr ⟨a, v, ht, by rw [hb]; rfl⟩)

/-- **In simple mode** the program of a text that is not blank looks up its first word, for the
other words. -/
theorem simpleProgram_looksUpOnce {chain : String} (h : ∃ c ∈ chain.toList, blank c = false) :
    ∃ w ws, words chain.toList = w :: ws ∧
      (wordsProgram chain).LooksUpOnce
        ⟨String.ofList w, ws.map fun v => .text (String.ofList v), false⟩ := by
  obtain ⟨w, ws, hwords⟩ := List.exists_cons_of_ne_nil (words_ne_nil h)
  refine ⟨w, ws, hwords, ?_⟩
  have hparse : parseSimple chain = [.call (String.ofList w) (ws.map wordArgument)] := by
    rw [parseSimple, hwords]
    rfl
  rw [wordsProgram, hparse, simpleProgram, Invocation.arguments, literals_words, Invocation.name,
    List.map_map]
  -- What is bound behind the call turns its answer into a value, or passes its fault on.
  refine @looksUpOnce_call _ _ _ (fun a => Program.done a >>= fun t => pure (Value.ofText? t)) ?_
  intro a
  rcases a with f | t
  · exact ⟨.error f, rfl⟩
  · exact ⟨.ok (.ofText? t), rfl⟩

/-! ## Messages -/

namespace Bot

/-- A message is taken in for a chain text: the bot listens to its author and finds the text behind
the prefix. -/
structure Takes (b : Bot) (m : Message) (chain : String) : Prop where
  author : ∃ u, m.author = some u ∧ (b.isSelf u = false ∨ b.core.attributes.parseSelf = true)
  content : (b.chainText m.content).2 = .ok (some chain)

/-- Nothing happens but that something is reported. -/
structure Ignores (b b' : Bot) : Prop where
  reports : Scene.Reports b.core b'.core
  tables : b'.core.tables = b.core.tables
  rest : b' = { b with core := b'.core }

/-- There is one unit more, which has its text still to read, and nothing is sent. -/
structure Admits (b : Bot) (m : Message) (chain : String) (b' : Bot) : Prop where
  reports : Scene.Reports b.core b'.core
  tables : b'.core.tables = b.core.tables
  units : b'.units.units = b.units.units ++ [⟨unitName b.units.counter,
    .fresh (.chain chain { unit := some b.units.units.length, message := m }), false⟩]
  counter : b'.units.counter = b.units.counter + 1
  tracked : b'.units.tracked = b.units.tracked ++ [b.units.units.length]
  due : b'.units.due = b.units.due ++ [b.units.units.length]
  rest : { b' with core := b.core, units := b.units } = b

variable {b b' : Bot} {m : Message} {chain : String}

theorem attributes_of_steps (h : ReflTransGen Step b b') :
    b'.core.attributes = b.core.attributes := by
  induction h with
  | refl => rfl
  | tail _ hs ih => exact hs.attributes.trans ih

theorem chainText_eq_ok_iff {content : Setting} : (b.chainText content).2 = .ok (some chain) ↔
    b.trigger.Leaves content chain ∧ b.core.attributes.LetsPass chain := by
  rw [← trigger_eq_ok_iff, chainText]
  rcases ChatCommands.trigger b.trigger b.core.attributes content with f | t
  · simp
  · simp

/-- What a gate rejects is given up, whatever other candidates there are. -/
theorem chainText_of_rejected {content : Setting} (hl : b.trigger.Leaves content chain)
    (hp : ¬ b.core.attributes.LetsPass chain) : (b.chainText content).2 = .ok none := by
  have hr := Prefix.remainder_eq_text_iff.mpr hl
  rcases gate_chain b.core.attributes chain with ⟨h, -⟩ | ⟨-, hc⟩
  · exact absurd h hp
  · have ht : ChatCommands.trigger b.trigger b.core.attributes content =
        .ok (gate b.core.attributes chain) := by
      rw [ChatCommands.trigger, hr]
      rfl
    rw [chainText, ht, ← hc]

theorem Takes.triggers (h : b.Takes m chain) : Scene.Triggers b.trigger b.core m chain := by
  obtain ⟨⟨u, hu, hself⟩, hcontent⟩ := h
  refine ⟨⟨u, hu, ?_⟩, trigger_eq_ok_iff.mpr (chainText_eq_ok_iff.mp hcontent)⟩
  have hor : b.isSelf u = false ∨ (!b.core.attributes.parseSelf) = false := by
    simpa using hself
  intro hn
  obtain ⟨h₁, h₂⟩ := Bool.and_eq_true_iff.mp hn
  rcases hor with h | h
  · exact Bool.false_ne_true (h.symm.trans h₁)
  · exact Bool.false_ne_true (h.symm.trans h₂)

theorem Takes.of_triggers (h : Scene.Triggers b.trigger b.core m chain) : b.Takes m chain := by
  obtain ⟨⟨u, hu, hself⟩, hchain⟩ := h
  refine ⟨⟨u, hu, ?_⟩, chainText_eq_ok_iff.mpr (trigger_eq_ok_iff.mp hchain)⟩
  rcases hp : b.core.attributes.parseSelf with - | -
  · left
    rw [hp] at hself
    simpa [isSelf] using hself
  · exact .inr rfl

/-- A message that is taken in becomes a unit. -/
theorem receive_of_takes (h : b.Takes m chain) :
    (b.receive m).2 = .ok (some (unitName b.units.counter)) ∧ b.Admits m chain (b.receive m).1 := by
  obtain ⟨s, hs⟩ := receive_of_triggers h.triggers
  cases b.receives m with
  | passed l hl hb hr => exact absurd (congrArg Prod.snd hs) (hr _)
  | enrolled u text hu ht hb hr =>
    obtain rfl := Option.some.inj (Except.ok.inj (ht.symm.trans h.content))
    refine ⟨hr, ?_⟩
    rw [hb]
    exact ⟨(Scene.Reports.log _ _ _).trans (.log _ _ _), rfl, rfl, rfl, rfl, rfl, rfl⟩

/-- Any other is passed over. -/
theorem receive_of_not_takes (h : ∀ chain, ¬ b.Takes m chain) :
    (∀ name, (b.receive m).2 ≠ .ok (some name)) ∧ b.Ignores (b.receive m).1 := by
  have hnone := (receive_of_not_triggers fun text ht => h text (.of_triggers ht)).2
  refine ⟨hnone, ?_⟩
  cases b.receives m with
  | passed l hl hb hr =>
    rw [hb]
    exact ⟨.logAll _ _ _, (b.core.logAll_keeps none l).tables, rfl⟩
  | enrolled u text hu ht hb hr => exact absurd hr (hnone _)

end Bot

/-- **What a bot takes in.** A content is a chain text exactly if it is left behind the prefix and
let pass, and is given up otherwise. A message becomes one unit exactly if the bot listens to its
author and its content is a chain text; any other is passed over. In simple mode, whatever happens
at the bot before the turn of the unit comes, its program looks up the first word of the text and
nothing else. -/
theorem intake_exact (b : Bot) (m : Message) :
    (∀ content chain, (b.chainText content).2 = .ok (some chain) ↔
      b.trigger.Leaves content chain ∧ b.core.attributes.LetsPass chain) ∧
    (∀ content chain, b.trigger.Leaves content chain → ¬ b.core.attributes.LetsPass chain →
      (b.chainText content).2 = .ok none) ∧
    (∀ chain, b.Takes m chain → (b.receive m).2 = .ok (some (unitName b.units.counter)) ∧
      b.Admits m chain (b.receive m).1) ∧
    ((∀ chain, ¬ b.Takes m chain) →
      (∀ name, (b.receive m).2 ≠ .ok (some name)) ∧ b.Ignores (b.receive m).1) ∧
    ∀ chain, b.Takes m chain → b.core.attributes.advanced = false →
      ∀ b', ReflTransGen Bot.Step (b.receive m).1 b' → ∃ w ws p,
        words chain.toList = w :: ws ∧
        p.LooksUpOnce ⟨String.ofList w, ws.map fun v => .text (String.ofList v), false⟩ ∧
        ∀ e opened, b'.core.resumeJob opened (.chain chain e) =
          (b'.core.log e.unit (.chainParsing chain)).resumeRun opened ⟨e, p, .inline, []⟩ := by
  refine ⟨fun content chain => Bot.chainText_eq_ok_iff,
    fun content chain => Bot.chainText_of_rejected, fun chain => Bot.receive_of_takes,
    Bot.receive_of_not_takes, ?_⟩
  intro chain h hsimple b' hsteps
  obtain ⟨-, hpass⟩ := Bot.chainText_eq_ok_iff.mp h.content
  obtain ⟨w, ws, hwords, hp⟩ := simpleProgram_looksUpOnce hpass.notBlank
  refine ⟨w, ws, wordsProgram chain, hwords, hp, ?_⟩
  intro e opened
  -- The mode of the bot is settled when it is built.
  have hmode : b'.core.attributes = b.core.attributes := by
    have hreceive : (b.receive m).1.core.attributes = b.core.attributes :=
      congrArg (·.attributes) (Bot.receive_of_takes h).2.tables
    rw [← hreceive]
    exact Bot.attributes_of_steps hsteps
  have hprogram : (b'.core.log e.unit (.chainParsing chain)).programOf e chain =
      (b'.core.log e.unit (.chainParsing chain), wordsProgram chain) := by
    rw [Core.programOf, if_neg]
    · rfl
    · show ¬ b'.core.attributes.advanced = true
      rw [hmode, hsimple]
      exact Bool.false_ne_true
  rw [Core.resumeJob, hprogram]

/-- Candidates of which one begins with another, and an empty one behind them. A content that the
second leaves a blank of is given up, although the last would leave a chain text. -/
theorem intake_exact_candidates :
    ∃ (b : Bot) (m m' : Message), b.trigger.Leaves m.content " a" ∧
      ¬ b.core.attributes.LetsPass " a" ∧ (b.chainText m.content).2 = .ok none ∧
      (∀ chain, ¬ b.Takes m chain) ∧ b.Ignores (b.receive m).1 ∧
      b.trigger.Leaves m'.content "help a" ∧ b.core.attributes.LetsPass "help a" ∧
      b.Takes m' "help a" ∧ b.Admits m' "help a" (b.receive m').1 ∧
      b.core.attributes.advanced = false ∧
      ∃ w ws p, words "help a".toList = w :: ws ∧
        p.LooksUpOnce ⟨String.ofList w, ws.map fun v => .text (String.ofList v), false⟩ ∧
        ∀ e opened, (b.receive m').1.core.resumeJob opened (.chain "help a" e) =
          ((b.receive m').1.core.log e.unit (.chainParsing "help a")).resumeRun opened
            ⟨e, p, .inline, []⟩ := by
  let b : Bot := .build (.fixed .null [] [] []) (.anyOf [.text "?!", .text "?", .text ""]) {} .null
  let m : Message := ⟨"? a", some ⟨"u", "", []⟩, "c", none, .null⟩
  let m' : Message := { m with content := "?help a" }
  have hfirst (chain : String) (h : dropLeading "?!" ("?" ++ chain) = none) :
      b.trigger.Leaves (.text ("?" ++ chain)) chain := by
    refine @Prefix.Leaves.anyOf [.text "?!"] "?" chain ?_ [.text ""]
    intro v hv
    exact ⟨"?!", List.mem_singleton.mp hv, dropLeading_eq_none_iff.mp h⟩
  have hl : b.trigger.Leaves m.content " a" := hfirst " a" (by decide)
  have hl' : b.trigger.Leaves m'.content "help a" := hfirst "help a" (by decide)
  have hp : ¬ b.core.attributes.LetsPass " a" := by
    rintro ⟨-, h | h⟩
    · cases h
    · cases h ' ' rfl
  have hp' : b.core.attributes.LetsPass "help a" := by
    refine ⟨⟨'h', by decide, by decide⟩, .inr ?_⟩
    rintro c ⟨⟩
    decide
  have hnone := (intake_exact b m).2.1 _ _ hl hp
  have hno : ∀ chain, ¬ b.Takes m chain := by
    rintro chain ⟨-, h⟩
    cases hnone.symm.trans h
  have htakes : b.Takes m' "help a" :=
    ⟨⟨_, rfl, .inl rfl⟩, ((intake_exact b m').1 _ _).mpr ⟨hl', hp'⟩⟩
  have hmode : b.core.attributes.advanced = false := rfl
  exact ⟨b, m, m', hl, hp, hnone, hno, ((intake_exact b m).2.2.2.1 hno).2, hl', hp', htakes,
    ((intake_exact b m').2.2.1 _ htakes).2, hmode,
    (intake_exact b m').2.2.2.2 _ htakes hmode _ .refl⟩

end ChatCommands
