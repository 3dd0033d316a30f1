import ChatCommands.Proofs.Bot.Tracking
import ChatCommands.Proofs.Bot.Shutdown
import ChatCommands.Proofs.Console.Answers

/-!
# Lines read at any pace

Lines may be read faster than the bot answers them. Their units stand in line then, in the order of
the lines, and none of them has begun. What is written for a line is the same whenever its unit has
its turn, so that at any time what was written and what is still owed for the units in line are the
replies to all lines, in order. When the bot stops the units in line have their turns, and nothing
is left to be cancelled.

## Main definitions

* `Bot.AtConsole`: a bot that hears the user of a console, and whose commands are brief
* `Bot.Says`: what is to be written for a line
* `Bot.Pending`: the units in line, and what is owed for them
* `Bot.AtRest`: nothing is in line

## Main results

* `Bot.AtConsole.ignored_or_answered`, `Bot.Says.unique`: there is one thing to be written for a
  line
* `Bot.Pending.receive`, `Bot.Pending.settle`, `Bot.Pending.stop`: what is written and what is owed
* `Bot.AtRest.answerLine`: a line that is read at rest
-/

namespace ChatCommands

open Console (messageOf)

/-! ## What is to be written for a line -/

namespace Bot

/-- The bot hears the user of the console, its commands are brief, and whether a line triggers it
can always be told. -/
structure AtConsole (b : Bot) : Prop where
  brief : b.core.registry.Brief 2
  heard : b.isSelf consoleUser = false
  judged : ∀ line : String, ∃ t, (b.chainText line).2 = .ok t ∧
    ∀ text ∈ t, text.length ≤ line.length

/-- What is to be written for a line: nothing if it does not trigger the bot, and otherwise what its
chain sends when it runs to its end all alone. -/
inductive Says (b : Bot) (line : String) : String → Prop where
  | ignored (h : (b.chainText line).2 = .ok none) : Says b line ""
  | answered {text : String} {n : Nat} {l : List Entry}
      (ht : (b.chainText line).2 = .ok (some text))
      (h : b.core.tables.Replies (messageOf 0 line) text n l) : Says b line (written l)

variable {b₀ b : Bot} {line w w' : String}

theorem Says.unique (h : b.Says line w) (h' : b.Says line w') : w = w' := by
  cases h with
  | ignored h =>
    cases h' with
    | ignored h' => rfl
    | answered ht' h' => cases h.symm.trans ht'
  | answered ht h =>
    cases h' with
    | ignored h' => cases ht.symm.trans h'
    | answered ht' h' =>
      cases ht.symm.trans ht'
      rw [h.unique h']

/-- **There is something to be written** for every line, after so many requests if it triggers the
bot; no reply is anything but a text. -/
theorem AtConsole.ignored_or_answered (h : b.AtConsole) (line : String) :
    (b.chainText line).2 = .ok none ∨ ∃ text l, (b.chainText line).2 = .ok (some text) ∧
      b.core.tables.Replies (messageOf 0 line) text (4 * line.length + 5) l ∧
      ∀ x ∈ l, x.what.inText = true := by
  obtain ⟨- | text, ht, hl⟩ := h.judged line
  · exact .inl ht
  · obtain ⟨l, hreplies, htext⟩ := Core.exists_replies (T := b.core.tables) rfl h.brief
      (messageOf 0 line) text
    have hlength := hl text rfl
    exact .inr ⟨text, l, ht, hreplies.mono (by omega), htext⟩

/-! ## Units in line -/

/-- The unit has not begun. Within so many requests its chain text comes to its end, and this is to
be written for it then. -/
def Awaits (b₀ b : Bot) (i : Nat) (x : Nat × String) : Prop :=
  ∃ label text m l, b.units.units[i]? =
      some ⟨label, .fresh (.chain text { unit := some i, message := m }), false⟩ ∧
    b₀.core.tables.Replies m text x.1 l ∧ x.2 = written l

/-- The bot has come from `b₀`. In line stand units that have not begun, for which this is owed in
order; all others are done. -/
structure Pending (b₀ : Bot) (owed : List (Nat × String)) (b : Bot) : Prop where
  trigger : b.trigger = b₀.trigger
  timeout : b.timeout = b₀.timeout
  tables : b.core.tables = b₀.core.tables
  awaits : List.Forall₂ (b₀.Awaits b) b.units.due owed
  nodup : b.units.due.Nodup
  ended : ∀ (i : Nat) (u : Task Job), b.units.units[i]? = some u → i ∉ b.units.due →
    u.stage = .done
  tracked : ∀ i ∈ b.units.due, i ∈ b.units.tracked

/-- What was written, and behind it what is owed. -/
def promised (b : Bot) (owed : List (Nat × String)) : String :=
  written b.core.journal ++ String.join (owed.map Prod.snd)

@[simp] theorem promised_nil (b : Bot) : b.promised [] = written b.core.journal :=
  String.append_empty

theorem promised_cons (b : Bot) (x : Nat × String) (owed : List (Nat × String)) :
    b.promised (x :: owed) = written b.core.journal ++ x.2 ++ String.join (owed.map Prod.snd) := by
  rw [promised, List.map_cons, String.join_cons, String.append_assoc]

theorem promised_append (b : Bot) (owed more : List (Nat × String)) :
    b.promised (owed ++ more) = b.promised owed ++ String.join (more.map Prod.snd) := by
  rw [promised, promised, List.map_append, String.join_append, String.append_assoc]

theorem promised_congr {s : Core} (h : written s.journal = written b.core.journal)
    (owed : List (Nat × String)) : { b with core := s }.promised owed = b.promised owed := by
  rw [promised, promised, ← h]

theorem chainText_congr (ht : b.trigger = b₀.trigger) (hs : b.core.tables = b₀.core.tables)
    (content : Setting) : (b.chainText content).2 = (b₀.chainText content).2 := by
  have ha : b.core.attributes = b₀.core.attributes := congrArg (·.attributes) hs
  simp only [chainText, ht, ha]
  split <;> rfl

/-- A line of the console's user is heard: it becomes a unit if it triggers the bot, and is reported
otherwise. -/
theorem receive_line (line : String) (h : b.isSelf consoleUser = false) :
    (∀ text, (b.chainText line).2 = .ok (some text) → (b.receive (messageOf 0 line)).1 =
      enrol { b with core := b.core.log none (.chainTriggered consoleId consoleId text.length) }
        text (messageOf 0 line)) ∧
    ((b.chainText line).2 = .ok none → ∃ ls,
      (b.receive (messageOf 0 line)).1 = { b with core := b.core.logAll none ls }) := by
  have hself : (b.isSelf consoleUser && !b.core.attributes.parseSelf) = false := by rw [h]; rfl
  have hnone : ¬((b.isSelf consoleUser && !b.core.attributes.parseSelf) = true) := by simp [hself]
  rcases htr : ChatCommands.trigger b.trigger b.core.attributes line with f | t
  · constructor
    · intro text ht
      simp only [chainText, htr] at ht
      cases ht
    · intro ht
      simp only [chainText, htr] at ht
      cases ht
  · have hchain : b.chainText line =
        ({ b with core := b.core.logAll none t.events }, .ok t.chain) := by
      simp only [chainText, htr]
    rw [hchain]
    constructor
    · intro text ht
      have htext : t = ⟨[], some text⟩ := by
        rcases trigger_cases htr with ⟨text', rfl⟩ | ⟨hc, -⟩
        · cases ht
          rfl
        · rw [hc] at ht
          cases ht
      subst htext
      simp only [receive, messageOf, if_neg hnone, hchain]
      rfl
    · intro ht
      refine ⟨t.events, ?_⟩
      simp only [receive, messageOf, if_neg hnone, hchain, Except.ok.inj ht]

namespace Pending

variable {owed : List (Nat × String)} {n : Nat}

/-- Nothing that is told changes what is owed. -/
theorem of_tables {s : Core} (h : b₀.Pending owed b) (hs : s.tables = b.core.tables) :
    b₀.Pending owed { b with core := s } where
  trigger := h.trigger
  timeout := h.timeout
  tables := hs.trans h.tables
  awaits := h.awaits
  nodup := h.nodup
  ended := h.ended
  tracked := h.tracked

/-- The units that have not ended are those in line. -/
theorem isPending_iff (h : b₀.Pending owed b) (i : Nat) :
    b.units.isPending i = true ↔ i ∈ b.units.due := by
  have hfresh : ∀ k ∈ b.units.due, b.units.isPending k = true := by
    refine ((List.forall₂_and_left (R := b₀.Awaits b) _ _).mp (h.awaits.imp ?_)).1
    intro k x hx
    refine ⟨?_, hx⟩
    obtain ⟨label, text, m, l, hu, -⟩ := hx
    exact Scheduler.isPending_iff.mpr ⟨_, hu, rfl⟩
  refine ⟨fun hp => ?_, hfresh i⟩
  by_contra hi
  obtain ⟨u, hu, hp⟩ := Scheduler.isPending_iff.mp hp
  rw [h.ended i u hu hi] at hp
  cases hp

theorem untrack (h : b₀.Pending owed b) : b₀.Pending owed b.untrack where
  trigger := h.trigger
  timeout := h.timeout
  tables := h.tables
  awaits := h.awaits
  nodup := h.nodup
  ended := h.ended
  tracked i hi := List.mem_filter.mpr ⟨h.tracked i hi, (h.isPending_iff i).mpr hi⟩

/-- Where nothing is owed nobody stands in line, and every unit is done. -/
theorem due_eq_nil (h : b₀.Pending [] b) : b.units.due = [] :=
  List.forall₂_nil_right_iff.mp h.awaits

theorem done (h : b₀.Pending [] b) : ∀ u ∈ b.units.units, u.stage = .done := by
  intro u hu
  obtain ⟨i, hi⟩ := List.getElem?_of_mem hu
  refine h.ended i u hi ?_
  rw [h.due_eq_nil]
  exact List.not_mem_nil

theorem isPending_eq_false (h : b₀.Pending [] b) (i : Nat) : b.units.isPending i = false := by
  rw [Bool.eq_false_iff, ne_eq, h.isPending_iff, h.due_eq_nil]
  exact List.not_mem_nil

/-- Where nothing is owed no unit is tracked any more. -/
theorem untrack_tracked (h : b₀.Pending [] b) : b.untrack.units.tracked = [] :=
  List.filter_eq_nil_iff.mpr fun i _ => Bool.eq_false_iff.mp (h.isPending_eq_false i)

/-- A new unit stands behind all others. -/
theorem enrol {text : String} {m : Message} {l : List Entry} (h : b₀.Pending owed b)
    (hl : b₀.core.tables.Replies m text n l) :
    b₀.Pending (owed ++ [(n, written l)]) (b.enrol text m) := by
  obtain ⟨k, hunits, hcore⟩ := b.enrol_eq text m
  have hdue : (b.enrol text m).units.due = b.units.due ++ [b.units.units.length] := rfl
  have hold {i : Nat} {u : Task Job} (hu : b.units.units[i]? = some u) :
      (b.enrol text m).units.units[i]? = some u := by
    rw [hunits, List.getElem?_append_left (List.getElem?_eq_some_iff.mp hu).1]
    exact hu
  have hlt : ∀ i ∈ b.units.due, i < b.units.units.length := by
    intro i hi
    obtain ⟨u, hu, -⟩ := Scheduler.isPending_iff.mp ((h.isPending_iff i).mpr hi)
    exact (List.getElem?_eq_some_iff.mp hu).1
  constructor
  case trigger => exact h.trigger
  case timeout => exact h.timeout
  case tables =>
    rw [hcore]
    exact h.tables
  case awaits =>
    rw [hdue]
    refine List.rel_append (h.awaits.imp ?_) (.cons ?_ .nil)
    · rintro i x ⟨label, text', m', l', hu, hx⟩
      exact ⟨label, text', m', l', hold hu, hx⟩
    · refine ⟨.text b.nextName, text, m, l, ?_, hl, rfl⟩
      rw [hunits]
      exact List.getElem?_concat_length
  case nodup =>
    rw [hdue, List.nodup_append]
    refine ⟨h.nodup, by simp, ?_⟩
    rintro i hi k hk rfl
    exact absurd (hlt i hi) (by simp [List.mem_singleton.mp hk])
  case ended =>
    intro i u hu hi
    rw [hdue, List.mem_append, List.mem_singleton, not_or] at hi
    rw [hunits, List.getElem?_append] at hu
    split at hu
    · exact h.ended i u hu hi.1
    next hge =>
      -- Behind the other units there is only the new one, which is in line.
      rw [List.getElem?_singleton] at hu
      split at hu
      · exact absurd (by omega) hi.2
      · cases hu
  case tracked =>
    intro i hi
    rw [enrol_tracked]
    rcases List.mem_append.mp (hdue ▸ hi) with hi | hi
    · exact List.mem_append_left _ (h.tracked i hi)
    · exact List.mem_append_right _ hi

/-- **A line comes in**: nothing is written, and what the line is to be answered with is owed. -/
theorem receive (h : b₀.Pending owed b) (h₀ : b₀.AtConsole) (hw : b₀.Says line w) :
    ∃ more, b₀.Pending (owed ++ more) (b.receive (messageOf 0 line)).1 ∧
      (b.receive (messageOf 0 line)).1.promised (owed ++ more) = b.promised owed ++ w ∧
      more.length ≤ 1 ∧ ∀ x ∈ more, x.1 = 4 * line.length + 5 := by
  have hchain := chainText_congr h.trigger h.tables line
  have hself : b.isSelf consoleUser = false := by
    rw [isSelf, show b.core.transport = b₀.core.transport from congrArg (·.transport) h.tables]
    exact h₀.heard
  obtain ⟨henrol, hpass⟩ := receive_line line hself
  rcases h₀.ignored_or_answered line with hnone | ⟨text, l, ht, hl, -⟩
  · obtain rfl := hw.unique (.ignored hnone)
    obtain ⟨ls, hb⟩ := hpass (hchain.trans hnone)
    rw [hb]
    refine ⟨[], ?_, ?_, Nat.zero_le 1, List.forall_mem_nil _⟩
    · rw [List.append_nil]
      exact h.of_tables (Core.logAll_tables _ _ _)
    · rw [List.append_nil, String.append_empty]
      exact promised_congr (written_logAll _ _ _) owed
  · obtain rfl := hw.unique (.answered ht hl)
    rw [henrol text (hchain.trans ht)]
    have hlog := h.of_tables
      (s := b.core.log none (.chainTriggered consoleId consoleId text.length)) rfl
    refine ⟨[(_, written l)], hlog.enrol hl, ?_, Nat.le_refl 1, ?_⟩
    · obtain ⟨k, -, hcore⟩ := enrol_eq
        { b with core := b.core.log none (.chainTriggered consoleId consoleId text.length) } text
        (messageOf 0 line)
      rw [promised_append, promised, hcore, written_log, written_log]
      simp [promised]
    · intro x hx
      rw [List.mem_singleton.mp hx]

/-- The first unit in line is at work on its chain text, which comes to its end with what is
owed. -/
theorem head (h : b₀.Pending ((n, w) :: owed) b) :
    ∃ i due u j, b.units.due = i :: due ∧ b.Works i u j ∧
      b.core.Finishes b.units.isOpen j n b.core.tables (written b.core.journal ++ w) := by
  obtain ⟨i, due, ⟨label, text, m, l, hu, hl, rfl⟩, -, hdue⟩ :=
    List.forall₂_cons_right_iff.mp h.awaits
  refine ⟨i, due, _, _, hdue, ⟨hu, rfl, rfl, ?_⟩, ?_⟩
  · intro j c hj
    cases hj
    exact ⟨rfl, rfl⟩
  · rw [← h.tables] at hl
    exact hl.finishes b.units.isOpen i

/-- The first unit in line has come to its end. -/
theorem turned {i : Nat} {due : List Nat} {u : Task Job} {s : Core} {x : Nat × String}
    (h : b₀.Pending (x :: owed) b) (hdue : b.units.due = i :: due)
    (hu : b.units.units[i]? = some u) (hs : s.tables = b.core.tables) :
    b₀.Pending owed (b.turned i { u with stage := .done } due s) := by
  have hawaits := h.awaits
  have hnodup := h.nodup
  rw [hdue] at hawaits hnodup
  obtain ⟨hi, hnodup⟩ := List.nodup_cons.mp hnodup
  have hne : ∀ k ∈ due, i ≠ k := fun k hk hik => hi (hik ▸ hk)
  constructor
  case trigger => exact h.trigger
  case timeout => exact h.timeout
  case tables => exact hs.trans h.tables
  case awaits =>
    have hrest := (List.forall₂_and_left _ _).mpr ⟨hne, (List.forall₂_cons.mp hawaits).2⟩
    refine hrest.imp ?_
    rintro k y ⟨hik, label, text, m, l, hk, hy⟩
    refine ⟨label, text, m, l, ?_, hy⟩
    exact (List.getElem?_set_ne hik).trans hk
  case nodup => exact hnodup
  case ended =>
    intro k v hv hk
    replace hv : (b.units.units.set i { u with stage := .done })[k]? = some v := hv
    rw [List.getElem?_set] at hv
    split at hv
    next hik =>
      rw [if_pos (List.getElem?_eq_some_iff.mp hu).1] at hv
      rw [← Option.some.inj hv]
    next hik =>
      refine h.ended k v hv ?_
      rw [hdue, List.mem_cons, not_or]
      exact ⟨Ne.symm hik, hk⟩
  case tracked =>
    intro k hk
    exact h.tracked k (hdue ▸ List.mem_cons_of_mem i hk)

/-- **A turn**: the first unit in line comes to its end, and what was owed for it is written. -/
theorem settle_one (h : b₀.Pending ((n, w) :: owed) b) (hn : n ≤ turnLength) :
    b₀.Pending owed (b.settleIn 1) ∧
      (b.settleIn 1).promised owed = b.promised ((n, w) :: owed) := by
  obtain ⟨i, due, u, j, hdue, hu, hfinishes⟩ := h.head
  obtain ⟨s, hs, ht, hw⟩ := turn_of_finishes hu hfinishes hn due
  rw [b.settleIn_succ hdue, hs, promised_cons]
  exact ⟨h.turned hdue hu.unit ht, congrArg (· ++ String.join (owed.map Prod.snd)) hw⟩

/-- A unit that is alone in line comes to its end, if it has turns enough. -/
theorem settle_alone {turns : Nat} (h : b₀.Pending [(n, w)] b) (hn : n ≤ turns * turnLength) :
    b₀.Pending [] (b.settleIn turns) ∧
      written (b.settleIn turns).core.journal = written b.core.journal ++ w := by
  obtain ⟨i, due, u, j, hdue, hu, hfinishes⟩ := h.head
  obtain rfl : due = [] := by
    have hlength := h.awaits.length_eq
    rw [hdue] at hlength
    exact List.eq_nil_of_length_eq_zero (Nat.succ.inj hlength)
  obtain ⟨s, hs, ht, hw⟩ := settleIn_finishes hdue hu hfinishes hn
  rw [hs]
  exact ⟨h.turned hdue hu.unit ht, hw⟩

/-- **Turns**: as many units as there are turns come to their ends, and what was owed for them is
written. -/
theorem settle (h : b₀.Pending owed b) (hs : ∀ x ∈ owed, x.1 ≤ turnLength) (turns : Nat) :
    b₀.Pending (owed.drop turns) (b.settleIn turns) ∧
      (b.settleIn turns).promised (owed.drop turns) = b.promised owed := by
  induction turns generalizing b owed with
  | zero => exact ⟨h, rfl⟩
  | succ turns ih =>
    rcases owed with - | ⟨x, owed⟩
    · rw [b.settleIn_of_due_nil h.due_eq_nil]
      exact ⟨h, rfl⟩
    · obtain ⟨hone, hpromised⟩ := h.settle_one (hs x List.mem_cons_self)
      obtain ⟨hrest, hpromised'⟩ := ih hone fun y hy => hs y (List.mem_cons_of_mem _ hy)
      have hturns : b.settleIn (turns + 1) = (b.settleIn 1).settleIn turns := by
        rw [Nat.add_comm, settleIn_add]
      rw [hturns]
      exact ⟨hrest, hpromised'.trans hpromised⟩

/-- **The bot stops**: the units in line come to their ends, what was owed for them is written, and
no unit is cancelled. A time limit that is none is noticed only where units are tracked. -/
theorem stop {turns : Nat} (h : b₀.Pending owed b) (hs : ∀ x ∈ owed, x.1 ≤ turnLength)
    (hturns : owed.length ≤ turns)
    (hlimit : b.units.tracked = [] ∨ ∃ t, timeLimit b₀.timeout = .ok t) :
    (b.stopIn turns).2 = .ok () ∧ b₀.Pending [] (b.stopIn turns).1 ∧
      (∃ s : Core, (b.stopIn turns).1.core = s.log none (.botStopped 0)) ∧
      written (b.stopIn turns).1.core.journal = b.promised owed := by
  rcases htracked : b.units.tracked with - | ⟨i, is⟩
  · -- Where no unit is tracked none is in line.
    have hdue : b.units.due = [] := List.eq_nil_iff_forall_not_mem.mpr fun i hi => by
      have htr := h.tracked i hi
      rw [htracked] at htr
      cases htr
    obtain rfl : owed = [] := List.forall₂_nil_left_iff.mp (hdue ▸ h.awaits)
    rw [stopIn_of_idle htracked]
    exact ⟨rfl, h.of_tables rfl, ⟨_, rfl⟩, (written_log _ _ _).trans b.promised_nil.symm⟩
  · obtain ⟨limit, ht⟩ : ∃ t, timeLimit b.timeout = .ok t := by
      rw [h.timeout]
      exact hlimit.resolve_left (by simp [htracked])
    obtain ⟨hsettled, hpromised⟩ := h.settle hs turns
    rw [List.drop_eq_nil_of_le hturns] at hsettled hpromised
    rw [promised_nil] at hpromised
    rw [stopIn_of_ended (by simp [htracked]) ht hsettled.isPending_eq_false]
    exact ⟨rfl, hsettled.untrack.of_tables rfl, ⟨_, rfl⟩, (written_log _ _ _).trans hpromised⟩

end Pending

/-! ## Lines one after another -/

/-- Lines are read. After each, the units in line have so many turns before the next is read. -/
def readPaced (b : Bot) (lines : List (String × Nat)) : Bot :=
  lines.foldl (fun b x => (b.receive (messageOf 0 x.1)).1.settleWithin x.2) b

/-- **Lines at any pace**: what was written and what is owed are the replies to all lines, in
order. -/
theorem Pending.readPaced {owed : List (Nat × String)} {lines : List (String × Nat)}
    {ws : List String} (h : b₀.Pending owed b) (h₀ : b₀.AtConsole)
    (hs : ∀ x ∈ owed, x.1 ≤ turnLength) (hl : ∀ x ∈ lines, 4 * x.1.length + 5 ≤ turnLength)
    (hw : List.Forall₂ (fun x w => b₀.Says x.1 w) lines ws) :
    ∃ owed', b₀.Pending owed' (b.readPaced lines) ∧ (∀ x ∈ owed', x.1 ≤ turnLength) ∧
      owed'.length ≤ owed.length + lines.length ∧
      (b.readPaced lines).promised owed' = b.promised owed ++ String.join ws := by
  induction hw generalizing owed b with
  | nil => exact ⟨owed, h, hs, Nat.le_refl _, (String.append_empty).symm⟩
  | @cons x w lines ws hx hrest ih =>
    obtain ⟨more, hmore, hpromised, hlength, hshort⟩ := h.receive h₀ hx
    have hs' : ∀ y ∈ owed ++ more, y.1 ≤ turnLength := by
      intro y hy
      rcases List.mem_append.mp hy with hy | hy
      · exact hs y hy
      · rw [hshort y hy]
        exact hl x List.mem_cons_self
    obtain ⟨hsettled, hpromised'⟩ := hmore.settle hs' x.2
    obtain ⟨owed', hp, hs'', hle, heq⟩ := ih hsettled.untrack
      (fun y hy => hs' y (List.mem_of_mem_drop hy)) fun y hy => hl y (List.mem_cons_of_mem _ hy)
    refine ⟨owed', hp, hs'', ?_, heq.trans ?_⟩
    · rw [List.length_drop, List.length_append] at hle
      rw [List.length_cons]
      omega
    · rw [String.join_cons, ← String.append_assoc, ← hpromised, ← hpromised']
      rfl

/-- The bot has come from `b₀` and has answered every line; its journal begins anew. -/
structure AtRest (b₀ b : Bot) : Prop where
  pending : b₀.Pending [] b
  tracked : b.units.tracked = []
  journal : b.core.journal = []

/-- A line that is read at rest and given turns enough is answered. -/
theorem Pending.settle_read (h : b₀.Pending [] b) (h₀ : b₀.AtConsole) (hw : b₀.Says line w) :
    b₀.Pending [] ((b.receive (messageOf 0 line)).1.settleIn (line.length + 1)) ∧
      written ((b.receive (messageOf 0 line)).1.settleIn (line.length + 1)).core.journal =
        written b.core.journal ++ w := by
  obtain ⟨more, hmore, hpromised, hlength, hn⟩ := h.receive h₀ hw
  rw [List.nil_append, promised_nil] at hpromised
  rw [← hpromised]
  rcases more with - | ⟨⟨n, w'⟩, - | ⟨y, more⟩⟩
  · rw [settleIn_of_due_nil _ hmore.due_eq_nil]
    exact ⟨hmore, (promised_nil _).symm⟩
  · have hturns : n ≤ (line.length + 1) * turnLength := by
      have hfour : n = 4 * line.length + 5 := hn _ List.mem_cons_self
      rw [show turnLength = 100000 from rfl]
      omega
    obtain ⟨hsettled, hwritten⟩ := hmore.settle_alone hturns
    refine ⟨hsettled, hwritten.trans ?_⟩
    rw [promised_cons]
    exact String.append_empty.symm
  · cases Nat.not_succ_le_zero _ (Nat.le_of_succ_le_succ hlength)

/-- **A line that is read at rest** is answered at once, and the bot is at rest again. -/
theorem AtRest.answerLine (h : b₀.AtRest b) (h₀ : b₀.AtConsole) (hw : b₀.Says line w) :
    (answerLine b line).2 = w ∧ b₀.AtRest (answerLine b line).1 := by
  obtain ⟨hsettled, hwritten⟩ := h.pending.settle_read h₀ hw
  rw [h.journal] at hwritten
  exact ⟨hwritten.trans String.empty_append,
    hsettled.untrack.of_tables rfl, hsettled.untrack_tracked, rfl⟩

/-- The bot after lines that it has answered one by one. -/
def afterLines (b : Bot) (lines : List String) : Bot :=
  lines.foldl (fun b line => (ChatCommands.answerLine b line).1) b

theorem AtRest.afterLines {lines : List String} {ws : List String} (h : b₀.AtRest b)
    (h₀ : b₀.AtConsole) (hw : List.Forall₂ b₀.Says lines ws) : b₀.AtRest (b.afterLines lines) := by
  induction hw generalizing b with
  | nil => exact h
  | cons hx hrest ih => exact ih (h.answerLine h₀ hx).2

/-- At rest there is nothing that a bot which stops could cancel or write. -/
theorem AtRest.stop (h : b₀.AtRest b) :
    b.stop = ({ b with core := b.core.log none (.botStopped 0) }, .ok ()) := by
  rw [stop_eq_stopIn, stopIn_of_idle h.tracked]

/-- **What is written for lines** is what is to be written for each of them, in order. -/
theorem AtRest.transcript {lines : List String} {ws : List String} (h : b₀.AtRest b)
    (h₀ : b₀.AtConsole) (hw : List.Forall₂ b₀.Says lines ws) :
    transcript b lines = String.join ws := by
  induction hw generalizing b with
  | nil =>
    rw [ChatCommands.transcript, h.stop, written_log, h.journal]
    rfl
  | @cons line w lines ws hx hrest ih =>
    obtain ⟨htext, hrest'⟩ := h.answerLine h₀ hx
    rw [String.join_cons, ← ih hrest', ← htext]
    rfl

end Bot

end ChatCommands
