import ChatCommands.Proofs.Bot.Shutdown
import Mathlib.Data.List.Induction
import Mathlib.Data.List.Nodup

/-!
# The units of a session

Every message that triggers a bot makes one unit of it, and nothing else does. A unit is in flight
from then on, until it has ended in whatever way and that has been settled. The account of a session
is kept twice here: by its operations, which say how many units there are and for what, and by the
single steps that the operations come down to, which say when a unit comes to be tracked and when it
is dropped.

## Main definitions

* `unitName`: the names of units, in order
* `Bot.Ledger`: steps, with the units that came to be tracked and those that were dropped
* `Bot.Serves`: operations, with the messages that triggered the bot
* `Bot.Accounts`: what is found of a bot after a session

## Main results

* `Bot.Reached.labels`: units are named in the order in which they were spawned
* `Bot.Ledger.booked`: a unit comes once and is dropped once, whatever happens
* `units_accounted`: what is found of every bot after every session
-/

namespace ChatCommands

open Relation (ReflTransGen)

/-- The name of the unit of a number. -/
def unitName (i : Nat) : String := "ct-" ++ toString (i + 1)

theorem unitName_injective : Function.Injective unitName := by
  intro i k h
  have hrepr : (i + 1).repr = (k + 1).repr := (String.append_right_inj _).mp h
  have hdigits := congrArg (fun s => Nat.ofDigitChars 10 s.toList 0) hrepr
  rw [Nat.toList_repr, Nat.toList_repr, Nat.ofDigitChars_ten_toDigits,
    Nat.ofDigitChars_ten_toDigits] at hdigits
  exact Nat.succ.inj hdigits

/-- A unit keeps its name in its turn. -/
theorem Task.Turns.label {opened : Setting → Bool} {i : Nat} {s s' : Core} {u u' : Task Job}
    (h : Turns opened i s u s' u') : u'.label = u.label := by
  cases h <;> rfl

/-- Units that have ended alike have the same word for their states. -/
theorem Stage.name_eq_of_ended {g g' : Stage Job} (h : g.isPending = false)
    (h' : g'.isPending = false) (hs : g'.standing.2 = g.standing.2) : g'.name = g.name := by
  rcases g with j | a | - | x
  · cases h
  · cases h
  · rcases g' with j' | a' | - | x'
    · cases h'
    · cases h'
    · rfl
    · cases hs
  · rcases g' with j' | a' | - | x'
    · cases h'
    · cases h'
    · cases hs
    · rfl

/-! ## The messages of units -/

namespace Scene

variable {p : Prefix} {w w' : Scene}

/-- What is left of a unit is for the message that it answers. -/
def Answers (w : Scene) : Prop :=
  ∀ i j, w.job (.unit i) = some j → w.messages[i]? = some j.event.message

theorem messages_put (w : Scene) (q : Place) (x : Core × Option Job) :
    (w.put q x).messages = w.messages := by
  cases q with
  | unit i => exact (w.alongside_put i x).messages
  | hand k => rfl

theorem Move.answers (h : Move p w w') (hw : w.Answers) : w'.Answers := by
  intro i j hj
  cases h with
  | work q k opened hk =>
    rw [messages_put]
    by_cases hq : .unit i = q
    · subst hq
      rw [job_put_self hk] at hj
      rw [hw i k hk, Core.work_message hj]
    · rw [job_put_of_ne hq] at hj
      exact hw i j hj
  | arrive m text ht =>
    have hmessages : (w.arrive m text).messages = w.messages ++ [m] := by
      simp [messages, Scene.arrive]
    rw [hmessages]
    rcases job_arrive hj with ⟨hi, rfl⟩ | hj
    · obtain rfl := Place.unit.inj hi
      have hlength : w.messages.length = w.units.length := List.length_map _
      rw [← hlength]
      exact List.getElem?_concat_length
    · obtain ⟨hi, hm⟩ := List.getElem?_eq_some_iff.mp (hw i j hj)
      rw [List.getElem?_append_left hi, List.getElem?_eq_getElem hi, hm]
  | cancel k j₀ behind hk hb =>
    rw [(w.alongside_cancel k behind).messages]
    rcases job_cancel hj with ⟨hi, rfl⟩ | hj
    · obtain rfl := Place.unit.inj hi
      rcases hb with hb | hb
      · cases hb
      · -- What runs on of a job is for the same event.
        obtain ⟨r, rfl, rfl⟩ := Job.behind_eq hb.symm
        exact hw i (.run r) hk
    · exact hw i j hj
  | begin e program he =>
    rcases job_begin hj with ⟨hi, -⟩ | hj
    · cases hi
    · exact hw i j hj
  | report s hr ht => exact hw i j hj

theorem answers_of_moves (h : ReflTransGen (Move p) w w') (hw : w.Answers) : w'.Answers := by
  induction h with
  | refl => exact hw
  | tail _ hm ih => exact hm.answers ih

end Scene

namespace Bot

variable {b₀ b b' : Bot} {i : Nat} {u : Task Job} {m : Message} {ms l : List Message}

/-! ## The names of units -/

/-- A new unit is named for the number of units that were spawned. -/
theorem enrol_units (b : Bot) (text : String) (m : Message) :
    (b.enrol text m).units.units = b.units.units ++
      [⟨unitName b.units.counter, .fresh (.chain text
        { unit := some b.units.units.length, message := m }), false⟩] := rfl

/-- What a step changes of the names of units: there may be a new one. -/
theorem Step.labels (hb : b.Owned) (h : b.Step b') :
    b'.units.units.map Task.label = b.units.units.map Task.label ∨
      ∃ text m, b' = b.enrol text m := by
  cases h.books hb with
  | same hl _ =>
    -- As there are as many units as before, none of them is new.
    left
    apply List.ext_getElem?
    intro i
    rw [List.getElem?_map, List.getElem?_map]
    rcases hu : b'.units.units[i]? with - | u'
    · rw [List.getElem?_eq_none_iff, hl, ← List.getElem?_eq_none_iff] at hu
      rw [hu]
    · cases h.life hb hu with
      | rests hv hm => rw [hv, Option.map_some, Option.map_some, hm.label]
      | turns hv ht => rw [hv, Option.map_some, Option.map_some, ht.label]
      | begins hi =>
        have hlt := (List.getElem?_eq_some_iff.mp hu).1
        omega
  | enrols h => exact .inr ⟨_, _, h⟩
  | untracks h =>
    subst h
    exact .inl rfl

/-- **Units are named in the order** in which they were spawned. -/
theorem Reached.labels (h : b.Reached) :
    b.units.units.map Task.label =
      (List.range b.units.units.length).map fun i => (unitName i : Setting) := by
  obtain ⟨b₀, h₀, hsteps⟩ := h
  induction hsteps with
  | refl =>
    rw [h₀.units]
    rfl
  | @tail b b' hs hstep ih =>
    have hreached : b.Reached := ⟨b₀, h₀, hs⟩
    obtain hlabels | ⟨text, m, rfl⟩ := hstep.labels hreached.owned
    · have hlength := congrArg List.length hlabels
      rw [List.length_map, List.length_map] at hlength
      rw [hlabels, hlength]
      exact ih
    · -- The counter that gives the name has counted all units so far.
      rw [b.enrol_units, List.map_append, ih, List.length_append, List.length_singleton,
        List.range_succ, List.map_append, hreached.tracks.counter]
      rfl

theorem Reached.names (h : b.Reached) :
    b.units.units.map Task.name = (List.range b.units.units.length).map unitName := by
  have hnames := congrArg (List.map Setting.shown) h.labels
  rw [List.map_map, List.map_map] at hnames
  exact hnames

/-! ## Units that come to be tracked and are dropped -/

/-- The units that are tracked at the second bot and are not at the first. -/
def entered (b b' : Bot) : List Nat := b'.units.tracked.filter (· ∉ b.units.tracked)

theorem mem_entered : i ∈ b.entered b' ↔ i ∈ b'.units.tracked ∧ i ∉ b.units.tracked := by
  rw [entered, List.mem_filter, decide_eq_true_iff]

theorem entered_eq_nil (h : b'.units.tracked ⊆ b.units.tracked) : b.entered b' = [] := by
  refine List.filter_eq_nil_iff.mpr ?_
  intro i hi hn
  exact of_decide_eq_true hn (h hi)

/-- Steps one after another, with the units that came to be tracked and those that were dropped. -/
inductive Ledger (b₀ : Bot) : List Nat → List Nat → Bot → Prop where
  | start : Ledger b₀ [] [] b₀
  | step {came left : List Nat} {b b' : Bot} (h : Ledger b₀ came left b) (hs : b.Step b') :
    Ledger b₀ (came ++ b.entered b') (left ++ b'.entered b) b'

variable {came left : List Nat}

/-- Whatever happens can be put down. -/
theorem exists_ledger (h : ReflTransGen Step b₀ b) : ∃ came left, b₀.Ledger came left b := by
  induction h with
  | refl => exact ⟨_, _, .start⟩
  | tail _ hs ih =>
    obtain ⟨_, _, h⟩ := ih
    exact ⟨_, _, h.step hs⟩

theorem Ledger.reached (h₀ : b₀.Unused) (h : b₀.Ledger came left b) : b.Reached := by
  induction h with
  | start => exact ⟨_, h₀, .refl⟩
  | step _ hs ih => exact ih.steps (.single hs)

/-- Every unit has come to be tracked once, in order, and those have been dropped once that are not
tracked any more. -/
structure Booked (came left : List Nat) (b : Bot) : Prop where
  came : came = List.range b.units.units.length
  nodup : left.Nodup
  mem_left : ∀ i, i ∈ left ↔ i < b.units.units.length ∧ i ∉ b.units.tracked

/-- Where no unit comes, those that are not tracked any more are dropped. -/
theorem Booked.drops (h : b.Booked came left) (hb : b.Tracks)
    (hl : b'.units.units.length = b.units.units.length)
    (hsub : b'.units.tracked ⊆ b.units.tracked) :
    b'.Booked (came ++ b.entered b') (left ++ b'.entered b) := by
  constructor
  · rw [entered_eq_nil hsub, List.append_nil, hl]
    exact h.came
  · rw [List.nodup_append]
    refine ⟨h.nodup, hb.nodup.filter _, ?_⟩
    -- A unit that is dropped now was tracked, so it has not been dropped before.
    rintro i hi k hk rfl
    exact ((h.mem_left i).mp hi).2 (mem_entered.mp hk).1
  · intro i
    rw [List.mem_append, h.mem_left, mem_entered, hl]
    constructor
    · rintro (⟨hlt, hn⟩ | ⟨hi, hn⟩)
      · exact ⟨hlt, fun hi => hn (hsub hi)⟩
      · exact ⟨hb.lt_length hi, hn⟩
    · rintro ⟨hlt, hn⟩
      by_cases hi : i ∈ b.units.tracked
      · exact .inr ⟨hi, hn⟩
      · exact .inl ⟨hlt, hi⟩

/-- A unit that is new comes to be tracked, and none is dropped. -/
theorem Booked.enrols (h : b.Booked came left) (hb : b.Tracks) (text : String) (m : Message) :
    (b.enrol text m).Booked (came ++ b.entered (b.enrol text m))
      (left ++ (b.enrol text m).entered b) := by
  have hnew : b.units.units.length ∉ b.units.tracked := fun hi => Nat.lt_irrefl _ (hb.lt_length hi)
  have hcomes : b.entered (b.enrol text m) = [b.units.units.length] := by
    have hold : b.units.tracked.filter (· ∉ b.units.tracked) = [] := entered_eq_nil fun _ hi => hi
    rw [entered, enrol_tracked, List.filter_append, hold, List.nil_append, List.filter_singleton,
      decide_eq_true hnew, cond_true]
  have hgoes : (b.enrol text m).entered b = [] := by
    refine entered_eq_nil ?_
    rw [enrol_tracked]
    exact List.subset_append_left _ _
  rw [hcomes, hgoes, List.append_nil]
  constructor
  · rw [length_enrol, List.range_succ, h.came]
  · exact h.nodup
  · intro i
    rw [h.mem_left, length_enrol, enrol_tracked, List.mem_append, List.mem_singleton]
    constructor
    · rintro ⟨hlt, hn⟩
      refine ⟨by omega, ?_⟩
      rintro (hi | rfl)
      · exact hn hi
      · omega
    · rintro ⟨hlt, hn⟩
      have hne : i ≠ b.units.units.length := fun hi => hn (.inr hi)
      exact ⟨by omega, fun hi => hn (.inl hi)⟩

/-- **Every unit comes once and is dropped once**, whatever happens. -/
theorem Ledger.booked (h₀ : b₀.Unused) (h : b₀.Ledger came left b) : b.Booked came left := by
  induction h with
  | start =>
    refine ⟨?_, .nil, ?_⟩
    · rw [h₀.units]
      rfl
    · intro i
      simp [h₀.units]
  | step h hs ih =>
    have hb := h.reached h₀
    cases hs.books hb.owned with
    | same hl hc => exact ih.drops hb.tracks hl (hc.tracked ▸ List.Subset.refl _)
    | enrols heq =>
      subst heq
      exact ih.enrols hb.tracks _ _
    | untracks heq =>
      subst heq
      exact ih.drops hb.tracks rfl (List.filter_subset_self _)

/-- What has come and has not gone is in flight. -/
theorem Booked.balance (h : b.Booked came left) (hb : b.Tracks) :
    b.units.inFlight + left.length = b.units.units.length := by
  -- Those that are tracked and those that are not any more are all units, each once.
  have hperm : (b.units.tracked ++ left).Perm (List.range b.units.units.length) := by
    refine (List.perm_ext_iff_of_nodup ?_ List.nodup_range).mpr ?_
    · rw [List.nodup_append]
      refine ⟨hb.nodup, h.nodup, ?_⟩
      rintro i hi k hk rfl
      exact ((h.mem_left i).mp hk).2 hi
    · intro i
      rw [List.mem_append, h.mem_left, List.mem_range]
      constructor
      · rintro (hi | ⟨hlt, -⟩)
        · exact hb.lt_length hi
        · exact hlt
      · intro hlt
        by_cases hi : i ∈ b.units.tracked
        · exact .inl hi
        · exact .inr ⟨hlt, hi⟩
  have hlength := hperm.length_eq
  rwa [List.length_append, List.length_range] at hlength

end Bot

/-! ## Units that have been settled -/

/-- Elements are counted by their places. -/
theorem countP_range {α : Type} (p : α → Bool) (l : List α) :
    (List.range l.length).countP (fun i => l[i]?.any p) = l.countP p := by
  induction l using List.reverseRecOn with
  | nil => rfl
  | append_singleton l a ih =>
    rw [List.length_append, List.length_singleton, List.range_succ, List.countP_append,
      List.countP_append, ← ih]
    congr 1
    · refine List.countP_congr ?_
      intro i hi
      rw [List.getElem?_append_left (List.mem_range.mp hi)]
    · rw [List.countP_singleton, List.countP_singleton, List.getElem?_concat_length]
      rfl

namespace Scheduler

variable {c : Scheduler Job} {s : Core}

theorem length_pending (c : Scheduler Job) :
    c.pending.length = c.units.countP fun u => u.stage.isPending := by
  have hpending : c.isPending = fun i => c.units[i]?.any fun u => u.stage.isPending := by
    funext i
    unfold isPending
    rcases c.units[i]? with - | u
    · rfl
    · rfl
  rw [pending, ← List.countP_eq_length_filter, hpending, countP_range]

/-- If those that have ended were dropped before some are cancelled, then they are so afterwards. -/
theorem cancelLeft_untrack (hc : c.untrack = c) (turns : Nat) (watched : List Nat) :
    (cancelLeft botHost turns s c watched).2.1.untrack =
      (cancelLeft botHost turns s c watched).2.1 := by
  unfold cancelLeft
  split
  · exact hc
  · exact untrack_untrack _

/-- The end of the work drops all units that have ended. -/
theorem drain_untrack (c : Scheduler Job) (s : Core) (turns : Nat) (timeout : Setting) {n : Nat}
    (h : (drain botHost turns s c timeout).2.2 = .ok n) :
    (drain botHost turns s c timeout).2.1.untrack = (drain botHost turns s c timeout).2.1 := by
  rcases htracked : c.tracked with - | ⟨i, is⟩
  · -- Where no unit is tracked nothing is done.
    have hnone : c.tracked.filter c.isPending = c.tracked := by
      rw [htracked]
      rfl
    simp only [drain, htracked]
    exact congrArg (fun l => { c with tracked := l }) hnone
  · rcases hlimit : timeLimit timeout with f | limit
    · simp only [drain, htracked, hlimit] at h
      cases h
    · simp only [drain, htracked, hlimit]
      split
      · exact cancelLeft_untrack (untrack_untrack _) turns _
      · exact untrack_untrack _

end Scheduler

namespace Bot

variable {b₀ b b' : Bot} {i : Nat} {u : Task Job} {m : Message} {ms l : List Message}

/-- **Where units that have ended have been dropped**, those in flight are those that have not
ended. -/
theorem Reached.inFlight_eq (hb : b.Reached) (h : b.untrack = b) :
    b.units.inFlight = b.units.units.countP fun u => u.stage.isPending := by
  rw [← Scheduler.length_pending, ← hb.tracks.untrack_eq, h]
  rfl

theorem settle_untrack (b : Bot) : b.settle.untrack = b.settle := by
  rw [settle_eq_settleIn, untrack_untrack]

theorem stop_untrack (h : b.stop.2 = .ok ()) : b.stop.1.untrack = b.stop.1 := by
  have hdrain {n : Nat} := @b.units.drain_untrack b.core turnLimit b.timeout n
  unfold stop at h ⊢
  generalize b.units.drain botHost turnLimit b.core b.timeout = q at h hdrain ⊢
  rcases q with ⟨s, c, f | n⟩
  · cases h
  · exact congrArg (fun c => { b with core := s.log none (.botStopped n), units := c }) (hdrain rfl)

/-! ## Messages that come in -/

/-- A message that triggers the bot makes a unit, whose name is told. -/
theorem receive_of_triggers {text : String} (h : Scene.Triggers b.trigger b.core m text) :
    ∃ s, b.receive m =
      (({ b with core := s } : Bot).enrol text m, .ok (some (unitName b.units.counter))) := by
  obtain ⟨⟨u, hu, hself⟩, t, ht, htext⟩ := h
  have hheard : (b.isSelf u && !b.core.attributes.parseSelf) = false := Bool.eq_false_iff.mpr hself
  simp only [receive, hu, hheard, chainText, ht, htext]
  refine ⟨(b.core.logAll none t.events).log none (.chainTriggered u.id m.channel text.length), ?_⟩
  rw [if_neg Bool.false_ne_true]
  rfl

/-- A message that does not trigger the bot makes none. -/
theorem receive_of_not_triggers (h : ∀ text, ¬ Scene.Triggers b.trigger b.core m text) :
    (b.receive m).1.units = b.units ∧ ∀ name, (b.receive m).2 ≠ .ok (some name) := by
  have hno {r : Except Fault (Option String)} (hr : r.toOption.join = none) :
      ∀ name, r ≠ .ok (some name) := by
    rintro name rfl
    cases hr
  rw [receive]
  split
  · exact ⟨rfl, hno rfl⟩
  next u hu =>
    split
    · exact ⟨rfl, hno rfl⟩
    next hself =>
      rcases htr : ChatCommands.trigger b.trigger b.core.attributes m.content with f | t
      · simp only [chainText, htr, true_and]
        exact hno rfl
      · rcases hc : t.chain with - | text
        · simp only [chainText, htr, hc, true_and]
          exact hno rfl
        · exact (h text ⟨⟨u, hu, hself⟩, t, htr, hc⟩).elim

/-- Operations one after another, with the messages that triggered the bot: whatever goes on at it,
and administration. -/
inductive Serves (b₀ : Bot) : List Message → Bot → Prop where
  | start : Serves b₀ [] b₀
  | goes {ms l : List Message} {b b' : Bot} (h : Serves b₀ ms b) (hg : b.Goes l b') :
    Serves b₀ (ms ++ l) b'
  | manages {ms : List Message} {b b' : Bot} (h : Serves b₀ ms b) (hm : b.Manages b') :
    Serves b₀ ms b'

/-- Operations are steps. -/
theorem Serves.steps (h : b₀.Serves ms b) : ReflTransGen Step b₀ b := by
  induction h with
  | start => exact .refl
  | goes _ hg ih => exact ih.trans (steps_of_ticks (goes_ticks hg))
  | manages _ hm ih => exact ih.tail (.manage hm)

/-- **There is one unit for each message** that triggered the bot, in order, and what is left of it
is for that message. -/
theorem Serves.shown (h₀ : b₀.Unused) (h : b₀.Serves ms b) :
    ∃ w, b.Shows w ∧ w.messages = ms ∧ w.Answers := by
  induction h with
  | start =>
    refine ⟨⟨b₀.core, [], []⟩, ⟨rfl, ?_⟩, rfl, nofun⟩
    rw [Scheduler.standings, h₀.units]
    rfl
  | goes _ hg ih =>
    obtain ⟨w, hw, rfl, ha⟩ := ih
    obtain ⟨w', hmoves, hw', hm⟩ := (goes_moves hg).2 hw
    exact ⟨w', hw', hm, Scene.answers_of_moves hmoves ha⟩
  | @manages ms b b' _ hm ih =>
    -- Administration has to do with the core alone, which a scene shows beside its units.
    obtain ⟨w, hw, rfl, ha⟩ := ih
    refine ⟨{ w with core := b'.core }, ⟨rfl, ?_⟩, rfl, ha⟩
    rw [hm.tells.1]
    exact hw.standings

theorem Serves.length_eq (h₀ : b₀.Unused) (h : b₀.Serves ms b) :
    b.units.units.length = ms.length := by
  obtain ⟨w, hw, rfl, -⟩ := h.shown h₀
  have hs := congrArg List.length hw.standings
  rw [Scene.standings, Scheduler.standings, List.length_map, List.length_map] at hs
  rw [Scene.messages, List.length_map, hs]

/-- What is left of a unit is for the message in its place. -/
theorem Serves.message (h₀ : b₀.Unused) (h : b₀.Serves ms b) {j : Job} {c : Bool}
    (hu : b.units.units[i]? = some u) (hj : u.stage.standing = (some j, c)) :
    ms[i]? = some j.event.message := by
  obtain ⟨w, hw, rfl, ha⟩ := h.shown h₀
  refine ha i j (Scene.job_of_standings (b := c) ?_)
  rw [hw.standings, ← hj]
  exact Scheduler.standings_of_units hu

/-- What is found of a bot after a session that began at `b₀` and in which these messages triggered
the bot. -/
structure Accounts (b₀ : Bot) (ms : List Message) (b : Bot) : Prop where
  /-- There is one unit for each message that triggered the bot, and they are numbered in order. -/
  names : b.units.units.map Task.name = (List.range ms.length).map unitName
  distinct : (b.units.units.map Task.name).Nodup
  /-- What is left of a unit is for its message. -/
  works : ∀ (i : Nat) (u : Task Job) (j : Job) (c : Bool), b.units.units[i]? = some u →
    u.stage.standing = (some j, c) → ms[i]? = some j.event.message
  /-- The next message that triggers the bot makes one unit, under the next name, which is in flight
  at once. -/
  triggered : ∀ m text, Scene.Triggers b.trigger b.core m text →
    b.accepted m = [m] ∧ (b.receive m).2 = .ok (some (unitName ms.length)) ∧
      (b.receive m).1.units.units = b.units.units ++ [⟨unitName ms.length,
        .fresh (.chain text { unit := some ms.length, message := m }), false⟩] ∧
      (b.receive m).1.units.inFlight = b.units.inFlight + 1
  /-- A message that does not trigger it makes none. -/
  ignored : ∀ m, (∀ text, ¬ Scene.Triggers b.trigger b.core m text) →
    b.accepted m = [] ∧ (b.receive m).1.units = b.units ∧
      ∀ name, (b.receive m).2 ≠ .ok (some name)
  /-- Among the steps that the session came down to each unit was counted once, from the step on in
  which it was spawned, and each that is not in flight any more was taken off once, when it had
  ended. -/
  booked : ∃ came left, b₀.Ledger came left b
  counted : ∀ came left, b₀.Ledger came left b → came = List.range ms.length ∧ left.Nodup ∧
    (∀ i, i ∈ left ↔ i < ms.length ∧ i ∉ b.units.tracked) ∧
    (∀ i ∈ left, b.units.isPending i = false) ∧ b.units.inFlight + left.length = ms.length
  /-- Once units that have ended are settled, those in flight are those neither done nor cancelled:
  where the bot stands, when its units have run on as far as they can, and when it has stopped. -/
  settled : b.untrack.units.inFlight = b.units.units.countP fun u => u.stage.isPending
  ran : b.settle.units.inFlight = b.settle.units.units.countP fun u => u.stage.isPending
  stopped : b.stop.2 = .ok () →
    b.stop.1.units.inFlight = b.stop.1.units.units.countP fun u => u.stage.isPending
  /-- A unit that is done or cancelled stays so, whatever happens. -/
  final : ∀ (b' : Bot) (i : Nat) (u : Task Job), ReflTransGen Step b b' →
    b.units.units[i]? = some u → u.stage.isPending = false →
      ∃ u', b'.units.units[i]? = some u' ∧ u'.stage.isPending = false ∧
        u'.stage.name = u.stage.name

end Bot

/-- **Units are accounted for**, after every session. -/
theorem units_accounted {b₀ b : Bot} {ms : List Message} (h₀ : b₀.Unused) (h : b₀.Serves ms b) :
    b₀.Accounts ms b := by
  have hb : b.Reached := ⟨b₀, h₀, h.steps⟩
  have hlength := h.length_eq h₀
  have hnames := hb.names
  rw [hlength] at hnames
  constructor
  case names => exact hnames
  case distinct =>
    rw [hnames]
    exact List.Nodup.map unitName_injective List.nodup_range
  case works => exact fun _ _ _ _ => h.message h₀
  case triggered =>
    intro m text ht
    obtain ⟨s, hreceive⟩ := Bot.receive_of_triggers ht
    rw [hb.tracks.counter, hlength] at hreceive
    have hunits := ({ b with core := s } : Bot).enrol_units text m
    rw [show ({ b with core := s } : Bot).units = b.units from rfl, hb.tracks.counter,
      hlength] at hunits
    have hflight : (({ b with core := s } : Bot).enrol text m).units.inFlight =
        b.units.inFlight + 1 := by
      rw [Scheduler.inFlight, Bot.enrol_tracked, List.length_append, List.length_singleton]
      rfl
    rw [Bot.accepted, hreceive]
    exact ⟨rfl, rfl, hunits, hflight⟩
  case ignored =>
    intro m hm
    obtain ⟨hunits, hname⟩ := Bot.receive_of_not_triggers hm
    refine ⟨?_, hunits, hname⟩
    rw [Bot.accepted]
    split
    next heq => exact (hname _ heq).elim
    · rfl
  case booked => exact Bot.exists_ledger h.steps
  case counted =>
    intro came left hledger
    have hbooked := hledger.booked h₀
    rw [← hlength]
    refine ⟨hbooked.came, hbooked.nodup, hbooked.mem_left, ?_, hbooked.balance hb.tracks⟩
    intro i hi
    rw [Bool.eq_false_iff]
    intro hp
    exact ((hbooked.mem_left i).mp hi).2 (hb.tracks.pending i hp)
  case settled => exact (hb.ticks (.single .untrack)).inFlight_eq b.untrack_untrack
  case ran => exact (hb.ticks b.ticks_settleAll).inFlight_eq b.settle_untrack
  case stopped =>
    intro hok
    exact (hb.ticks b.ticks_stop).inFlight_eq (Bot.stop_untrack hok)
  case final =>
    intro b' i u hs hu hp
    obtain ⟨u', hu', hp', hstanding⟩ := Bot.steps_ended hb.owned hs hu hp
    exact ⟨u', hu', hp', Stage.name_eq_of_ended hp hp' hstanding⟩

/-- A bot that was just built is given two commands. Three messages come in a burst: one unit waits
at a gate, one fails and one is cancelled before it begins, and a message among them does not
trigger the bot. Then the unit that waits is cancelled, and another comes to wait there. -/
theorem units_accounted_burst :
    ∃ (b₀ b : Bot) (ms : List Message), b₀.Unused ∧ b₀.Serves ms b ∧ b₀.Accounts ms b ∧
      ms.length = 4 ∧ b.units.inFlight = 1 ∧
      b.units.overview = [("ct-1", "cancelled"), ("ct-2", "done"), ("ct-3", "cancelled"),
        ("ct-4", "pending")] ∧
      b.stop.2 = .ok () ∧ b.stop.1.units.inFlight = 0 := by
  let b₀ : Bot := .build (.fixed .null [] [] []) (.literal "!") {} (.scalar (.int 1))
  let waits : Handler := fun _ _ => do
    Program.waitAt "g"
    return .text "x"
  let fails : Handler := fun _ _ => Program.fail (.wrongType "y")
  let m (text : String) : Message := ⟨text, some ⟨"u", "", []⟩, "c", none, .null⟩
  have h₀ : b₀.Unused := Bot.unused_build _ _ _ _
  let b₁ : Bot := ((b₀.register "w" [] .inline waits).1.register "f" [] .inline fails).1
  let b₂ : Bot := (((b₁.receive (m "!w")).1.receive (m "!f")).1.receive (m "hi")).1
  let b₃ : Bot := ((b₂.receive (m "!w")).1.cancel 2).1.settle
  let b : Bot := ((b₃.cancel 0).1.settle.receive (m "!w")).1.settle
  have h₁ : b₀.Serves _ b₁ :=
    (Bot.Serves.start.manages (.register "w" [] .inline waits)).manages
      (.register "f" [] .inline fails)
  have h₂ : b₀.Serves _ b₂ :=
    ((h₁.goes (.receive (m "!w"))).goes (.receive (m "!f"))).goes (.receive (m "hi"))
  have h₃ : b₀.Serves _ b₃ := ((h₂.goes (.receive (m "!w"))).goes (.cancel 2)).goes .settle
  have h : b₀.Serves _ b :=
    (((h₃.goes (.cancel 0)).goes .settle).goes (.receive (m "!w"))).goes .settle
  have haccounts := units_accounted h₀ h
  have hstop : b.stop.2 = .ok () := by
    have hok : b.stop.2.isOk = true := by decide +kernel
    rcases hresult : b.stop.2 with f | -
    · rw [hresult] at hok
      cases hok
    · rfl
  have hnone : (b.stop.1.units.units.countP fun u => u.stage.isPending) = 0 := by decide +kernel
  exact ⟨b₀, b, _, h₀, h, haccounts, by decide +kernel, by decide +kernel, by decide +kernel, hstop,
    (haccounts.stopped hstop).trans hnone⟩

end ChatCommands
