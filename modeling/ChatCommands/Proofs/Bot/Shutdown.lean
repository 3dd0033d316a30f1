import ChatCommands.Proofs.Bot.Lines
import ChatCommands.Proofs.Bot.Settling
import ChatCommands.Proofs.Bot.Tracking

/-!
# Shutdown

A bot that stops lets its units run on as far as they can. If its time is limited, those that have
not ended then are cancelled, and how many that were is reported. Once the line is empty these are
the units that wait at closed gates and no others; all units else that nobody had asked to be
cancelled have come to their own ends before.

## Main definitions

* `Bot.stopIn`: stopping with so many turns for the units
* `Bot.cancelIn`: cancelling units with so many turns for them
* `Bot.Halts`: what is found of a bot that has stopped

## Main results

* `Scheduler.cancelAll_waiting`: units that wait stand in line once their cancellation is asked for
* `Bot.cancelIn_blocked`: units that wait are cancelled, and nothing comes of the others
* `stop_cancels_blocked`: stopping ends all units, and cancels those that wait
-/

namespace ChatCommands

open Relation (ReflTransGen)

/-! ## Cancelling the units that are left -/

namespace Scheduler

variable {c : Scheduler Job}

/-- A unit that waits at a gate stands in line behind all others once its cancellation is asked
for. -/
theorem cancel_waiting {k : Nat} {u : Task Job} (hu : c.units[k]? = some u)
    (hp : u.stage.isPending = true) (hw : k ∈ c.waiting) :
    (c.cancel k).1 = { c with
      units := c.units.set k { u with cancelling := true }
      waiting := c.waiting.filter (· ≠ k)
      due := c.due ++ [k] } := by
  unfold cancel
  rw [hu]
  simp only [hp, if_true]
  rw [if_pos hw]

/-- Units that wait at gates stand in line, in order, once their cancellation is asked for. -/
theorem cancelAll_waiting {is : List Nat} (hn : is.Nodup)
    (h : ∀ i ∈ is, i ∈ c.waiting ∧ ∃ u, c.units[i]? = some u ∧ u.stage.isPending = true) :
    (c.cancelAll is).due = c.due ++ is ∧
      (∀ i u, i ∈ is → c.units[i]? = some u →
        (c.cancelAll is).units[i]? = some { u with cancelling := true }) ∧
      ∀ i, i ∉ is → (c.cancelAll is).units[i]? = c.units[i]? := by
  induction is generalizing c with
  | nil =>
    refine ⟨(List.append_nil _).symm, ?_, fun _ _ => rfl⟩
    intro i u hi
    cases hi
  | cons k is ih =>
    obtain ⟨hk, hn⟩ := List.nodup_cons.mp hn
    obtain ⟨⟨hw, u, hu, hp⟩, h⟩ := List.forall_mem_cons.mp h
    have hlt := (List.getElem?_eq_some_iff.mp hu).1
    have hne {i : Nat} (hi : i ∈ is) : k ≠ i := fun hki => hk (hki ▸ hi)
    -- The others wait still, since only the first was taken from those that wait.
    have hrest : ∀ i ∈ is, i ∈ (c.cancel k).1.waiting ∧
        ∃ u, (c.cancel k).1.units[i]? = some u ∧ u.stage.isPending = true := by
      intro i hi
      obtain ⟨hwi, v, hv, hpv⟩ := h i hi
      rw [cancel_waiting hu hp hw]
      refine ⟨List.mem_filter.mpr ⟨hwi, ?_⟩, v, ?_, hpv⟩
      · simpa using (hne hi).symm
      · rw [List.getElem?_set_ne (hne hi)]
        exact hv
    obtain ⟨hdue, hin, hout⟩ := ih hn hrest
    have hcons : c.cancelAll (k :: is) = (c.cancel k).1.cancelAll is := rfl
    rw [hcons]
    refine ⟨?_, ?_, ?_⟩
    · rw [hdue, cancel_waiting hu hp hw]
      simp
    · intro i v hi hv
      rcases List.mem_cons.mp hi with rfl | hi
      · obtain rfl := Option.some.inj (hu.symm.trans hv)
        rw [hout i hk, cancel_waiting hu hp hw]
        simp [hlt]
      · refine hin i v hi ?_
        rw [cancel_waiting hu hp hw, List.getElem?_set_ne (hne hi)]
        exact hv
    · intro i hi
      have hki : k ≠ i := fun hki => hi (hki ▸ List.mem_cons_self)
      rw [hout i fun h => hi (List.mem_cons_of_mem k h), cancel_waiting hu hp hw,
        List.getElem?_set_ne hki]

end Scheduler

namespace Bot

variable {b : Bot}

/-- A unit that waits at a gate is cancelled in its turn, and what is left running of it waits there
still. -/
theorem turn_interrupted (hb : b.Owned) {k : Nat} {u : Task Job} {g : Setting} {r : Run}
    (hu : b.units.units[k]? = some u) (hs : u.stage = .active (.blocked g (.run r)))
    (hc : u.cancelling = true) (due : List Nat) :
    ((b.withDue due).turn k).units.due = due ∧
      ∃ u' rest, u'.stage = .cancelled rest ∧
        ((b.withDue due).turn k).units.units = b.units.units.set k u' := by
  obtain ⟨hk, -⟩ | ⟨v, v', hk, ht, hunits⟩ := hb.turn_cases k due
  · cases hk.symm.trans hu
  · obtain rfl := Option.some.inj (hk.symm.trans hu)
    obtain ⟨-, rfl⟩ := ht.of_active hs hc
    rw [hunits, Scheduler.replace_units]
    refine ⟨?_, _, _, rfl, rfl⟩
    -- What goes on of a program on a thread waits at its gate as before, and not in line.
    rw [Scheduler.replace]
    dsimp only [Stage.activity?]
    rcases botHost.behind (Activity.blocked g (Job.run r)).rest with - | w <;> rfl

/-- **Units that wait and are asked to be cancelled** are cancelled in their turns, and nothing
comes of any other unit. -/
theorem settle_interrupted {is : List Nat} (hb : b.Owned) (hdue : b.units.due = is)
    (hn : is.Nodup)
    (h : ∀ i ∈ is, ∃ u g r, b.units.units[i]? = some u ∧
      u.stage = .active (.blocked g (.run r)) ∧ u.cancelling = true) {n : Nat}
    (hle : is.length ≤ n) :
    (∀ i ∈ is, ∃ u rest, (b.settleIn n).units.units[i]? = some u ∧
      u.stage = .cancelled rest) ∧
      ∀ i, i ∉ is → (b.settleIn n).units.units[i]? = b.units.units[i]? := by
  -- Induction on the line: the first is cancelled in its turn, which adds nobody to the line.
  induction is generalizing b n with
  | nil =>
    rw [b.settleIn_of_due_nil hdue]
    refine ⟨?_, fun _ _ => rfl⟩
    intro i hi
    cases hi
  | cons k is ih =>
    obtain ⟨n, rfl⟩ : ∃ m, n = m + 1 := ⟨n - 1, by simp at hle; omega⟩
    obtain ⟨hk, hn⟩ := List.nodup_cons.mp hn
    obtain ⟨⟨u, g, r, hu, hs, hc⟩, h⟩ := List.forall_mem_cons.mp h
    have hlt := (List.getElem?_eq_some_iff.mp hu).1
    have hb₁ : ((b.withDue is).turn k).Owned := Step.owned hb (.tick (.turn k is (.inr hdue)))
    obtain ⟨hdue₁, u', rest, hs', hunits⟩ := turn_interrupted hb hu hs hc is
    have hne {i : Nat} (hi : i ∈ is) : k ≠ i := fun hki => hk (hki ▸ hi)
    obtain ⟨hin, hout⟩ := ih hb₁ hdue₁ hn
      (by
        intro i hi
        rw [hunits, List.getElem?_set_ne (hne hi)]
        exact h i hi)
      (by simpa using hle)
    rw [b.settleIn_succ hdue]
    constructor
    · intro i hi
      rcases List.mem_cons.mp hi with rfl | hi
      · rw [hout i hk, hunits, List.getElem?_set_self hlt]
        exact ⟨u', rest, rfl, hs'⟩
      · exact hin i hi
    · intro i hi
      have hki : k ≠ i := fun hki => hi (hki ▸ List.mem_cons_self)
      rw [hout i fun h => hi (List.mem_cons_of_mem k h), hunits, List.getElem?_set_ne hki]

/-- Cancels these units, with so many turns for all that are in line. -/
def cancelIn (turns : Nat) (is : List Nat) (b : Bot) : Bot :=
  settleIn turns { b with units := b.units.cancelAll is }

theorem ticks_cancelIn (turns : Nat) (is : List Nat) :
    ReflTransGen Tick b (b.cancelIn turns is) :=
  (b.ticks_cancelAll is).trans (ticks_settle _ turns)

/-- **Where nobody stands in line**, units that wait are cancelled, and nothing comes of any other
unit. -/
theorem cancelIn_blocked {is : List Nat} (hb : b.Owned) (hdue : b.units.due = []) (hn : is.Nodup)
    (h : ∀ i ∈ is, ∃ u, b.units.units[i]? = some u ∧ b.units.Waits i u) {turns : Nat}
    (hle : is.length ≤ turns) :
    (∀ i ∈ is, ∃ u rest, (b.cancelIn turns is).units.units[i]? = some u ∧
      u.stage = .cancelled rest) ∧
      ∀ i, i ∉ is → (b.cancelIn turns is).units.units[i]? = b.units.units[i]? := by
  obtain ⟨hdue', hin, hout⟩ := Scheduler.cancelAll_waiting (c := b.units) hn (by
    intro i hi
    obtain ⟨u, hu, hw⟩ := h i hi
    exact ⟨hw.waiting, u, hu, hw.isPending⟩)
  rw [hdue, List.nil_append] at hdue'
  obtain ⟨hcancelled, hothers⟩ := settle_interrupted (hb.ticks (b.ticks_cancelAll is)) hdue' hn
    (by
      intro i hi
      obtain ⟨u, hu, -, -, g, r, hs, -⟩ := h i hi
      exact ⟨_, g, r, hin i u hi hu, hs, rfl⟩)
    hle
  exact ⟨hcancelled, fun i hi => (hothers i hi).trans (hout i hi)⟩

/-! ## Stopping -/

/-- Stops, with so many turns for the units. -/
def stopIn (turns : Nat) (b : Bot) : Bot × Except Fault Unit :=
  match b.units.drain botHost turns b.core b.timeout with
  | (core, units, .ok n) =>
    ({ b with core := core.log none (.botStopped n), units := units }, .ok ())
  | (core, units, .error f) => ({ b with core := core, units := units }, .error f)

theorem stop_eq_stopIn (b : Bot) : b.stop = b.stopIn turnLimit := by
  unfold stop stopIn
  generalize b.units.drain botHost turnLimit b.core b.timeout = q
  rcases q with ⟨s, c, f | n⟩ <;> rfl

/-- Where no unit is tracked the time limit is not looked at. -/
theorem stopIn_of_idle (h : b.units.tracked = []) (turns : Nat) :
    b.stopIn turns = ({ b with core := b.core.log none (.botStopped 0) }, .ok ()) := by
  unfold stopIn Scheduler.drain
  rw [h]

/-- The units that have not ended after so many turns. -/
def leftIn (turns : Nat) (b : Bot) : List Nat :=
  b.units.tracked.filter (b.settleIn turns).units.isPending

/-- The units that have not ended when nobody stands in line any more are cancelled, which is
reported. -/
theorem stopIn_of_tracked {t : Decimal} {turns : Nat} (h : b.units.tracked ≠ [])
    (ht : timeLimit b.timeout = .ok (some t)) (hdue : (b.settleIn turns).units.due = []) :
    ∃ s, ((b.settleIn turns).untrack.cancelIn turns (b.leftIn turns)).untrack.core.Aside s ∧
      b.stopIn turns =
        ({ ((b.settleIn turns).untrack.cancelIn turns (b.leftIn turns)).untrack with
            core := s.log none (.botStopped (b.leftIn turns).length) }, .ok ()) := by
  obtain ⟨i, is, htracked⟩ := List.exists_cons_of_ne_nil h
  have hdrain : b.units.drain botHost turns b.core b.timeout =
      let p := Scheduler.cancelLeft botHost turns (b.settleIn turns).core
        (b.settleIn turns).untrack.units b.units.tracked
      (p.1, p.2.1, .ok p.2.2) := by
    rw [Scheduler.drain, htracked, ht]
    rfl
  have hleft : b.units.tracked.filter (b.settleIn turns).untrack.units.isPending =
      b.leftIn turns := rfl
  rw [stopIn, hdrain, Scheduler.cancelLeft, hleft]
  rcases b.leftIn turns with - | ⟨k, ks⟩
  · -- Where no unit is left, cancelling none changes nothing, as nobody stands in line.
    have hsame : (b.settleIn turns).untrack.cancelIn turns [] = (b.settleIn turns).untrack :=
      settleIn_of_due_nil (b.settleIn turns).untrack hdue turns
    rw [hsame, untrack_untrack]
    exact ⟨_, .refl _, rfl⟩
  · exact ⟨_, .log _ (.unitsCancelledOnShutdown (k :: ks).length), rfl⟩

/-- Where every unit has ended before its time is up, none is cancelled. -/
theorem stopIn_of_ended {limit : Option Decimal} {turns : Nat} (h : b.units.tracked ≠ [])
    (ht : timeLimit b.timeout = .ok limit)
    (hended : ∀ i, (b.settleIn turns).units.isPending i = false) :
    b.stopIn turns = ({ (b.settleIn turns).untrack with
      core := (b.settleIn turns).core.log none (.botStopped 0) }, .ok ()) := by
  obtain ⟨i, is, htracked⟩ := List.exists_cons_of_ne_nil h
  have hleft : Scheduler.cancelLeft botHost turns (b.settleIn turns).core
      (b.settleIn turns).untrack.units b.units.tracked =
        ((b.settleIn turns).core, (b.settleIn turns).untrack.units, 0) := by
    have hnone : b.units.tracked.filter (b.settleIn turns).untrack.units.isPending = [] :=
      List.filter_eq_nil_iff.mpr fun k _ => Bool.eq_false_iff.mp (hended k)
    rw [Scheduler.cancelLeft, hnone]
  have hdrain : b.units.drain botHost turns b.core b.timeout =
      ((b.settleIn turns).core, (b.settleIn turns).untrack.units, .ok 0) := by
    rw [htracked] at hleft
    rw [Scheduler.drain, htracked, ht]
    dsimp only
    split
    · exact congrArg (fun p => (p.1, p.2.1, Except.ok p.2.2)) hleft
    · rfl
  rw [stopIn, hdrain]
  rfl

theorem mem_leftIn {turns : Nat} (hb : b.Reached) :
    i ∈ b.leftIn turns ↔
      ∃ u, (b.settleIn turns).units.units[i]? = some u ∧ u.stage.isPending = true := by
  rw [leftIn, List.mem_filter, Scheduler.isPending_iff]
  constructor
  · exact And.right
  · rintro ⟨u, hu, hp⟩
    have hbefore := pending_of_settle hb.owned hu hp
    exact ⟨hb.tracks.pending i (Scheduler.isPending_iff.mpr hbefore), u, hu, hp⟩

theorem nodup_leftIn (hb : b.Reached) (turns : Nat) : (b.leftIn turns).Nodup :=
  hb.tracks.nodup.filter _

theorem length_leftIn_le (hb : b.Reached) (turns : Nat) :
    (b.leftIn turns).length ≤ b.units.units.length :=
  Nat.le_trans (List.length_filter_le _ _) hb.tracks.length_le

/-! ## What is found of a bot that has stopped -/

/-- What is found of `b'`, which has come from stopping `b`: it stood like `x` when nobody was in
line any more, and cancelled these units. -/
structure Halts (b x b' : Bot) (left : List Nat) : Prop where
  nodup : left.Nodup
  /-- No unit goes on. -/
  ended : ∀ (i : Nat) (u : Task Job), b'.units.units[i]? = some u → u.stage.isPending = false
  /-- These are the units that waited at closed gates. -/
  waited : ∀ i, i ∈ left ↔ ∃ u g r, x.units.units[i]? = some u ∧
    u.stage = .active (.blocked g (.run r)) ∧ x.units.isOpen g = false
  /-- These and no others were cancelled that nobody had asked to be cancelled before. -/
  cancelled : ∀ i, i ∈ left ↔ ∃ u u' rest, b.units.units[i]? = some u ∧
    u.stage.isPending = true ∧ u.cancelling = false ∧ b'.units.units[i]? = some u' ∧
    u'.stage = .cancelled rest
  /-- All others came to their own ends. -/
  others : ∀ (i : Nat) (u : Task Job), b.units.units[i]? = some u → u.stage.isPending = true →
    u.cancelling = false → i ∉ left → b.RunsToEnd i b'
  /-- Units that were to be cancelled before were so. -/
  asked : ∀ (i : Nat) (u : Task Job), b.units.units[i]? = some u → u.stage.isPending = true →
    u.cancelling = true → ∃ u' rest, b'.units.units[i]? = some u' ∧ u'.stage = .cancelled rest

variable {x : Bot} {left : List Nat}

/-- What is no affair of any unit makes no difference. -/
theorem Halts.aside {s : Core} (h : b.Halts x b' left) (hb : b'.Owned) (ha : b'.core.Aside s) :
    b.Halts x { b' with core := s } left where
  nodup := h.nodup
  ended := h.ended
  waited := h.waited
  cancelled := h.cancelled
  others i u hu hp hc hi := (h.others i u hu hp hc hi).later hb (.single (.aside ha))
  asked := h.asked

/-- That units are dropped which have ended makes no difference. -/
theorem Halts.untrack (h : b.Halts x b' left) (hb : b'.Owned) : b.Halts x b'.untrack left where
  nodup := h.nodup
  ended := h.ended
  waited := h.waited
  cancelled := h.cancelled
  others i u hu hp hc hi := (h.others i u hu hp hc hi).later hb (.single .untrack)
  asked := h.asked

/-- Where no unit is tracked there is nothing left to do. -/
theorem halts_of_idle (hb : b.Reached) (h : b.units.tracked = []) (n : Nat) :
    b.Halts (b.settleIn n) b [] := by
  have hpending {i : Nat} {u : Task Job} (hu : b.units.units[i]? = some u) :
      u.stage.isPending ≠ true := by
    intro hp
    have hi := hb.tracks.pending i (Scheduler.isPending_iff.mpr ⟨u, hu, hp⟩)
    rw [h] at hi
    cases hi
  refine ⟨.nil, fun i u hu => Bool.eq_false_iff.mpr (hpending hu), ?_, ?_, ?_, ?_⟩
  · intro i
    refine ⟨fun hi => (List.not_mem_nil hi).elim, ?_⟩
    rintro ⟨u, g, r, hu, hs, -⟩
    obtain ⟨v, hv, hp⟩ := pending_of_settle hb.owned hu (by rw [hs]; rfl)
    exact (hpending hv hp).elim
  · intro i
    refine ⟨fun hi => (List.not_mem_nil hi).elim, ?_⟩
    rintro ⟨u, -, -, hu, hp, -⟩
    exact (hpending hu hp).elim
  · intro i u hu hp
    exact (hpending hu hp).elim
  · intro i u hu hp
    exact (hpending hu hp).elim

/-- Where nobody stands in line any more a unit waits, has come to its own end, or was cancelled as
it was asked for. -/
theorem settle_idle {n : Nat} {u : Task Job} (hb : b.Reached)
    (hdue : (b.settleIn n).units.due = []) (hu : b.units.units[i]? = some u)
    (hp : u.stage.isPending = true) :
    (u.cancelling = false ∧ ∃ u', (b.settleIn n).units.units[i]? = some u' ∧
      (b.settleIn n).units.Waits i u') ∨
    (u.cancelling = false ∧ b.RunsToEnd i (b.settleIn n)) ∨
    (u.cancelling = true ∧ ∃ u' rest, (b.settleIn n).units.units[i]? = some u' ∧
      u'.stage = .cancelled rest) := by
  cases settle_life hb.owned hu hp n with
  | going hu' hp' hc =>
    have hw := (hb.ticks (b.ticks_settle n)).waits hdue hu' hp'
    exact .inl ⟨hc.symm.trans hw.cancelling, _, hu', hw⟩
  | ended hc h => exact .inr (.inl ⟨hc, h⟩)
  | cancelled hc hu' hs =>
    obtain ⟨rest, hs⟩ := hs
    exact .inr (.inr ⟨hc, _, rest, hu', hs⟩)

/-- **Units that are left when nobody stands in line any more** wait at gates, and cancelling them
is the end of all. -/
theorem halts_cancelIn {turns : Nat} (hb : b.Reached) (hdue : (b.settleIn turns).units.due = [])
    (hlen : b.units.units.length ≤ turns) :
    b.Halts (b.settleIn turns) ((b.settleIn turns).untrack.cancelIn turns (b.leftIn turns))
      (b.leftIn turns) := by
  have hx : (b.settleIn turns).Reached := hb.ticks (b.ticks_settle turns)
  have hx' : (b.settleIn turns).untrack.Reached := hx.ticks (.single .untrack)
  have hwaits : ∀ i ∈ b.leftIn turns, ∃ u, (b.settleIn turns).units.units[i]? = some u ∧
      (b.settleIn turns).units.Waits i u := by
    intro i hi
    obtain ⟨u, hu, hp⟩ := (mem_leftIn hb).mp hi
    exact ⟨u, hu, hx.waits hdue hu hp⟩
  obtain ⟨hcancelled, hothers⟩ := cancelIn_blocked hx'.owned hdue (nodup_leftIn hb turns)
    (fun i hi => by
      obtain ⟨u, hu, hw, hc, hclosed⟩ := hwaits i hi
      exact ⟨u, hu, hw, hc, hclosed⟩)
    (Nat.le_trans (length_leftIn_le hb turns) hlen)
  -- A unit that was cancelled before is none of those that are left.
  have hnot {i : Nat} {u : Task Job} {rest : Option (Activity Job)}
      (hu : (b.settleIn turns).units.units[i]? = some u) (hs : u.stage = .cancelled rest) :
      i ∉ b.leftIn turns := by
    intro hi
    obtain ⟨v, hv, hw⟩ := hwaits i hi
    obtain rfl := Option.some.inj (hu.symm.trans hv)
    have hp := hw.isPending
    rw [hs] at hp
    cases hp
  -- A unit that comes to its own end is done, and stays so.
  have hlater {i : Nat} (hend : b.RunsToEnd i (b.settleIn turns)) :
      b.RunsToEnd i ((b.settleIn turns).untrack.cancelIn turns (b.leftIn turns)) :=
    hend.later hx.owned (.head .untrack (ticks_cancelIn turns (b.leftIn turns)))
  refine ⟨nodup_leftIn hb turns, ?ended, ?waited, ?cancelled, ?others, ?asked⟩
  case ended =>
    intro i u hu
    by_cases hi : i ∈ b.leftIn turns
    · obtain ⟨v, rest, hv, hs⟩ := hcancelled i hi
      obtain rfl := Option.some.inj (hv.symm.trans hu)
      rw [hs]
      rfl
    · rw [← Bool.not_eq_true]
      intro hp
      exact hi ((mem_leftIn hb).mpr ⟨u, hothers i hi ▸ hu, hp⟩)
  case waited =>
    intro i
    constructor
    · intro hi
      obtain ⟨u, hu, -, -, g, r, hs, hg⟩ := hwaits i hi
      exact ⟨u, g, r, hu, hs, hg⟩
    · rintro ⟨u, g, r, hu, hs, -⟩
      exact (mem_leftIn hb).mpr ⟨u, hu, by rw [hs]; rfl⟩
  case cancelled =>
    intro i
    constructor
    · intro hi
      obtain ⟨u', rest, hu', hs⟩ := hcancelled i hi
      obtain ⟨v, hv, hw⟩ := hwaits i hi
      obtain ⟨u, hu, hp⟩ := pending_of_settle hb.owned hv hw.isPending
      refine ⟨u, u', rest, hu, hp, ?_, hu', hs⟩
      obtain ⟨hc, -⟩ | ⟨hc, -⟩ | ⟨-, w, rest, hw', hs'⟩ := settle_idle hb hdue hu hp
      · exact hc
      · exact hc
      · exact (hnot hw' hs' hi).elim
    · rintro ⟨u, u', rest, hu, hp, hc, hu', hs⟩
      obtain ⟨-, v, hv, hw⟩ | ⟨-, hend⟩ | ⟨hc', -⟩ := settle_idle hb hdue hu hp
      · exact (mem_leftIn hb).mpr ⟨v, hv, hw.isPending⟩
      · obtain ⟨v, hv, hdone⟩ := (hlater hend).done
        obtain rfl := Option.some.inj (hv.symm.trans hu')
        cases hs.symm.trans hdone
      · cases hc.symm.trans hc'
  case others =>
    intro i u hu hp hc hi
    obtain ⟨-, v, hv, hw⟩ | ⟨-, hend⟩ | ⟨hc', -⟩ := settle_idle hb hdue hu hp
    · exact (hi ((mem_leftIn hb).mpr ⟨v, hv, hw.isPending⟩)).elim
    · exact hlater hend
    · cases hc.symm.trans hc'
  case asked =>
    intro i u hu hp hc
    obtain ⟨hc', -⟩ | ⟨hc', -⟩ | ⟨-, v, rest, hv, hs⟩ := settle_idle hb hdue hu hp
    · cases hc.symm.trans hc'
    · cases hc.symm.trans hc'
    · exact ⟨v, rest, (hothers i (hnot hv hs)).trans hv, hs⟩

/-- Where all units have ended none is tracked that is not dropped. -/
theorem Halts.inFlight_eq_zero (h : b.Halts x b' left) : b'.untrack.units.inFlight = 0 := by
  refine List.length_eq_zero_iff.mpr (List.filter_eq_nil_iff.mpr ?_)
  intro i _ hp
  obtain ⟨u, hu, hp⟩ := Scheduler.isPending_iff.mp hp
  cases hp.symm.trans (h.ended i u hu)

end Bot

/-- **Stopping ends all units and cancels those that wait.** Given limited time, and turns enough
for all units to run on until nobody stands in line any more and for one turn more of each, no unit
is left in flight. The units that were cancelled are those that waited at closed gates then; their
number is reported, and that is the last report. All others that had not ended came to their own
ends, save those whose cancellation somebody had asked for before. `Bot.stop` is such stopping, with
`turnLimit` for the turns. -/
theorem stop_cancels_blocked {b : Bot} {t : Decimal} {n turns : Nat} (hb : b.Reached)
    (ht : timeLimit b.timeout = .ok (some t)) (hdue : (b.settleIn n).units.due = [])
    (hn : n ≤ turns) (hlen : b.units.units.length ≤ turns) :
    (b.stopIn turns).2 = .ok () ∧ (b.stopIn turns).1.units.inFlight = 0 ∧
    ∃ left, b.Halts (b.settleIn n) (b.stopIn turns).1 left ∧
      (b.stopIn turns).1.core.journal.getLast? =
        some ⟨none, .logged (.botStopped left.length)⟩ := by
  -- With more turns than are needed the bot comes to the same.
  have hx := Bot.settleIn_of_le hdue hn
  rw [← hx] at hdue ⊢
  have hlog (s : Core) (k : Nat) : (s.log none (.botStopped k)).journal.getLast? =
      some ⟨none, .logged (.botStopped k)⟩ := List.getLast?_concat
  by_cases hidle : b.units.tracked = []
  · have h := (Bot.halts_of_idle hb hidle turns).aside hb.owned (.log b.core (.botStopped 0))
    rw [Bot.stopIn_of_idle hidle]
    exact ⟨rfl, congrArg List.length hidle, [], h, hlog _ _⟩
  · obtain ⟨s, hs, hstop⟩ := Bot.stopIn_of_tracked hidle ht hdue
    have hticks := ((b.ticks_settle turns).tail .untrack).trans
      (Bot.ticks_cancelIn turns (b.leftIn turns))
    have hcancel := Bot.halts_cancelIn hb hdue hlen
    have howned := (hb.ticks hticks).owned
    have h := (hcancel.untrack howned).aside ((hb.ticks hticks).ticks (.single .untrack)).owned
      (hs.trans (.log s (.botStopped (b.leftIn turns).length)))
    rw [hstop]
    exact ⟨rfl, hcancel.inFlight_eq_zero, _, h, hlog _ _⟩

/-- One unit waits at a gate and another has not begun when the bot stops. -/
theorem stop_cancels_blocked_burst :
    ∃ (b : Bot) (left : List Nat), b.Reached ∧
      b.units.overview = [("ct-1", "pending"), ("ct-2", "pending")] ∧
      b.stop.2 = .ok () ∧ b.stop.1.units.inFlight = 0 ∧ b.Halts (b.settleIn 1) b.stop.1 left ∧
      0 ∈ left ∧ b.RunsToEnd 1 b.stop.1 ∧
      b.stop.1.core.journal.getLast? = some ⟨none, .logged (.botStopped left.length)⟩ ∧
      b.stop.1.units.overview = [("ct-1", "cancelled"), ("ct-2", "done")] := by
  let registry : Registry :=
    (({} : Registry).register { name := "a" } .inline fun _ _ => do
      Program.waitAt "g"
      return .text "x").register { name := "b" } .inline fun _ _ => return .text "y"
  let core : Core :=
    { attributes := {}, transport := .fixed .null [] [] [], registry := registry }
  let b₀ : Bot := { trigger := .literal "!", core := core, timeout := .scalar (.int 1) }
  let m (text : String) : Message := ⟨text, some ⟨"u", "", []⟩, "c", none, .null⟩
  let b : Bot := ((b₀.receive (m "!a")).1.settle.receive (m "!b")).1
  have hb₀ : b₀.Reached := ⟨b₀, ⟨rfl, rfl, rfl, fun x hx => nomatch hx⟩, .refl⟩
  have hb : b.Reached := hb₀.ticks
    (((b₀.ticks_receive _).trans (Bot.ticks_settleAll _)).trans (Bot.ticks_receive _ _))
  have hdue : (b.settleIn 1).units.due = [] := by decide +kernel
  have hturns : 1 ≤ turnLimit := by decide
  have hlen : b.units.units.length ≤ turnLimit := by decide +kernel
  obtain ⟨hok, hnone, left, hhalts, hlast⟩ :=
    stop_cancels_blocked (t := .ofInt 1) hb rfl hdue hturns hlen
  rw [← b.stop_eq_stopIn] at hok hnone hhalts hlast
  have hpending (i : Fin 2) : (b.units.units[i.val]?.map fun u =>
      (u.stage.isPending, u.cancelling)) = some (true, false) := by
    revert i
    decide +kernel
  have hcancelled (i : Fin 2) : (b.stop.1.units.units[i.val]?.map fun u => u.stage.standing.2) =
      some (i == 0) := by
    revert i
    decide +kernel
  have hwaited : 0 ∈ left := by
    obtain ⟨u, hu, hp⟩ := Option.map_eq_some_iff.mp (hpending 0)
    obtain ⟨u', hu', hs⟩ := Option.map_eq_some_iff.mp (hcancelled 0)
    obtain ⟨rest, hs⟩ := Stage.eq_cancelled hs
    obtain ⟨hp, hc⟩ := Prod.mk.inj hp
    exact (hhalts.cancelled 0).mpr ⟨u, u', rest, hu, hp, hc, hu', hs⟩
  have hran : b.RunsToEnd 1 b.stop.1 := by
    obtain ⟨u, hu, hp⟩ := Option.map_eq_some_iff.mp (hpending 1)
    obtain ⟨hp, hc⟩ := Prod.mk.inj hp
    refine hhalts.others 1 u hu hp hc ?_
    intro hleft
    obtain ⟨-, u', rest, -, -, -, hu', hs⟩ := (hhalts.cancelled 1).mp hleft
    have hdone := hcancelled 1
    rw [show ((1 : Fin 2) : Nat) = 1 from rfl, hu', Option.map_some, hs] at hdone
    cases hdone
  exact ⟨b, left, hb, by decide +kernel, hok, hnone, hhalts, hwaited, hran, hlast,
    by decide +kernel⟩

/-- A unit whose cancellation was asked for before the bot stops does not come to its own end, and
stopping has not cancelled it. -/
theorem stop_cancels_asked :
    ∃ (b : Bot), b.Reached ∧ timeLimit b.timeout = .ok (some (.ofInt 1)) ∧
      b.units.overview = [("ct-1", "pending")] ∧ (b.settleIn 1).units.due = [] ∧
      b.stop.1.units.overview = [("ct-1", "cancelled")] ∧ ¬ b.RunsToEnd 0 b.stop.1 ∧
      (b.stop.1.core.journal.filterMap fun x =>
        match x.what with | .logged (.botStopped n) => some n | _ => none) = [0] := by
  let registry : Registry :=
    ({} : Registry).register { name := "a" } .inline fun _ _ => return .text "x"
  let core : Core :=
    { attributes := {}, transport := .fixed .null [] [] [], registry := registry }
  let b₀ : Bot := { trigger := .literal "!", core := core, timeout := .scalar (.int 1) }
  let m : Message := ⟨"!a", some ⟨"u", "", []⟩, "c", none, .null⟩
  let b : Bot := ((b₀.receive m).1.cancel 0).1
  have hb₀ : b₀.Reached := ⟨b₀, ⟨rfl, rfl, rfl, fun x hx => nomatch hx⟩, .refl⟩
  have hb : b.Reached := hb₀.ticks ((b₀.ticks_receive m).tail (.cancel 0))
  have hover : b.stop.1.units.overview = [("ct-1", "cancelled")] := by decide +kernel
  refine ⟨b, hb, rfl, by decide +kernel, by decide +kernel, hover, ?_, by decide +kernel⟩
  intro h
  obtain ⟨u, hu, hs⟩ := h.done
  have hname := congrArg (·[0]?) hover
  rw [Scheduler.overview] at hname
  simp only [List.getElem?_map, hu, Option.map_some, hs] at hname
  exact absurd (Prod.mk.inj (Option.some.inj hname)).2 (by decide +kernel)

end ChatCommands
