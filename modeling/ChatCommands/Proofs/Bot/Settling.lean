import ChatCommands.Proofs.Bot.Ticks

/-!
# While units run on

The units in line have their turns, one after another, until nobody stands in line. What becomes of
a unit meanwhile is told here without a look at the others: it goes on, it comes to its own end, or
it is cancelled, but that only if it was asked for before.

## Main definitions

* `Bot.RunsToEnd`: a unit comes to its own end on the way to another bot
* `Bot.Settles`: what becomes of a unit while units run on

## Main results

* `Bot.settleIn_of_le`, `Bot.settleIn_add`: once the line is empty more turns make no difference,
  and turns may be given in portions
* `Bot.settle_life`: a unit goes on, comes to its end, or is cancelled as it was asked for
-/

namespace ChatCommands

open Relation (ReflTransGen)

namespace Bot

variable {b b' b'' : Bot} {i k : Nat} {u : Task Job}

/-- Once the line is empty more turns make no difference. -/
theorem settleIn_of_le {n m : Nat} (h : (b.settleIn n).units.due = []) (hle : n ≤ m) :
    b.settleIn m = b.settleIn n := by
  -- Induction on the turns that are needed, along the line of the bot.
  induction n generalizing b m with
  | zero => exact b.settleIn_of_due_nil h m
  | succ n ih =>
    rcases hd : b.units.due with - | ⟨k, due⟩
    · rw [b.settleIn_of_due_nil hd, b.settleIn_of_due_nil hd]
    · obtain ⟨m, rfl⟩ : ∃ m', m = m' + 1 := ⟨m - 1, by omega⟩
      rw [b.settleIn_succ hd] at h
      rw [b.settleIn_succ hd, b.settleIn_succ hd]
      exact ih h (by omega)

/-- Turns may be given in portions. -/
theorem settleIn_add (b : Bot) (n m : Nat) : b.settleIn (n + m) = (b.settleIn n).settleIn m := by
  induction n generalizing b with
  | zero =>
    rw [Nat.zero_add]
    rfl
  | succ n ih =>
    rw [Nat.succ_add]
    rcases hd : b.units.due with - | ⟨k, due⟩
    · rw [b.settleIn_of_due_nil hd, b.settleIn_of_due_nil hd, b.settleIn_of_due_nil hd]
    · rw [b.settleIn_succ hd, b.settleIn_succ hd]
      exact ih _

/-- What a unit sees of a turn: the turn of another, or its own. -/
theorem Owned.turn_unit (hb : b.Owned) (hu : b.units.units[i]? = some u) (k : Nat)
    (due : List Nat) :
    ((b.withDue due).turn k).units.units[i]? = some u ∨
      i = k ∧ ∃ u', ((b.withDue due).turn k).units.units[i]? = some u' ∧
        Task.Turns b.units.isOpen i b.core u ((b.withDue due).turn k).core u' := by
  obtain ⟨-, hturn⟩ | ⟨v, v', hk, ht, hunits⟩ := hb.turn_cases k due
  · rw [hturn]
    exact .inl hu
  · rw [hunits, Scheduler.replace_units, List.getElem?_set]
    split
    next hki =>
      subst hki
      obtain rfl := Option.some.inj (hk.symm.trans hu)
      have hlt : k < (b.withDue due).units.units.length := (List.getElem?_eq_some_iff.mp hk).1
      rw [if_pos hlt]
      exact .inr ⟨rfl, v', rfl, ht⟩
    · exact .inl hu

theorem Owned.turn_length (hb : b.Owned) (k : Nat) (due : List Nat) :
    ((b.withDue due).turn k).units.units.length = b.units.units.length := by
  obtain ⟨-, hturn⟩ | ⟨v, v', -, -, hunits⟩ := hb.turn_cases k due
  · rw [hturn]
    rfl
  · rw [hunits, Scheduler.replace_units]
    exact List.length_set

/-- After some turns the unit is first in line, and its run comes to its end. What is reported of
that is the last that is told of the unit. -/
def RunsToEnd (b : Bot) (i : Nat) (b' : Bot) : Prop :=
  ∃ (n : Nat) (u u' : Task Job) (j : Job) (s : Core) (o : Outcome),
    (b.settleIn n).units.due.head? = some i ∧ (b.settleIn n).units.units[i]? = some u ∧
    u.stage.standing = (some j, false) ∧ u.cancelling = false ∧
    (b.settleIn n).core.Ends (b.settleIn n).units.isOpen j s o ∧
    b'.units.units[i]? = some u' ∧ u'.stage = .done ∧
    b'.core.told (some i) = s.told (some i) ++ (o.reports u.label).map .logged

theorem RunsToEnd.head {due : List Nat} (hd : b.units.due = k :: due)
    (h : ((b.withDue due).turn k).RunsToEnd i b') : b.RunsToEnd i b' := by
  obtain ⟨n, h⟩ := h
  rw [← b.settleIn_succ hd] at h
  exact ⟨n + 1, h⟩

theorem RunsToEnd.later (hb : b'.Owned) (h : b.RunsToEnd i b') (hs : ReflTransGen Tick b' b'') :
    b.RunsToEnd i b'' := by
  obtain ⟨n, u, u', j, s, o, hi, hu, hj, hc, he, hu', hdone, htold⟩ := h
  obtain ⟨v, hv, hstage, -, ht⟩ := steps_over hb (steps_of_ticks hs) hu' (.inl hdone)
  exact ⟨n, u, v, j, s, o, hi, hu, hj, hc, he, hv, hstage.trans hdone, ht.trans htold⟩

theorem RunsToEnd.done (h : b.RunsToEnd i b') :
    ∃ u, b'.units.units[i]? = some u ∧ u.stage = .done := by
  obtain ⟨-, -, u, -, -, -, -, -, -, -, -, hu, hdone, -⟩ := h
  exact ⟨u, hu, hdone⟩

/-- What becomes of a unit that has not ended, while units run on: it goes on, it comes to its end,
or it is cancelled since that was asked for before. -/
inductive Settles (b b' : Bot) (i : Nat) (u : Task Job) : Prop where
  | going {u' : Task Job} (hu : b'.units.units[i]? = some u') (hp : u'.stage.isPending = true)
      (hc : u'.cancelling = u.cancelling)
  | ended (hc : u.cancelling = false) (h : b.RunsToEnd i b')
  | cancelled {u' : Task Job} (hc : u.cancelling = true) (hu : b'.units.units[i]? = some u')
      (hs : ∃ rest, u'.stage = .cancelled rest)

theorem Settles.head {u' : Task Job} {due : List Nat} (hd : b.units.due = k :: due)
    (h : Settles ((b.withDue due).turn k) b' i u') (hc : u'.cancelling = u.cancelling) :
    Settles b b' i u := by
  -- That a cancellation was asked for does not change before the unit's own turn.
  cases h with
  | going hu hp hc' => exact .going hu hp (hc'.trans hc)
  | ended hc' h => exact .ended (hc.symm.trans hc') (h.head hd)
  | cancelled hc' hu hs => exact .cancelled (hc.symm.trans hc') hu hs

/-- A unit that comes to its end in its own turn. -/
theorem runsToEnd_of_ends {j : Job} {s : Core} {o : Outcome} {u' : Task Job}
    (hi : b.units.due.head? = some i) (hu : b.units.units[i]? = some u)
    (hj : u.stage.standing = (some j, false)) (hc : u.cancelling = false)
    (he : b.core.Ends b.units.isOpen j s o)
    (hcore : b'.core = s.logAll (some i) (o.reports u.label))
    (hu' : b'.units.units[i]? = some u') (hs : u'.stage = .done) : b.RunsToEnd i b' := by
  refine ⟨0, u, u', j, s, o, hi, hu, hj, hc, he, hu', hs, ?_⟩
  rw [hcore]
  exact s.told_logAll _ _

/-- **While units run on** a unit goes on, comes to its end, or is cancelled as it was asked for. -/
theorem settle_life (hb : b.Owned) (hu : b.units.units[i]? = some u)
    (hp : u.stage.isPending = true) (n : Nat) : Settles b (b.settleIn n) i u := by
  -- Induction on the turns. Only in its own turn something comes of the unit, and what it ends with
  -- then stays.
  induction n generalizing b u with
  | zero => exact .going hu hp rfl
  | succ n ih =>
    rcases hd : b.units.due with - | ⟨k, due⟩
    · rw [b.settleIn_of_due_nil hd]
      exact .going hu hp rfl
    · rw [b.settleIn_succ hd]
      have hb₁ : ((b.withDue due).turn k).Owned := Step.owned hb (.tick (.turn k due (.inr hd)))
      obtain hu₁ | ⟨rfl, u₁, hu₁, ht⟩ := hb.turn_unit hu k due
      · exact .head hd (ih hb₁ hu₁ hp) rfl
      · have hcancelled (hc : u.cancelling = true) (hp₁ : u₁.stage.isPending = false)
            (hs : u₁.stage.standing.2 = true) :
            Settles b (((b.withDue due).turn i).settleIn n) i u := by
          -- A unit that was cancelled in its turn stays so.
          obtain ⟨u₂, hu₂, -, hs₂⟩ := steps_ended hb₁ (steps_of_ticks (ticks_settle _ n)) hu₁ hp₁
          exact .cancelled hc hu₂ (Stage.eq_cancelled (hs₂.trans hs))
        generalize hcore : ((b.withDue due).turn i).core = s₁ at ht
        cases ht with
        | waits hj hc h =>
          have hlater := ih hb₁ hu₁ rfl
          exact hlater.head hd rfl
        | yields hj hc h =>
          have hlater := ih hb₁ hu₁ rfl
          exact hlater.head hd rfl
        | ends hj hc he =>
          have hhead : b.units.due.head? = some i := by
            rw [hd]
            rfl
          have hend := runsToEnd_of_ends hhead hu hj hc he hcore hu₁ rfl
          exact .ended hc (hend.later hb₁ (ticks_settle _ n))
        | dropped hs hc => exact hcancelled hc rfl rfl
        | interrupted hs hc => exact hcancelled hc rfl rfl
        | strays hs ha =>
          rw [hs] at hp
          cases hp
        | idle hs =>
          rcases hs with hs | hs
          · rw [hs] at hp
            cases hp
          · rw [hs] at hp
            cases hp

theorem settle_length (hb : b.Owned) (n : Nat) :
    (b.settleIn n).units.units.length = b.units.units.length := by
  induction n generalizing b with
  | zero => rfl
  | succ n ih =>
    rcases hd : b.units.due with - | ⟨k, due⟩
    · rw [b.settleIn_of_due_nil hd]
    · rw [b.settleIn_succ hd, ih (Step.owned hb (.tick (.turn k due (.inr hd)))),
        hb.turn_length]

/-- A unit that has not ended while units ran on had not ended before. -/
theorem pending_of_settle (hb : b.Owned) {n : Nat} {u' : Task Job}
    (hu' : (b.settleIn n).units.units[i]? = some u') (hp : u'.stage.isPending = true) :
    ∃ u, b.units.units[i]? = some u ∧ u.stage.isPending = true := by
  have hlt : i < b.units.units.length := by
    rw [← settle_length hb n]
    exact (List.getElem?_eq_some_iff.mp hu').1
  have hu := List.getElem?_eq_getElem hlt
  refine ⟨_, hu, ?_⟩
  -- A unit that had ended before would have stayed so.
  rw [← Bool.not_eq_false]
  intro hended
  obtain ⟨v, hv, hpv, -⟩ := steps_ended hb
    (steps_of_ticks (b.ticks_settle n)) hu hended
  obtain rfl := Option.some.inj (hv.symm.trans hu')
  cases hp.symm.trans hpv

end Bot

end ChatCommands
