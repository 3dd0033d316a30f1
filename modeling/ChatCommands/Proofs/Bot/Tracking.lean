import ChatCommands.Proofs.Bot.Ticks
import Mathlib.Data.List.Perm.Subperm

/-!
# The units that are tracked

A unit is tracked from the moment at which it is spawned, and is dropped some time after it has
ended. In between the bot waits for it when it stops, so that none may be dropped too early, and
none may be tracked twice.

## Main definitions

* `Bot.Books`: what a step changes of the units that are tracked and counted
* `Bot.Tracks`: the units that have not ended are tracked, in order

## Main results

* `Bot.Step.books`: a step enrols a unit, drops those that have ended, or changes nothing
* `Bot.Reached.tracks`: the units that have not ended are tracked, whatever happens
* `Bot.Tracks.untrack_eq`: once those are dropped that have ended, no others are tracked
-/

namespace ChatCommands

open Relation (ReflTransGen)

namespace Scheduler

variable {c d : Scheduler Job} {i k : Nat}

theorem isPending_iff :
    c.isPending i = true ↔ ∃ u, c.units[i]? = some u ∧ u.stage.isPending = true := by
  unfold isPending
  rcases c.units[i]? with - | u
  · simp
  · simp

/-- Units that have ended are dropped once. -/
theorem untrack_untrack (c : Scheduler Job) : c.untrack.untrack = c.untrack := by
  have hfilter : (c.tracked.filter c.isPending).filter c.isPending =
      c.tracked.filter c.isPending := by
    rw [List.filter_filter]
    simp
  exact congrArg (fun l => { c with tracked := l }) hfilter

/-- As many units have been spawned, and the same are tracked. -/
structure Counts (c d : Scheduler Job) : Prop where
  counter : d.counter = c.counter
  tracked : d.tracked = c.tracked

theorem counts_enlist (c : Scheduler Job) (i : Nat) (a : Option (Activity Job)) :
    c.Counts (c.enlist i a) := by
  rcases a with - | ⟨_ | _⟩ <;> exact ⟨rfl, rfl⟩

theorem counts_replace (c : Scheduler Job) (i : Nat) (u : Task Job) :
    c.Counts (c.replace i u) := by
  obtain ⟨hc, ht⟩ := counts_enlist { c with units := c.units.set i u } i u.stage.activity?
  exact ⟨hc, ht⟩

theorem counts_release (c : Scheduler Job) (gate : Setting) : c.Counts (c.release gate) := by
  have hfold (is : List Nat) (d : Scheduler Job) : d.Counts (is.foldl makeDue d) := by
    induction is generalizing d with
    | nil => exact ⟨rfl, rfl⟩
    | cons k is ih =>
      obtain ⟨hc, ht⟩ := ih (d.makeDue k)
      exact ⟨hc, ht⟩
  obtain ⟨hc, ht⟩ := hfold _ _
  exact ⟨hc, ht⟩

theorem counts_cancel (c : Scheduler Job) (k : Nat) : c.Counts (c.cancel k).1 := by
  unfold cancel
  split
  · exact ⟨rfl, rfl⟩
  · split
    · dsimp only
      split <;> exact ⟨rfl, rfl⟩
    · exact ⟨rfl, rfl⟩

end Scheduler

namespace Bot

variable {b b' : Bot} {i : Nat} {u : Task Job}

theorem untrack_untrack (b : Bot) : b.untrack.untrack = b.untrack :=
  congrArg (fun c => { b with units := c }) b.units.untrack_untrack

/-- A new unit is tracked behind all others. -/
theorem enrol_tracked (b : Bot) (text : String) (m : Message) :
    (b.enrol text m).units.tracked = b.units.tracked ++ [b.units.units.length] := rfl

theorem length_enrol (b : Bot) (text : String) (m : Message) :
    (b.enrol text m).units.units.length = b.units.units.length + 1 := by
  obtain ⟨n, hunits, -⟩ := b.enrol_eq text m
  rw [hunits, List.length_append, List.length_singleton]

/-- What a step changes of the units that are counted and tracked. -/
inductive Books (b b' : Bot) : Prop where
  | same (hl : b'.units.units.length = b.units.units.length) (h : b.units.Counts b'.units)
  | enrols {text : String} {m : Message} (h : b' = b.enrol text m)
  | untracks (h : b' = b.untrack)

/-- **A step** enrols a unit, drops those that have ended, or changes nothing of the books. -/
theorem Step.books (hb : b.Owned) (h : b.Step b') : Books b b' := by
  cases h with
  | manage h =>
    obtain ⟨hu, -, -⟩ := h.tells
    exact .same (by rw [hu]) (by rw [hu]; exact ⟨rfl, rfl⟩)
  | tick h =>
    cases h with
    | turn k due h =>
      obtain ⟨-, hturn⟩ | ⟨u, u', -, -, hunits⟩ := hb.turn_cases k due
      · rw [hturn]
        exact .same rfl ⟨rfl, rfl⟩
      · refine .same ?_ ?_
        · rw [hunits, Scheduler.replace_units, List.length_set]
          rfl
        · rw [hunits]
          obtain ⟨hc, ht⟩ := Scheduler.counts_replace (b.withDue due).units k u'
          exact ⟨hc, ht⟩
    | enrol text m => exact .enrols rfl
    | release gate =>
      exact .same (length_of_standings (b.units.standings_release gate))
        (b.units.counts_release gate)
    | cancel k =>
      exact .same (length_of_standings (b.units.standings_cancelTask k)) (b.units.counts_cancel k)
    | untrack => exact .untracks rfl
    | aside h => exact .same rfl ⟨rfl, rfl⟩

/-- A unit that has not ended after a step had not ended before, unless it is new. -/
theorem Step.isPending (hb : b.Owned) (h : b.Step b') (hp : b'.units.isPending i = true) :
    b.units.isPending i = true ∨ i = b.units.units.length := by
  obtain ⟨u', hu', hp'⟩ := Scheduler.isPending_iff.mp hp
  cases h.life hb hu' with
  | rests hu hm => exact .inl (Scheduler.isPending_iff.mpr ⟨_, hu, hm.isPending ▸ hp'⟩)
  | @turns u hu ht =>
    refine .inl (Scheduler.isPending_iff.mpr ⟨_, hu, ?_⟩)
    rw [← Bool.not_eq_false]
    intro hended
    cases hp'.symm.trans (ht.ended hended).1
  | begins hi => exact .inr hi

/-- The units that have not ended are tracked, each once, in the order in which they were spawned,
and all that were spawned are counted. -/
structure Tracks (b : Bot) : Prop where
  sublist : b.units.tracked.Sublist (List.range b.units.units.length)
  pending : ∀ i, b.units.isPending i = true → i ∈ b.units.tracked
  counter : b.units.counter = b.units.units.length

theorem Unused.tracks (h : b.Unused) : b.Tracks := by
  constructor
  · rw [h.tracked]
    exact List.nil_sublist _
  · intro i hi
    obtain ⟨u, hu, -⟩ := Scheduler.isPending_iff.mp hi
    rw [h.units] at hu
    cases hu
  · rw [h.counter, h.units]
    rfl

/-- **The units that have not ended stay tracked** in a step. -/
theorem Tracks.step (h : b.Tracks) (hb : b.Owned) (hs : b.Step b') : b'.Tracks := by
  have hpending (i : Nat) (hp : b'.units.isPending i = true) := hs.isPending hb hp
  cases hs.books hb with
  | same hl hc =>
    constructor
    · rw [hc.tracked, hl]
      exact h.sublist
    · intro i hp
      rw [hc.tracked]
      refine h.pending i ((hpending i hp).resolve_right ?_)
      -- No unit is new.
      rintro rfl
      obtain ⟨u, hu, -⟩ := Scheduler.isPending_iff.mp hp
      have hlt := (List.getElem?_eq_some_iff.mp hu).1
      omega
    · rw [hc.counter, hl]
      exact h.counter
  | @enrols text m henrol =>
    subst henrol
    constructor
    · rw [enrol_tracked, length_enrol, List.range_succ]
      exact h.sublist.append_right _
    · intro i hp
      rw [enrol_tracked, List.mem_append, List.mem_singleton]
      exact (hpending i hp).imp_left (h.pending i)
    · rw [length_enrol, ← h.counter]
      rfl
  | untracks huntrack =>
    subst huntrack
    refine ⟨List.filter_sublist.trans h.sublist, ?_, h.counter⟩
    intro i hp
    exact List.mem_filter.mpr ⟨h.pending i hp, hp⟩

/-- **The units that have not ended are tracked**, whatever happens. -/
theorem Reached.tracks (h : b.Reached) : b.Tracks := by
  obtain ⟨b₀, h₀, hsteps⟩ := h
  induction hsteps with
  | refl => exact h₀.tracks
  | tail hs hstep ih => exact ih.step (h₀.owned.steps hs) hstep

namespace Tracks

theorem nodup (h : b.Tracks) : b.units.tracked.Nodup := h.sublist.nodup List.nodup_range

theorem lt_length (h : b.Tracks) (hi : i ∈ b.units.tracked) : i < b.units.units.length :=
  List.mem_range.mp (h.sublist.subset hi)

theorem length_le (h : b.Tracks) : b.units.tracked.length ≤ b.units.units.length := by
  have hle := h.sublist.length_le
  rwa [List.length_range] at hle

/-- **Once those are dropped that have ended** the units are tracked that have not, and no
others. -/
theorem untrack_eq (h : b.Tracks) : b.untrack.units.tracked = b.units.pending := by
  refine (h.sublist.filter b.units.isPending).eq_of_length_le ?_
  refine (List.subperm_of_subset (List.nodup_range.filter _) ?_).length_le
  intro i hi
  obtain ⟨-, hp⟩ := List.mem_filter.mp hi
  exact List.mem_filter.mpr ⟨h.pending i hp, hp⟩

end Tracks

end Bot

end ChatCommands
