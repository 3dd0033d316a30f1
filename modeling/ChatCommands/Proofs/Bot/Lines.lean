import ChatCommands.Proofs.Bot.Ticks

/-!
# Where units are found

A unit that has not ended stands in line for its turn, unless it waits at a gate. Whatever happens
at a bot, none of them is lost: a unit that stands nowhere in line waits at a closed gate, and
nobody has asked for its cancellation. So when the line is empty all units that have not ended wait
at gates.

## Main definitions

* `Scheduler.Waits`: a unit waits at a closed gate
* `Scheduler.InLine`: units that have not ended stand in line or wait

## Main results

* `Task.Turns.in_line`: where a unit is found behind its turn
* `Bot.Step.in_line`, `Bot.Reached.in_line`: no unit is lost
-/

namespace ChatCommands

open Relation (ReflTransGen)

/-- A unit waits at a closed gate, and its cancellation was not asked for. -/
structure Scheduler.Waits (c : Scheduler Job) (i : Nat) (u : Task Job) : Prop where
  waiting : i ∈ c.waiting
  cancelling : u.cancelling = false
  closed : ∃ g r, u.stage = .active (.blocked g (.run r)) ∧ c.isOpen g = false

theorem Scheduler.Waits.isPending {c : Scheduler Job} {i : Nat} {u : Task Job} (h : c.Waits i u) :
    u.stage.isPending = true := by
  obtain ⟨-, -, g, r, hs, -⟩ := h
  rw [hs]
  rfl

/-- Units that have not ended stand in line for their turns or wait. -/
def Scheduler.InLine (c : Scheduler Job) : Prop :=
  ∀ (i : Nat) (u : Task Job), c.units[i]? = some u → u.stage.isPending = true →
    i ∈ c.due ∨ c.Waits i u

/-- A unit that has not ended behind its turn stands in line again, or it waits at a closed gate. -/
theorem Task.Turns.in_line {opened : Setting → Bool} {i : Nat} {s s' : Core} {u u' : Task Job}
    (h : Turns opened i s u s' u') (hp : u'.stage.isPending = true) :
    (∃ w, u'.stage = .active (.due w)) ∨
      (u'.cancelling = false ∧
        ∃ g r, u'.stage = .active (.blocked g (.run r)) ∧ opened g = false) := by
  cases h with
  | waits hj hc h => exact .inr ⟨hc, _, _, rfl, Core.advanceJob_blocked h⟩
  | yields hj hc h => exact .inl ⟨_, rfl⟩
  | ends hj hc h => cases hp
  | dropped hs hc => cases hp
  | interrupted hs hc => cases hp
  | strays hs ha => cases hp
  | idle hs =>
    rcases hs with hs | hs
    · rw [hs] at hp
      cases hp
    · rw [hs] at hp
      cases hp

namespace Scheduler

variable {c : Scheduler Job} {i k : Nat} {u : Task Job}

/-! ## Operations of the scheduler -/

/-- Whoever stands in line or waits still does when another is kept. -/
theorem subset_enlist (c : Scheduler Job) (i : Nat) (a : Option (Activity Job)) :
    c.due ⊆ (c.enlist i a).due ∧ c.waiting ⊆ (c.enlist i a).waiting ∧
      (c.enlist i a).opened = c.opened := by
  rcases a with - | w | ⟨g, w⟩
  · exact ⟨fun _ h => h, fun _ h => h, rfl⟩
  · exact ⟨List.subset_append_left _ _, fun _ h => h, rfl⟩
  · exact ⟨fun _ h => h, List.subset_append_left _ _, rfl⟩

/-- A unit that has had its turn, while all others stood in line or waited. -/
theorem InLine.replace {s s' : Core}
    (h : ∀ (k : Nat) (v : Task Job), k ≠ i → c.units[k]? = some v → v.stage.isPending = true →
      k ∈ c.due ∨ c.Waits k v)
    (ht : Task.Turns c.isOpen i s u s' u') : (c.replace i u').InLine := by
  intro k v hk hp
  rw [replace_units, List.getElem?_set] at hk
  -- Keeping the unit adds its number to one of the lists and takes none away.
  obtain ⟨hdue, hwaiting, hopened⟩ :=
    subset_enlist { c with units := c.units.set i u' } i u'.stage.activity?
  split at hk
  next hki =>
    subst hki
    split at hk
    · obtain rfl := Option.some.inj hk
      rcases ht.in_line hp with ⟨w, hs⟩ | ⟨hc, g, r, hs, hg⟩
      · left
        simp [Scheduler.replace, hs, Stage.activity?, enlist]
      · refine .inr ⟨?_, hc, g, r, hs, ?_⟩
        · simp [Scheduler.replace, hs, Stage.activity?, enlist]
        · rw [isOpen, Scheduler.replace, hopened]
          exact hg
    · cases hk
  next hki =>
    rcases h k v (fun h => hki h.symm) hk hp with hd | ⟨hw, hc, g, r, hs, hg⟩
    · exact .inl (hdue hd)
    · refine .inr ⟨hwaiting hw, hc, g, r, hs, ?_⟩
      rw [isOpen, Scheduler.replace, hopened]
      exact hg

theorem foldl_makeDue (is : List Nat) (c : Scheduler Job) :
    (is.foldl makeDue c).due = c.due ∧ (is.foldl makeDue c).waiting = c.waiting ∧
      (is.foldl makeDue c).opened = c.opened ∧
      ∀ i, i ∉ is → (is.foldl makeDue c).units[i]? = c.units[i]? := by
  induction is generalizing c with
  | nil => exact ⟨rfl, rfl, rfl, fun _ _ => rfl⟩
  | cons k is ih =>
    obtain ⟨hd, hw, ho, hu⟩ := ih (c.makeDue k)
    refine ⟨hd, hw, ho, ?_⟩
    intro i hi
    have hik : k ≠ i := fun hik => hi (hik ▸ List.mem_cons_self)
    rw [List.foldl_cons, hu i fun h => hi (List.mem_cons_of_mem k h), makeDue, setStage,
      List.getElem?_modify_ne _ _ hik]

/-- Units that are let through an opened gate stand in line; the others wait at gates that are still
closed. -/
theorem InLine.release (h : c.InLine) (gate : Setting) : (c.release gate).InLine := by
  intro i u hu hp
  -- Opening a gate moves the numbers first and changes the units that were let through then.
  let atGate (i : Nat) : Bool := (c.gateOf? i).any gate.same
  let c₁ : Scheduler Job := { c with
    opened := if c.isOpen gate then c.opened else gate :: c.opened
    waiting := c.waiting.filter fun i => !atGate i
    due := c.due ++ c.waiting.filter atGate }
  obtain ⟨hdue, hwaiting, hopened, hunits⟩ := foldl_makeDue (c.waiting.filter atGate) c₁
  have hrelease : c.release gate = (c.waiting.filter atGate).foldl makeDue c₁ := rfl
  rw [hrelease] at hu ⊢
  by_cases hfreed : i ∈ c.waiting.filter atGate
  · left
    rw [hdue]
    exact List.mem_append_right _ hfreed
  · rw [hunits i hfreed] at hu
    rcases h i u hu hp with hd | ⟨hw, hc, g, r, hs, hg⟩
    · left
      rw [hdue]
      exact List.mem_append_left _ hd
    · -- The gate that was opened is not the one at which this unit waits.
      have hgate : c.gateOf? i = some g := by
        have hu' : c.units[i]? = some u := hu
        rw [gateOf?, hu']
        show u.stage.activity? >>= _ = _
        rw [hs]
        rfl
      have hat : atGate i = false :=
        Bool.eq_false_iff.mpr fun hat => hfreed (List.mem_filter.mpr ⟨hw, hat⟩)
      have hne : ¬ gate.same g = true := by
        simpa [atGate, hgate] using hat
      refine .inr ⟨?_, hc, g, r, hs, ?_⟩
      · rw [hwaiting]
        exact List.mem_filter.mpr ⟨hw, by rw [hat]; rfl⟩
      · rw [isOpen, hopened]
        have hne' : g.same gate = false :=
          Bool.eq_false_iff.mpr fun hsame => hne (Setting.same_equivalence.symm hsame)
        have hclosed : c.opened.any g.same = false := hg
        dsimp only [c₁]
        split
        · exact hclosed
        · rw [List.any_cons, hne', hclosed]
          rfl

/-- A unit whose cancellation is asked for stands in line. -/
theorem InLine.cancel (h : c.InLine) (k : Nat) : (c.cancel k).1.InLine := by
  unfold Scheduler.cancel
  split
  · exact h
  next v hv =>
    split
    next hpending =>
      intro i u hu hp
      -- Whether it waited makes a difference to where it is found only.
      have hset : (c.units.set k { v with cancelling := true })[i]? = some u := by
        dsimp only at hu
        split at hu <;> exact hu
      rw [List.getElem?_set] at hset
      split at hset
      next hki =>
        subst hki
        -- It stood in line before, or it waited and stands in line now.
        left
        dsimp only
        split
        · exact List.mem_append_right _ (List.mem_singleton_self _)
        next hw =>
          rcases h _ v hv hpending with hd | hwaits
          · exact hd
          · exact (hw hwaits.waiting).elim
      next hki =>
        rcases h i u hset hp with hd | ⟨hw, hc, g, r, hs, hg⟩
        · left
          dsimp only
          split
          · exact List.mem_append_left _ hd
          · exact hd
        · dsimp only
          split
          · refine .inr ⟨List.mem_filter.mpr ⟨hw, ?_⟩, hc, g, r, hs, hg⟩
            simpa using fun h => hki h.symm
          · exact .inr ⟨hw, hc, g, r, hs, hg⟩
    · exact h

end Scheduler

/-! ## Steps of a bot -/

namespace Bot

variable {b b' : Bot}

theorem in_line_turn (hb : b.Owned) (h : b.units.InLine) (k : Nat) {due : List Nat}
    (hdue : due = b.units.due ∨ b.units.due = k :: due) :
    ((b.withDue due).turn k).units.InLine := by
  -- The unit that has its turn may leave the line; the others stand where they stood.
  have hothers (i : Nat) (u : Task Job) (hik : i ≠ k) (hu : b.units.units[i]? = some u)
      (hp : u.stage.isPending = true) : i ∈ due ∨ (b.withDue due).units.Waits i u := by
    rcases h i u hu hp with hd | ⟨hw, hc, hclosed⟩
    · left
      rcases hdue with rfl | hdue
      · exact hd
      · rw [hdue] at hd
        exact (List.mem_cons.mp hd).resolve_left hik
    · exact .inr ⟨hw, hc, hclosed⟩
  obtain ⟨hk, hturn⟩ | ⟨u, u', hk, ht, hunits⟩ := hb.turn_cases k due
  · rw [hturn]
    intro i u hu hp
    refine hothers i u ?_ hu hp
    rintro rfl
    cases hk.symm.trans hu
  · rw [hunits]
    exact .replace hothers ht

/-- **No unit is lost** in a step. -/
theorem Step.in_line (hb : b.Owned) (h : b.units.InLine) (hs : b.Step b') : b'.units.InLine := by
  cases hs with
  | manage hm =>
    rw [hm.tells.1]
    exact h
  | tick ht =>
    cases ht with
    | turn k due hdue => exact in_line_turn hb h k hdue
    | release gate => exact h.release gate
    | cancel k => exact h.cancel k
    | untrack =>
      intro i u hu hp
      rcases h i u hu hp with hd | ⟨hw, hc, hclosed⟩
      · exact .inl hd
      · exact .inr ⟨hw, hc, hclosed⟩
    | aside ha => exact h
    -- A new unit stands behind all others.
    | enrol text m =>
      intro i u hu hp
      obtain ⟨n, hunits, -⟩ := b.enrol_eq text m
      rw [hunits, List.getElem?_append] at hu
      have hdue : (b.enrol text m).units.due = b.units.due ++ [b.units.units.length] := rfl
      split at hu
      · rcases h i u hu hp with hd | ⟨hw, hc, hclosed⟩
        · left
          rw [hdue]
          exact List.mem_append_left _ hd
        · exact .inr ⟨hw, hc, hclosed⟩
      · left
        rw [List.getElem?_singleton] at hu
        split at hu
        next hz =>
          obtain rfl : i = b.units.units.length := by omega
          rw [hdue]
          exact List.mem_append_right _ (List.mem_singleton_self _)
        · cases hu

/-- **No unit is lost**, whatever happens. -/
theorem Reached.in_line (h : b.Reached) : b.units.InLine := by
  obtain ⟨b₀, h₀, hsteps⟩ := h
  induction hsteps with
  | refl =>
    intro i u hu
    rw [h₀.units] at hu
    cases hu
  | tail hs hstep ih => exact hstep.in_line (h₀.owned.steps hs) ih

/-- Where nobody stands in line all units that have not ended wait. -/
theorem Reached.waits {i : Nat} {u : Task Job} (h : b.Reached) (hdue : b.units.due = [])
    (hu : b.units.units[i]? = some u) (hp : u.stage.isPending = true) : b.units.Waits i u := by
  refine (h.in_line i u hu hp).resolve_left ?_
  rw [hdue]
  exact List.not_mem_nil

end Bot

end ChatCommands
