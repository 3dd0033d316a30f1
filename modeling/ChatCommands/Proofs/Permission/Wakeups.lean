import ChatCommands.Proofs.Permission.Exclusion

/-!
# The lock loses no notification

A thread that sleeps is notified only when the last reader or a writer leaves; a writer that comes
inside lowers the number of those that wait and notifies nobody. Still no thread is forgotten:
whoever sleeps without having been notified since it last checked is kept out by somebody, who will
leave or come inside. All else follows from that. Where nobody is inside, nothing is left that could
keep a writer out, so that every writer that waits has been notified.

## Main definitions

* `Lock.Heeded`: whoever has not been notified is kept out
* `Lock.Vacant`: nobody is inside
* `Lock.Ready`: a thread that has been notified and is not kept out
* `Lock.Proceeds`: steps that need no new thread and no waking without a notification

## Main results

* `Lock.Reached.heeded`: nobody is forgotten
* `Lock.Ready.steps`: a thread that is ready stays so while nobody is inside
* `Lock.Reached.proceeds`: a thread that waits is let in
* `lock_wakes`: all of it for every lock that can be come to
-/

namespace ChatCommands

open Relation (ReflTransGen)

/-- How many steps a thread has before it: to come inside and to leave. -/
def Phase.toGo : Phase → Nat
  | asleep _ _ => 2
  | inside _ => 1
  | gone => 0

theorem Phase.toGo_notify (p : Phase) : p.notify.toGo = p.toGo := by
  cases p <;> rfl

namespace Lock

variable {l l' : Lock} {i k : Nat} {p p' : Phase} {a : Access}

/-- Whoever sleeps and has not been notified since it last checked is kept out. -/
def Heeded (l : Lock) : Prop := ∀ i a, l.At i (.asleep a false) → l.blocked a = true

/-- No thread is inside. -/
def Vacant (l : Lock) : Prop := ∀ i a, ¬ l.At i (.inside a)

/-- The thread sleeps, has been notified, and will not be kept out when it checks. -/
def Ready (l : Lock) (i : Nat) (a : Access) : Prop :=
  l.At i (.asleep a true) ∧ l.blocked a = false

/-- A thread leaves, or one that has been notified checks. -/
inductive Proceeds (l : Lock) : Lock → Prop where
  | leave {i : Nat} {a : Access} (hi : l.At i (.inside a)) : Proceeds l (l.leave i)
  | check {i : Nat} {a : Access} (hi : l.At i (.asleep a true)) : Proceeds l (l.recheck i)

theorem Proceeds.step (h : Proceeds l l') : Step l l' := by
  cases h with
  | leave => exact .leave _
  | check => exact .recheck _

/-! ## Nobody is forgotten -/

theorem notify_ne_asleep (p : Phase) (a : Access) : p.notify ≠ .asleep a false := by
  cases p <;> simp [Phase.notify]

/-- Whoever is kept out is kept out where more threads are inside and waiting. -/
theorem blocked_mono (hw : l.writer = true → l'.writer = true) (hr : l.readers ≤ l'.readers)
    (hq : l.writersWaiting ≤ l'.writersWaiting) (h : l.blocked a = true) :
    l'.blocked a = true := by
  cases a <;> simp only [blocked, Bool.or_eq_true, decide_eq_true_iff] at h ⊢ <;>
    exact h.imp hw (by omega)

/-- After a move whoever was kept out still is, or all who sleep have been notified. -/
theorem Moves.blocked_or_notified (hm : l.Moves i l') :
    (∀ a, l.blocked a = true → l'.blocked a = true) ∨ ∀ k a, ¬ l'.At k (.asleep a false) := by
  have hnotified (ps : List Phase) (k : Nat) (a : Access) :
      (ps.map Phase.notify)[k]? ≠ some (.asleep a false) := by
    rw [List.getElem?_map, Ne, Option.map_eq_some_iff]
    rintro ⟨p, -, h⟩
    exact notify_ne_asleep p a h
  cases hm with
  | leavesLast hi hlast => exact .inr (hnotified _)
  | leavesWrite hi => exact .inr (hnotified _)
  | sleeps hi hb => exact .inl fun _ h => h
  | reads hi hb => exact .inl fun _ => blocked_mono id (Nat.le_succ _) (Nat.le_refl _)
  | writes hi hb => exact .inl fun a _ => by cases a <;> simp [blocked]
  | leaves hi hr =>
    -- A reader is left that keeps writers out, and readers were kept out for no reader's sake.
    left
    rintro (_ | _) h
    · exact h
    · simp [blocked, hr]

/-- It is enough that nobody but the one that moves was forgotten. -/
theorem Moves.heeded (hm : l.Moves i l')
    (h : ∀ k a, k ≠ i → l.At k (.asleep a false) → l.blocked a = true) : l'.Heeded := by
  intro k a hk
  rcases hm.blocked_or_notified with hb | hnone
  · apply hb
    by_cases hki : k = i
    · subst hki
      cases hm.moved with
      | sleeps hi hb hi' =>
        cases hi'.unique hk
        exact hb
      | enters hi hb hi' => cases hi'.unique hk
      | leaves hi hi' => cases hi'.unique hk
    · apply h k a hki
      rcases hm.before hki hk with hk | ⟨p, -, hnotify⟩
      · exact hk
      · exact (notify_ne_asleep p a hnotify).elim
  · exact (hnone k a hk).elim

/-- **Nobody is forgotten** in a step. A thread that comes may be kept out by nobody, but it is the
one that moves. -/
theorem Heeded.step (h : l.Heeded) (hs : Step l l') : l'.Heeded := by
  obtain rfl | ⟨i, hm⟩ | ⟨b, hm⟩ := hs.moves
  · exact h
  · exact hm.heeded fun k a _ hk => h k a hk
  · refine hm.heeded fun k a hki hk => ?_
    have hk := ((l.arrive_at_iff b).mp hk).resolve_right fun hnew => hki hnew.1
    exact blocked_mono (l := l) id (Nat.le_refl _) (Nat.le_add_right _ _) (h k a hk)

/-- **Nobody is ever forgotten.** -/
theorem Reached.heeded (h : l.Reached) : l.Heeded := by
  induction h with
  | refl => exact fun i a hi => nomatch hi
  | tail _ hs ih => exact ih.step hs

/-! ## Who keeps a thread out -/

theorem exists_of_count_pos {q : Phase → Bool} (h : 0 < l.count q) :
    ∃ i p, l.At i p ∧ q p = true := by
  obtain ⟨p, hp, hq⟩ := List.countP_pos_iff.mp h
  obtain ⟨i, hi⟩ := List.mem_iff_getElem?.mp hp
  exact ⟨i, p, hi, hq⟩

theorem exists_inside (h : 0 < l.inside a) : ∃ i, l.At i (.inside a) := by
  obtain ⟨i, p, hi, hp⟩ := exists_of_count_pos h
  rw [decide_eq_true_iff] at hp
  exact ⟨i, hp ▸ hi⟩

theorem exists_waits (h : 0 < l.waiting a) : ∃ i, l.Waits i a := by
  rw [waiting_eq_count] at h
  obtain ⟨i, p, hi, hp⟩ := exists_of_count_pos h
  cases p with
  | asleep b n =>
    rw [Phase.waitsFor, decide_eq_true_iff] at hp
    exact ⟨i, n, hp ▸ hi⟩
  | inside b => cases hp
  | gone => cases hp

namespace Tallied

theorem exists_of_writer (h : l.Tallied) (hw : l.writer = true) : ∃ i, l.At i (.inside .write) := by
  refine exists_inside ?_
  rw [← h.writer, hw]
  exact Nat.one_pos

/-- A reader is kept out by a writer, inside or waiting. -/
theorem blocked_read (h : l.Tallied) (hb : l.blocked .read = true) :
    (∃ i, l.At i (.inside .write)) ∨ ∃ i, l.Waits i .write := by
  simp only [blocked, Bool.or_eq_true, decide_eq_true_iff] at hb
  rcases hb with hw | hq
  · exact .inl (h.exists_of_writer hw)
  · right
    refine exists_waits ?_
    rw [← h.waiting]
    exact Nat.pos_of_ne_zero hq

/-- A writer is kept out by whoever is inside. -/
theorem blocked_write (h : l.Tallied) (hb : l.blocked .write = true) :
    ∃ i a, l.At i (.inside a) := by
  simp only [blocked, Bool.or_eq_true, decide_eq_true_iff] at hb
  rcases hb with hw | hr
  · obtain ⟨i, hi⟩ := h.exists_of_writer hw
    exact ⟨i, .write, hi⟩
  · rw [h.readers] at hr
    obtain ⟨i, hi⟩ := exists_inside (Nat.pos_of_ne_zero hr)
    exact ⟨i, .read, hi⟩

end Tallied

/-! ## A thread that is ready -/

theorem Vacant.blocked_write (h : l.Vacant) (ht : l.Tallied) : l.blocked .write = false := by
  rw [← Bool.not_eq_true]
  intro hb
  obtain ⟨i, a, hi⟩ := ht.blocked_write hb
  exact h i a hi

theorem Vacant.blocked_read (h : l.Vacant) (ht : l.Tallied) (hnone : ∀ i, ¬ l.Waits i .write) :
    l.blocked .read = false := by
  rw [← Bool.not_eq_true]
  intro hb
  rcases ht.blocked_read hb with ⟨i, hi⟩ | ⟨i, hi⟩
  · exact h i _ hi
  · exact hnone i hi

/-- Whoever waits and is not kept out has been notified. -/
theorem Heeded.ready (h : l.Heeded) (hi : l.Waits i a) (hb : l.blocked a = false) :
    l.Ready i a := by
  obtain ⟨n, hi⟩ := hi
  cases n with
  | true => exact ⟨hi, hb⟩
  | false => cases hb.symm.trans (h i a hi)

/-- Where some thread waits and nobody is inside a thread is ready: a writer if one waits. -/
theorem Vacant.exists_ready (hv : l.Vacant) (h : l.Reached) (hk : l.Waits k a) :
    ∃ i b, l.Ready i b := by
  -- A reader may be kept out by a writer that waits, but then that writer is ready.
  by_cases hw : ∃ i, l.Waits i .write
  · obtain ⟨i, hi⟩ := hw
    exact ⟨i, .write, h.heeded.ready hi (hv.blocked_write h.tallied)⟩
  · have hnone := not_exists.mp hw
    cases a with
    | read => exact ⟨k, .read, h.heeded.ready hk (hv.blocked_read h.tallied hnone)⟩
    | write => exact (hnone k hk).elim

/-- A thread that has moved has not been notified since. -/
theorem Moves.not_notified (hm : l.Moves i l') : ¬ l'.At i (.asleep a true) := by
  intro hi
  cases hm.moved with
  | sleeps _ _ hi' => cases hi'.unique hi
  | enters _ _ hi' => cases hi'.unique hi
  | leaves _ hi' => cases hi'.unique hi

theorem Moves.waited (hm : l.Moves k l') (hi : l'.At i (.asleep a true)) : l.Waits i a := by
  have hik : i ≠ k := by
    rintro rfl
    exact hm.not_notified hi
  rcases hm.before hik hi with hi | ⟨p, hp, hnotify⟩
  · exact ⟨true, hi⟩
  · cases p with
    | asleep b n =>
      cases hnotify
      exact ⟨n, hp⟩
    | inside | gone => cases hnotify

/-- A thread that has been notified waited before the step. -/
theorem Step.waited (hs : Step l l') (hi : l'.At i (.asleep a true)) : l.Waits i a := by
  obtain rfl | ⟨k, hm⟩ | ⟨b, hm⟩ := hs.moves
  · exact ⟨true, hi⟩
  · exact hm.waited hi
  · obtain ⟨n, hn⟩ := hm.waited hi
    rcases (l.arrive_at_iff b).mp hn with hn | ⟨rfl, -⟩
    · exact ⟨n, hn⟩
    · exact (hm.not_notified hi).elim

/-- The next check of a thread that is ready lets it in. -/
theorem Ready.enters (h : l.Ready i a) : (l.recheck i).At i (.inside a) := by
  obtain ⟨hi, hb⟩ := h
  cases (recheck_asleep hi).moved with
  | sleeps hi' hb' =>
    obtain ⟨n, hi'⟩ := hi'
    cases hi'.unique hi
    cases hb.symm.trans hb'
  | enters hi' hb' hin =>
    obtain ⟨n, hi'⟩ := hi'
    cases hi'.unique hi
    exact hin
  | leaves hi' => cases hi'.unique hi

theorem leave_gone (hi : l.At i (.inside a)) : (l.leave i).At i .gone := by
  cases (leave_inside hi).moved with
  | sleeps hi' =>
    obtain ⟨n, hi'⟩ := hi'
    cases hi'.unique hi
  | enters hi' =>
    obtain ⟨n, hi'⟩ := hi'
    cases hi'.unique hi
  | leaves _ hgone => exact hgone

/-- A thread that is ready stays so while nobody comes inside. -/
theorem Ready.step (h : l.Ready i a) (hl : l.Reached) (hs : Step l l') (hv : l'.Vacant) :
    l'.Ready i a := by
  have hl' : l'.Reached := hl.tail hs
  have hi' := (hs.waits ⟨true, h.1⟩).resolve_right (hv i a)
  refine hl'.heeded.ready hi' ?_
  cases a with
  | write => exact hv.blocked_write hl'.tallied
  | read =>
    -- A writer that waited now would have been notified, so it would have waited before.
    refine hv.blocked_read hl'.tallied fun k hk => ?_
    obtain ⟨hk, -⟩ := hl'.heeded.ready hk (hv.blocked_write hl'.tallied)
    have hpos := hl.tallied.writersWaiting_pos (hs.waited hk)
    have hb := h.2
    simp only [blocked, Bool.or_eq_false_iff, decide_eq_false_iff_not, not_not] at hb
    omega

theorem Ready.steps (h : l.Ready i a) (hl : l.Reached)
    (hs : ReflTransGen (fun x y => Step x y ∧ y.Vacant) l l') : l'.Ready i a := by
  suffices hboth : l'.Reached ∧ l'.Ready i a from hboth.2
  induction hs with
  | refl => exact ⟨hl, h⟩
  | tail _ hstep ih => exact ⟨ih.1.tail hstep.1, ih.2.step ih.1 hstep.1 hstep.2⟩

/-! ## Whoever waits is let in -/

/-- How many steps the threads have before them. -/
def stepsLeft (l : Lock) : Nat := l.count (0 < ·.toGo) + l.count (1 < ·.toGo)

theorem Moves.count_eq {q : Phase → Bool} (hq : ∀ p : Phase, q p.notify = q p)
    (hm : l.Moves i l') (hi : l.At i p) (hi' : l'.At i p') :
    l'.count q + (q p).toNat = l.count q + (q p').toNat := by
  obtain ⟨r, hr⟩ := hm.threads_eq
  have hset : (l.threads.set i r)[i]? = some r := List.getElem?_set_self hi.lt_length
  have hqr : q r = q p' := by
    unfold At at hi'
    rcases hr with h | h
    · rw [h, hset] at hi'
      rw [Option.some.inj hi']
    · rw [h, List.getElem?_map, hset] at hi'
      rw [← Option.some.inj hi', hq]
  rw [← hqr]
  exact count_moved hq hi hr

theorem Moves.stepsLeft_add (hm : l.Moves i l') (hi : l.At i p) (hi' : l'.At i p') :
    l'.stepsLeft + p.toGo = l.stepsLeft + p'.toGo := by
  have hcount (n : Nat) := hm.count_eq (q := (n < ·.toGo)) (fun p => by rw [p.toGo_notify]) hi hi'
  have htoGo (p : Phase) : (decide (0 < p.toGo)).toNat + (decide (1 < p.toGo)).toNat = p.toGo := by
    cases p <;> rfl
  have hbefore := htoGo p
  have hafter := htoGo p'
  have h₀ := hcount 0
  have h₁ := hcount 1
  unfold stepsLeft
  omega

/-- **Whoever waits is let in** once those inside leave and those that have been notified check. -/
theorem Reached.proceeds (h : l.Reached) (hk : l.Waits k a) :
    ∃ l', ReflTransGen Proceeds l l' ∧ l'.At k (.inside a) := by
  -- Every such step takes one off those that are left, and there is one as long as a thread waits.
  induction hn : l.stepsLeft using Nat.strongRecOn generalizing l with
  | _ n ih =>
    have goOn {m : Lock} (hp : Proceeds l m) (hlt : m.stepsLeft < l.stepsLeft) :
        ∃ l', ReflTransGen Proceeds l l' ∧ l'.At k (.inside a) := by
      rcases hp.step.waits hk with hk | hk
      · obtain ⟨l', hs, hin⟩ := ih _ (hn ▸ hlt) (h.tail hp.step) hk rfl
        exact ⟨l', .head hp hs, hin⟩
      · exact ⟨m, .single hp, hk⟩
    by_cases hv : l.Vacant
    · obtain ⟨i, b, hi⟩ := hv.exists_ready h hk
      have hless := (recheck_asleep hi.1).stepsLeft_add hi.1 hi.enters
      refine goOn (.check hi.1) ?_
      simp only [Phase.toGo] at hless
      omega
    · obtain ⟨i, hi⟩ := not_forall.mp hv
      obtain ⟨b, hi⟩ := not_forall_not.mp hi
      have hless := (leave_inside hi).stepsLeft_add hi (leave_gone hi)
      refine goOn (.leave hi) ?_
      simp only [Phase.toGo] at hless
      omega

end Lock

/-- **The lock loses no notification.** However many threads come, check and leave in whatever
order, a reader that sleeps and has not been notified since it last checked is kept out by a writer
that is inside or waits, and such a writer by a thread that is inside. So where some thread waits
and nobody is inside there is one that has been notified and that its next check lets in, whatever
happens until somebody is inside. Every thread that waits can be let in by nothing but threads that
leave and threads that check because they have been notified. -/
theorem lock_wakes {l : Lock} (h : l.Reached) :
    (∀ i, l.At i (.asleep .read false) →
        (∃ k, l.At k (.inside .write)) ∨ ∃ k, l.Waits k .write) ∧
      (∀ i, l.At i (.asleep .write false) → ∃ k a, l.At k (.inside a)) ∧
      (∀ k a, l.Waits k a → l.Vacant → ∃ i b, l.At i (.asleep b true) ∧
        ∀ l', ReflTransGen (fun x y => Lock.Step x y ∧ y.Vacant) l l' →
          l'.At i (.asleep b true) ∧ (l'.recheck i).At i (.inside b)) ∧
      ∀ k a, l.Waits k a → ∃ l', ReflTransGen Lock.Proceeds l l' ∧ l'.At k (.inside a) := by
  refine ⟨?_, ?_, ?_, fun k a hk => h.proceeds hk⟩
  · intro i hi
    exact h.tallied.blocked_read (h.heeded i _ hi)
  · intro i hi
    exact h.tallied.blocked_write (h.heeded i _ hi)
  · intro k a hk hv
    obtain ⟨i, b, hi⟩ := hv.exists_ready h hk
    refine ⟨i, b, hi.1, fun l' hs => ?_⟩
    have hi' := hi.steps h hs
    exact ⟨hi'.1, hi'.enters⟩

/-- A writer and a reader wait for the writer inside. It leaves, and the reader checks before the
writer does and sleeps again: it has to be notified anew, and will be. -/
theorem lock_wakes_handover :
    ∃ l l' : Lock, l.Reached ∧
      l.threads = [.inside .write, .asleep .write false, .asleep .read false] ∧
      (∃ k a, l.At k (.inside a)) ∧
      ReflTransGen Lock.Step l l' ∧ l'.Vacant ∧
      l'.threads = [.gone, .asleep .write true, .asleep .read false] ∧
      (∃ k, l'.Waits k .write) ∧
      (∃ i b, l'.At i (.asleep b true) ∧ (l'.recheck i).At i (.inside b)) ∧
      ∃ l'', ReflTransGen Lock.Proceeds l' l'' ∧ l''.At 2 (.inside .read) := by
  let l : Lock := ((({} : Lock).ask .write).ask .write).ask .read
  let l' := (l.leave 0).recheck 2
  have hl : l.Reached := .tail (.tail (.single (.ask .write)) (.ask .write)) (.ask .read)
  have hs : ReflTransGen Lock.Step l l' := .tail (.single (.leave 0)) (.recheck 2)
  have hvacant : l'.Vacant := by
    rintro (_ | _ | _ | i) a hi <;> cases hi
  obtain ⟨-, hwriter, -⟩ := lock_wakes hl
  obtain ⟨hreader, -, hready, hproceeds⟩ := lock_wakes (hl.steps hs)
  obtain ⟨i, b, hi, hstays⟩ := hready 2 .read ⟨false, rfl⟩ hvacant
  exact ⟨l, l', hl, rfl, hwriter 1 rfl, hs, hvacant, rfl,
    (hreader 2 rfl).resolve_left fun ⟨k, hk⟩ => hvacant k _ hk,
    ⟨i, b, hi, (hstays l' .refl).2⟩, hproceeds 2 .read ⟨false, rfl⟩⟩

end ChatCommands
