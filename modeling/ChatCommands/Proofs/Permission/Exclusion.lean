import ChatCommands.Permission.Lock
import Mathlib.Data.List.Basic
import Mathlib.Logic.Relation

/-!
# Readers share the lock and a writer holds it alone

Any number of threads ask for the lock, wake up and check again, and leave, in any order. The lock
itself knows nothing of them but three counters. Here the counters are tied to what the threads are
doing: from that it follows who can be inside together, and that no reader overtakes a writer that
waits.

A thread that asks for the lock may be seen as one that has come, counts as waiting, and checks for
the first time in the same step. So all there is to a step is a check or a leave.

## Main definitions

* `Lock.Reached`: locks that can be come to from one that nobody has asked for
* `Lock.Moves`: what comes of a thread that checks or leaves
* `Lock.Tallied`: the counters are right
* `Lock.WaitsUntil`: steps while a thread waits to write

## Main results

* `Lock.Step.moves`: a step is a move of one thread, or nothing
* `Lock.Reached.tallied`: the counters are always right
* `Lock.Tallied.no_reader_enters`: no reader comes inside while a writer waits
* `lock_excludes`: all of it for every lock that can be come to
-/

namespace ChatCommands

open Relation (ReflTransGen)

/-- Whether a thread waits for access. -/
def Phase.waitsFor (a : Access) : Phase → Bool
  | asleep b _ => b = a
  | _ => false

namespace Lock

variable {l l' : Lock} {i k : Nat} {p p' : Phase} {a : Access}

/-- A lock that can be come to from one that nobody has asked for. -/
def Reached (l : Lock) : Prop := ReflTransGen Step {} l

/-- The thread of a number is in this phase. -/
def At (l : Lock) (i : Nat) (p : Phase) : Prop := l.threads[i]? = some p

/-- The thread of a number waits for access. -/
def Waits (l : Lock) (i : Nat) (a : Access) : Prop := ∃ notified, l.At i (.asleep a notified)

/-- A new thread that counts as waiting and has not checked yet. -/
def arrive (l : Lock) (a : Access) : Lock :=
  { l with
    writersWaiting := l.writersWaiting + if a = .write then 1 else 0
    threads := l.threads ++ [.asleep a false] }

/-- What comes of the thread `i` when it checks or leaves. -/
inductive Moves (i : Nat) (l : Lock) : Lock → Prop where
  /-- It has to wait, and sleeps again. -/
  | sleeps {a : Access} {n : Bool} (hi : l.At i (.asleep a n)) (hb : l.blocked a = true) :
    Moves i l { l with threads := l.threads.set i (.asleep a false) }
  | reads {n : Bool} (hi : l.At i (.asleep .read n)) (hb : l.blocked .read = false) :
    Moves i l { l with readers := l.readers + 1, threads := l.threads.set i (.inside .read) }
  | writes {n : Bool} (hi : l.At i (.asleep .write n)) (hb : l.blocked .write = false) :
    Moves i l { l with
      writersWaiting := l.writersWaiting - 1
      writer := true
      threads := l.threads.set i (.inside .write) }
  /-- It leaves other readers behind, and nobody is notified. -/
  | leaves (hi : l.At i (.inside .read)) (hr : l.readers - 1 ≠ 0) :
    Moves i l { l with readers := l.readers - 1, threads := l.threads.set i .gone }
  | leavesLast (hi : l.At i (.inside .read)) (hr : l.readers - 1 = 0) :
    Moves i l { l with
      readers := l.readers - 1
      threads := (l.threads.set i .gone).map Phase.notify }
  | leavesWrite (hi : l.At i (.inside .write)) :
    Moves i l { l with
      writer := false
      threads := (l.threads.set i .gone).map Phase.notify }

/-! ## What a step can do -/

/-- A thread that is asleep checks. -/
theorem recheck_asleep {n : Bool} (hi : l.At i (.asleep a n)) : l.Moves i (l.recheck i) := by
  unfold recheck
  rw [show l.threads[i]? = some (.asleep a n) from hi]
  dsimp only
  split
  next hb => exact .sleeps hi hb
  next hb =>
    rw [Bool.not_eq_true] at hb
    cases a with
    | read => exact .reads hi hb
    | write => exact .writes hi hb

/-- A thread that is inside leaves. -/
theorem leave_inside (hi : l.At i (.inside a)) : l.Moves i (l.leave i) := by
  unfold leave
  rw [show l.threads[i]? = some (.inside a) from hi]
  cases a with
  | read =>
    dsimp only
    split
    next hr => exact .leavesLast hi hr
    next hr => exact .leaves hi hr
  | write => exact .leavesWrite hi

theorem recheck_moves (l : Lock) (i : Nat) : l.recheck i = l ∨ l.Moves i (l.recheck i) := by
  rcases hi : l.threads[i]? with - | ⟨a, n⟩ | a | -
  case some.asleep => exact .inr (recheck_asleep hi)
  all_goals
    left
    rw [recheck, hi]

theorem leave_moves (l : Lock) (i : Nat) : l.leave i = l ∨ l.Moves i (l.leave i) := by
  rcases hi : l.threads[i]? with - | ⟨a, n⟩ | a | -
  case some.inside => exact .inr (leave_inside hi)
  all_goals
    left
    rw [leave, hi]

theorem arrive_at (l : Lock) (a : Access) : (l.arrive a).At l.threads.length (.asleep a false) := by
  simp [At, arrive]

/-- To ask for the lock is to come and to check at once. -/
theorem ask_eq (l : Lock) (a : Access) : l.ask a = (l.arrive a).recheck l.threads.length := by
  have hi := l.arrive_at a
  simp only [At, arrive] at hi
  cases a <;> simp only [ask, recheck, arrive, hi] <;> split <;> simp_all [blocked, enter]

/-- **A step** is the move of a thread, which may have come just now, or nothing. -/
theorem Step.moves (h : Step l l') :
    l' = l ∨ (∃ i, l.Moves i l') ∨ ∃ a, (l.arrive a).Moves l.threads.length l' := by
  cases h with
  | ask a =>
    rw [ask_eq]
    exact .inr (.inr ⟨a, recheck_asleep (l.arrive_at a)⟩)
  | recheck i =>
    rcases l.recheck_moves i with h | h
    · exact .inl h
    · exact .inr (.inl ⟨i, h⟩)
  | leave i =>
    rcases l.leave_moves i with h | h
    · exact .inl h
    · exact .inr (.inl ⟨i, h⟩)

/-! ## Where threads are after a move -/

theorem At.lt_length (hi : l.At i p) : i < l.threads.length :=
  (List.getElem?_eq_some_iff.mp hi).1

theorem At.unique (hi : l.At i p) (hi' : l.At i p') : p' = p :=
  Option.some.inj (hi'.symm.trans hi)

/-! ## The counters -/

/-- The counters are right: they count the threads that are inside and the writers that wait. Both
kinds of threads are not inside together. -/
structure Tallied (l : Lock) : Prop where
  readers : l.readers = l.inside .read
  writer : l.writer.toNat = l.inside .write
  waiting : l.writersWaiting = l.waiting .write
  alone : l.writer = true → l.readers = 0

theorem count_pos {q : Phase → Bool} (hi : l.At i p) (hq : q p = true) : 0 < l.count q :=
  List.countP_pos_iff.mpr ⟨p, List.mem_of_getElem? hi, hq⟩

theorem waiting_eq_count (l : Lock) (a : Access) : l.waiting a = l.count (Phase.waitsFor a) := by
  refine congrArg l.count (funext fun p => ?_)
  rcases p with ⟨b, - | -⟩ | b | - <;> simp [Phase.waitsFor]

namespace Tallied

/-- A thread that is inside to read is counted, so that it can be taken from the readers. -/
theorem readers_pos (h : l.Tallied) (hi : l.At i (.inside .read)) : 0 < l.readers := by
  rw [h.readers]
  exact count_pos hi (by simp)

theorem writer_eq_true (h : l.Tallied) (hi : l.At i (.inside .write)) : l.writer = true := by
  have hpos : 0 < l.inside .write := count_pos hi (by simp)
  rw [← h.writer] at hpos
  cases hw : l.writer with
  | false =>
    rw [hw] at hpos
    cases hpos
  | true => rfl

/-- A thread that waits to write is counted, so that it can be taken from those that wait. -/
theorem writersWaiting_pos (h : l.Tallied) (hi : l.Waits i .write) : 0 < l.writersWaiting := by
  obtain ⟨n, hi⟩ := hi
  rw [h.waiting, waiting_eq_count]
  exact count_pos hi (by simp [Phase.waitsFor])

/-- A reader that leaves takes itself from the readers. -/
theorem leave_readers (h : l.Tallied) (hi : l.At i (.inside .read)) :
    (l.leave i).readers + 1 = l.readers := by
  have hpos := h.readers_pos hi
  have hreaders : (l.leave i).readers = l.readers - 1 := by
    simp only [leave, show l.threads[i]? = some (.inside .read) from hi]
    split <;> rfl
  omega

/-- A writer that comes inside takes itself from those that wait. -/
theorem recheck_writersWaiting (h : l.Tallied) (hi : l.Waits i .write)
    (hb : l.blocked .write = false) : (l.recheck i).writersWaiting + 1 = l.writersWaiting := by
  have hpos := h.writersWaiting_pos hi
  obtain ⟨n, hi⟩ := hi
  have hwaiting : (l.recheck i).writersWaiting = l.writersWaiting - 1 := by
    simp [recheck, show l.threads[i]? = some (.asleep .write n) from hi, hb, enter]
  omega

end Tallied

/-- A thread that goes on to another phase is counted there. A notification makes no difference to
who is inside and who waits. -/
theorem count_moved {q : Phase → Bool} (hq : ∀ p : Phase, q p.notify = q p) (hi : l.At i p)
    (h : l'.threads = l.threads.set i p' ∨ l'.threads = (l.threads.set i p').map Phase.notify) :
    l'.count q + (q p).toNat = l.count q + (q p').toNat := by
  have hcount : l'.count q = (l.threads.set i p').countP q := by
    rcases h with h | h
    · rw [count, h]
    · rw [count, h, List.countP_map]
      exact congrArg (List.countP · _) (funext hq)
  -- One element of the list is another one now; where the old one counted, it can be taken off.
  obtain ⟨hlt, hp⟩ := List.getElem?_eq_some_iff.mp hi
  have hset := List.countP_set (p := q) (a := p') hlt
  rw [hp] at hset
  rw [hcount, hset]
  cases hqp : q p with
  | false => cases q p' <;> rfl
  | true =>
    have hpos : 0 < l.threads.countP q := count_pos hi hqp
    rw [if_pos rfl, Bool.toNat_true, count]
    cases q p' <;> simp <;> omega

theorem inside_moved (hi : l.At i p)
    (h : l'.threads = l.threads.set i p' ∨ l'.threads = (l.threads.set i p').map Phase.notify)
    (a : Access) :
    l'.inside a + (decide (p = .inside a)).toNat = l.inside a + (decide (p' = .inside a)).toNat :=
  count_moved (fun p => by cases p <;> simp [Phase.notify]) hi h

/-- The counters are right if they change as the thread does that goes on. -/
theorem Tallied.moved (h : l.Tallied) (hi : l.At i p)
    (ht : l'.threads = l.threads.set i p' ∨ l'.threads = (l.threads.set i p').map Phase.notify)
    (hr : l'.readers + (decide (p = .inside .read)).toNat =
      l.readers + (decide (p' = .inside .read)).toNat)
    (hw : l'.writer.toNat + (decide (p = .inside .write)).toNat =
      l.writer.toNat + (decide (p' = .inside .write)).toNat)
    (hq : l'.writersWaiting + (p.waitsFor .write).toNat =
      l.writersWaiting + (p'.waitsFor .write).toNat)
    (ha : l'.writer = true → l'.readers = 0) : l'.Tallied := by
  have hread := inside_moved hi ht .read
  have hwrite := inside_moved hi ht .write
  have hwaiting := count_moved (q := Phase.waitsFor .write) (fun p => by cases p <;> rfl) hi ht
  rw [← waiting_eq_count, ← waiting_eq_count] at hwaiting
  rw [← h.readers] at hread
  rw [← h.writer] at hwrite
  rw [← h.waiting] at hwaiting
  exact ⟨by omega, by omega, by omega, ha⟩

/-- **The counters stay right** when a thread checks or leaves. -/
theorem Tallied.moves (h : l.Tallied) (hm : l.Moves i l') : l'.Tallied := by
  cases hm with
  | @sleeps a n hi hb =>
    exact h.moved hi (.inl rfl) rfl rfl rfl h.alone
  | reads hi hb =>
    simp only [blocked, Bool.or_eq_false_iff] at hb
    refine h.moved hi (.inl rfl) rfl rfl rfl ?_
    intro hwriter
    cases hb.1.symm.trans hwriter
  | writes hi hb =>
    simp only [blocked, Bool.or_eq_false_iff, decide_eq_false_iff_not, not_not] at hb
    have hpos := h.writersWaiting_pos ⟨_, hi⟩
    refine h.moved hi (.inl rfl) rfl ?_ ?_ fun _ => hb.2
    · rw [hb.1]
      rfl
    · show l.writersWaiting - 1 + 1 = l.writersWaiting
      omega
  | leaves hi hlast =>
    have hpos := h.readers_pos hi
    refine h.moved hi (.inl rfl) ?_ rfl rfl ?_
    · show l.readers - 1 + 1 = l.readers
      omega
    · intro hwriter
      have hnone := h.alone hwriter
      omega
  | leavesLast hi hlast =>
    have hpos := h.readers_pos hi
    refine h.moved hi (.inr rfl) ?_ rfl rfl fun _ => hlast
    show l.readers - 1 + 1 = l.readers
    omega
  | leavesWrite hi =>
    have hwriter := h.writer_eq_true hi
    refine h.moved hi (.inr rfl) rfl ?_ rfl nofun
    rw [hwriter]
    rfl

theorem Tallied.arrive (h : l.Tallied) (a : Access) : (l.arrive a).Tallied := by
  have hinside (b : Access) : (l.arrive a).inside b = l.inside b := by
    simp [inside, count, Lock.arrive]
  constructor
  · rw [hinside]
    exact h.readers
  · rw [hinside]
    exact h.writer
  · have hwaiting := h.waiting
    rw [waiting_eq_count] at hwaiting ⊢
    cases a <;> simp [Lock.arrive, count, Phase.waitsFor, hwaiting]
  · exact h.alone

theorem Tallied.step (h : l.Tallied) (hs : Step l l') : l'.Tallied := by
  obtain rfl | ⟨i, hm⟩ | ⟨a, hm⟩ := hs.moves
  · exact h
  · exact h.moves hm
  · exact (h.arrive a).moves hm

/-- **The counters are always right.** -/
theorem Reached.tallied (h : l.Reached) : l.Tallied := by
  induction h with
  | refl => exact ⟨rfl, rfl, rfl, fun _ => rfl⟩
  | tail _ hs ih => exact ih.step hs

theorem Reached.steps (h : l.Reached) (hs : ReflTransGen Step l l') : l'.Reached := h.trans hs

/-! ## Who is inside with whom -/

/-- Only one thread is inside to write. -/
theorem Tallied.eq_of_write (h : l.Tallied) (hi : l.At i (.inside .write))
    (hk : l.At k (.inside .write)) : k = i := by
  by_contra hne
  -- If the first were gone, the other would still be counted, but one is all that are counted.
  let l' : Lock := { l with threads := l.threads.set i .gone }
  have hk' : l'.At k (.inside .write) := by
    rw [At, List.getElem?_set_ne (Ne.symm hne)]
    exact hk
  have hpos : 0 < l'.inside .write := count_pos hk' (by simp)
  have hset : l'.threads = l.threads.set i .gone := rfl
  have hgone := inside_moved hi (.inl hset) .write
  simp only [decide_true, Bool.toNat_true, reduceCtorEq, decide_false, Bool.toNat_false] at hgone
  have hone := h.writer
  have hle := l.writer.toNat_le
  omega

/-- A writer is inside alone. -/
theorem Tallied.eq_of_inside (h : l.Tallied) (hi : l.At i (.inside .write))
    (hk : l.At k (.inside a)) : k = i := by
  cases a with
  | read =>
    have hnone := h.alone (h.writer_eq_true hi)
    have hpos := h.readers_pos hk
    omega
  | write => exact h.eq_of_write hi hk

/-! ## Who comes inside -/

/-- A move puts one thread elsewhere and notifies all or none. -/
theorem Moves.threads_eq (hm : l.Moves i l') :
    ∃ p, l'.threads = l.threads.set i p ∨ l'.threads = (l.threads.set i p).map Phase.notify := by
  cases hm with
  | leavesLast hi hlast => exact ⟨_, .inr rfl⟩
  | leavesWrite hi => exact ⟨_, .inr rfl⟩
  | _ => exact ⟨_, .inl rfl⟩

/-- The others stay where they are, whether they are notified or not. -/
theorem Moves.others (hm : l.Moves i l') (hki : k ≠ i) :
    l'.threads[k]? = l.threads[k]? ∨ l'.threads[k]? = l.threads[k]?.map Phase.notify := by
  obtain ⟨p, h | h⟩ := hm.threads_eq
  · left
    rw [h, List.getElem?_set_ne hki.symm]
  · right
    rw [h, List.getElem?_map, List.getElem?_set_ne hki.symm]

/-- Where another thread was before. -/
theorem Moves.before (hm : l.Moves i l') (hki : k ≠ i) (hk : l'.At k p') :
    l.At k p' ∨ ∃ p, l.At k p ∧ p.notify = p' := by
  rcases hm.others hki with h | h
  · exact .inl (h.symm.trans hk)
  · rw [At, h, Option.map_eq_some_iff] at hk
    exact .inr hk

/-- Where a thread is that has moved. -/
inductive Moved (i : Nat) (l l' : Lock) : Prop where
  | sleeps {a : Access} (hi : l.Waits i a) (hb : l.blocked a = true)
      (hi' : l'.At i (.asleep a false))
  | enters {a : Access} (hi : l.Waits i a) (hb : l.blocked a = false) (hi' : l'.At i (.inside a))
      (hq : a = .read → l'.writersWaiting = l.writersWaiting)
  | leaves {a : Access} (hi : l.At i (.inside a)) (hi' : l'.At i .gone)

theorem Moves.moved (hm : l.Moves i l') : Moved i l l' := by
  have hset {p : Phase} (hi : l.At i p) (q : Phase) : (l.threads.set i q)[i]? = some q :=
    List.getElem?_set_self (List.getElem?_eq_some_iff.mp hi).1
  have hmap {p : Phase} (hi : l.At i p) :
      ((l.threads.set i .gone).map Phase.notify)[i]? = some .gone := by
    rw [List.getElem?_map, hset hi]
    rfl
  cases hm with
  | sleeps hi hb => exact .sleeps ⟨_, hi⟩ hb (hset hi _)
  | reads hi hb => exact .enters ⟨_, hi⟩ hb (hset hi _) fun _ => rfl
  | writes hi hb => exact .enters ⟨_, hi⟩ hb (hset hi _) nofun
  | leaves hi hlast => exact .leaves hi (hset hi _)
  | leavesLast hi hlast => exact .leaves hi (hmap hi)
  | leavesWrite hi => exact .leaves hi (hmap hi)

/-- Whoever is inside after a move was inside before, or it is the one that moved: it waited, and
nothing kept it from coming inside. -/
theorem Moves.enters (hm : l.Moves i l') (hk : l'.At k (.inside a)) :
    l.At k (.inside a) ∨
      k = i ∧ l.Waits i a ∧ l.blocked a = false ∧
        (a = .read → l'.writersWaiting = l.writersWaiting) := by
  by_cases hki : k = i
  · subst hki
    cases hm.moved with
    | sleeps hi hb hi' => cases hi'.unique hk
    | enters hi hb hi' hq =>
      cases hi'.unique hk
      exact .inr ⟨rfl, hi, hb, hq⟩
    | leaves hi hi' => cases hi'.unique hk
  · left
    rcases hm.before hki hk with hk | ⟨p, hp, hnotify⟩
    · exact hk
    · cases p with
      | inside b => exact hp.trans (congrArg some hnotify)
      | asleep | gone => cases hnotify

/-- A thread that waits does so until it comes inside. -/
theorem Moves.waits (hm : l.Moves i l') (hk : l.Waits k a) :
    l'.Waits k a ∨ l'.At k (.inside a) := by
  obtain ⟨n, hk⟩ := hk
  by_cases hki : k = i
  · subst hki
    cases hm.moved with
    | sleeps hi hb hi' =>
      obtain ⟨m, hi⟩ := hi
      cases hi.unique hk
      exact .inl ⟨false, hi'⟩
    | enters hi hb hi' hq =>
      obtain ⟨m, hi⟩ := hi
      cases hi.unique hk
      exact .inr hi'
    | leaves hi hi' => cases hi.unique hk
  · left
    rcases hm.others hki with h | h
    · exact ⟨n, h.trans hk⟩
    · refine ⟨true, h.trans ?_⟩
      rw [show l.threads[k]? = some (.asleep a n) from hk]
      rfl

/-- A thread that has come just now is the only one that is not where it was before. -/
theorem arrive_at_iff (l : Lock) (a : Access) :
    (l.arrive a).At k p ↔ l.At k p ∨ k = l.threads.length ∧ p = .asleep a false := by
  unfold At arrive
  rcases Nat.lt_trichotomy k l.threads.length with hlt | rfl | hlt
  · rw [List.getElem?_append_left hlt]
    simp [Nat.ne_of_lt hlt]
  · simp [eq_comm]
  · have hnew : (l.threads ++ [.asleep a false])[k]? = none := by
      rw [List.getElem?_eq_none_iff, List.length_append]
      exact hlt
    rw [hnew, List.getElem?_eq_none (Nat.le_of_lt hlt)]
    simp [Nat.ne_of_gt hlt]

/-- **A reader that comes inside** in a step does so while no writer waits, before and after. -/
theorem Step.reads (h : Step l l') (hk : l'.At k (.inside .read)) :
    l.At k (.inside .read) ∨ l.writersWaiting = 0 ∧ l'.writersWaiting = 0 := by
  have hnone {m : Lock} (hb : m.blocked .read = false)
      (hq : l'.writersWaiting = m.writersWaiting) :
      m.writersWaiting = 0 ∧ l'.writersWaiting = 0 := by
    simp only [blocked, Bool.or_eq_false_iff, decide_eq_false_iff_not, not_not] at hb
    exact ⟨hb.2, hq.trans hb.2⟩
  obtain rfl | ⟨i, hm⟩ | ⟨a, hm⟩ := h.moves
  · exact .inl hk
  · rcases hm.enters hk with hk | ⟨rfl, hi, hb, hq⟩
    · exact .inl hk
    · exact .inr (hnone hb (hq rfl))
  · rcases hm.enters hk with hk | ⟨rfl, ⟨n, hi⟩, hb, hq⟩
    · exact .inl (((l.arrive_at_iff a).mp hk).resolve_right fun h => nomatch h.2)
    · right
      -- The thread has come to read, so that it does not count among the waiting writers.
      cases (l.arrive_at a).unique hi
      exact hnone hb (hq rfl)

/-- A thread that waits does so until it comes inside. -/
theorem Step.waits (h : Step l l') (hk : l.Waits k a) : l'.Waits k a ∨ l'.At k (.inside a) := by
  obtain rfl | ⟨i, hm⟩ | ⟨b, hm⟩ := h.moves
  · exact .inl hk
  · exact hm.waits hk
  · obtain ⟨n, hk⟩ := hk
    exact hm.waits ⟨n, (l.arrive_at_iff b).mpr (.inl hk)⟩

/-- Steps while a thread waits to write: from the step in which it comes, if it has to wait, to the
step in which it comes inside. -/
def WaitsUntil (i : Nat) : Lock → Lock → Prop :=
  ReflTransGen fun l l' => Step l l' ∧ (l.Waits i .write ∨ l'.Waits i .write)

/-- **No reader comes inside while a writer waits.** -/
theorem Tallied.no_reader_enters (h : l.Tallied) (hs : WaitsUntil i l l')
    (hk : l'.At k (.inside .read)) : l.At k (.inside .read) := by
  -- The writer counts as waiting because the counters are right, so that goes into the induction.
  suffices hboth : l'.Tallied ∧ (l'.At k (.inside .read) → l.At k (.inside .read)) from hboth.2 hk
  clear hk
  induction hs with
  | refl => exact ⟨h, id⟩
  | tail _ hstep ih =>
    obtain ⟨hs, hwaits⟩ := hstep
    have htallied := ih.1.step hs
    refine ⟨htallied, fun hk => ih.2 ?_⟩
    rcases hs.reads hk with hk | ⟨hbefore, hafter⟩
    · exact hk
    · exfalso
      rcases hwaits with hi | hi
      · exact Nat.ne_of_gt (ih.1.writersWaiting_pos hi) hbefore
      · exact Nat.ne_of_gt (htallied.writersWaiting_pos hi) hafter

end Lock

/-- **The lock excludes.** However many threads come, check and leave in whatever order, a thread
inside to write is inside alone. The readers that are counted are those inside, and one that leaves
can be taken from them. The flag says whether a thread is inside to write. The writers that are
counted as waiting are those asleep, notified or not, and one that comes inside is taken from them.
A writer waits until it comes inside, and from the step in which it begins to wait up to that one
no reader comes inside. -/
theorem lock_excludes {l : Lock} (h : l.Reached) :
    (∀ i k a, l.At i (.inside .write) → l.At k (.inside a) → k = i) ∧
      l.readers = l.inside .read ∧
      (∀ i, l.At i (.inside .read) → (l.leave i).readers + 1 = l.readers) ∧
      l.inside .write ≤ 1 ∧ (l.writer = true ↔ l.inside .write = 1) ∧
      l.writersWaiting = l.waiting .write ∧
      (∀ i, l.Waits i .write → l.blocked .write = false →
        (l.recheck i).writersWaiting + 1 = l.writersWaiting) ∧
      (∀ i l', Lock.Step l l' → l.Waits i .write → l'.Waits i .write ∨ l'.At i (.inside .write)) ∧
      ∀ i k l', Lock.WaitsUntil i l l' → l'.At k (.inside .read) → l.At k (.inside .read) := by
  have ht := h.tallied
  refine ⟨fun i k a hi hk => ht.eq_of_inside hi hk, ht.readers, fun i hi => ht.leave_readers hi,
    ?_, ?_, ht.waiting, fun i hi hb => ht.recheck_writersWaiting hi hb,
    fun i l' hs hi => hs.waits hi, fun i k l' hs hk => ht.no_reader_enters hs hk⟩
  · rw [← ht.writer]
    exact l.writer.toNat_le
  · rw [← ht.writer]
    cases l.writer <;> simp

/-- A writer waits for a reader inside, and a second reader queues behind it, wakes too early, and
is not inside when the first one has left and the writer has been let in. -/
theorem lock_excludes_queued :
    ∃ l l' : Lock, l.Reached ∧ l.threads = [.inside .read] ∧ l.readers = l.inside .read ∧
      Lock.WaitsUntil 1 l l' ∧
      l'.threads = [.gone, .inside .write, .asleep .read true] ∧
      (∀ k, l'.At k (.inside .read) → l.At k (.inside .read)) ∧
      l'.Reached ∧ l'.inside .write ≤ 1 ∧ (∀ k a, l'.At k (.inside a) → k = 1) ∧
      l'.writersWaiting = l'.waiting .write := by
  let l : Lock := ({} : Lock).ask .read
  let l₁ := l.ask .write
  let l₂ := l₁.ask .read
  let l₃ := l₂.recheck 2
  let l₄ := l₃.leave 0
  let l' := l₄.recheck 1
  have hl : l.Reached := .single (.ask .read)
  have h₁ : l₁.Waits 1 .write := ⟨false, rfl⟩
  have h₂ : l₂.Waits 1 .write := ⟨false, rfl⟩
  have h₃ : l₃.Waits 1 .write := ⟨false, rfl⟩
  have h₄ : l₄.Waits 1 .write := ⟨true, rfl⟩
  have hwaits₃ : Lock.WaitsUntil 1 l l₃ :=
    .tail (.tail (.single ⟨.ask .write, .inr h₁⟩) ⟨.ask .read, .inl h₁⟩) ⟨.recheck 2, .inl h₂⟩
  have hwaits : Lock.WaitsUntil 1 l l' :=
    .tail (.tail hwaits₃ ⟨.leave 0, .inl h₃⟩) ⟨.recheck 1, .inl h₄⟩
  have hthreads : l'.threads = [.gone, .inside .write, .asleep .read true] := by decide
  have hwriter : l'.At 1 (.inside .write) := congrArg (·[1]?) hthreads
  have hl' : l'.Reached := hl.steps (hwaits.lift id fun _ _ h => h.1)
  obtain ⟨-, hreaders, -, -, -, -, -, -, hreads⟩ := lock_excludes hl
  obtain ⟨halone, -, -, hone, -, hwaiting, -⟩ := lock_excludes hl'
  exact ⟨l, l', hl, rfl, hreaders, hwaits, hthreads, fun k => hreads 1 k l' hwaits, hl', hone,
    fun k a hk => halone 1 k a hwriter hk, hwaiting⟩

end ChatCommands
