/-!
# The lock of the tables

The tables of a bot are read by many threads and written by few. Readers share the lock and a
writer holds it alone; once a writer waits, new readers queue behind it. The lock is described by
what a thread does while it holds the lock's own mutex: it asks, it checks again after it was
woken, it leaves. Who is asleep may be woken by a notification, or without any.

## Main definitions

* `Phase`: what a thread is doing
* `Lock`: the counters of the lock and the threads
* `Lock.ask`, `Lock.recheck`, `Lock.leave`: the steps
* `Lock.Step`: any of them by any thread
* `Lock.rouse`: every notified thread checks again
-/

namespace ChatCommands

/-- What the lock is asked for. -/
inductive Access where
  | read
  | write
  deriving DecidableEq, Repr, Inhabited

/-- What a thread is doing. -/
inductive Phase where
  /-- Waits for access; `notified` if it has been notified since it last checked. -/
  | asleep (access : Access) (notified : Bool)
  | inside (access : Access)
  | gone
  deriving DecidableEq, Repr, Inhabited

/-- A sleeping thread, notified. -/
def Phase.notify : Phase → Phase
  | asleep a _ => asleep a true
  | p => p

/-- The lock with the threads that have asked for it. -/
structure Lock where
  readers : Nat := 0
  writer : Bool := false
  writersWaiting : Nat := 0
  threads : List Phase := []
  deriving DecidableEq, Repr, Inhabited

namespace Lock

/-- Whether access has to wait: reading for the writer and all waiting writers, writing for
everyone inside. -/
def blocked (l : Lock) : Access → Bool
  | .read => l.writer || l.writersWaiting ≠ 0
  | .write => l.writer || l.readers ≠ 0

/-- The counters when a thread comes inside. A writer has counted as waiting until then. -/
def enter (l : Lock) : Access → Lock
  | .read => { l with readers := l.readers + 1 }
  | .write => { l with writersWaiting := l.writersWaiting - 1, writer := true }

/-- A new thread asks for access. -/
def ask (l : Lock) (a : Access) : Lock :=
  let l := match a with
    | .read => l
    | .write => { l with writersWaiting := l.writersWaiting + 1 }
  if l.blocked a then { l with threads := l.threads ++ [.asleep a false] }
  else
    let l := l.enter a
    { l with threads := l.threads ++ [.inside a] }

/-- A sleeping thread wakes and checks again, whether it was notified or not. -/
def recheck (l : Lock) (i : Nat) : Lock :=
  match l.threads[i]? with
  | some (.asleep a _) =>
    if l.blocked a then { l with threads := l.threads.set i (.asleep a false) }
    else
      let l := l.enter a
      { l with threads := l.threads.set i (.inside a) }
  | _ => l

/-- Notifies every sleeping thread. -/
def notifyAll (l : Lock) : Lock := { l with threads := l.threads.map Phase.notify }

/-- A thread leaves, at the end of its work or by a fault in it. The last reader and the writer
notify all who sleep. -/
def leave (l : Lock) (i : Nat) : Lock :=
  match l.threads[i]? with
  | some (.inside .read) =>
    let l := { l with readers := l.readers - 1, threads := l.threads.set i .gone }
    if l.readers = 0 then l.notifyAll else l
  | some (.inside .write) =>
    let l := { l with writer := false, threads := l.threads.set i .gone }
    l.notifyAll
  | _ => l

/-- One step of any thread. -/
inductive Step (l : Lock) : Lock → Prop where
  | ask (a : Access) : Step l (l.ask a)
  | recheck (i : Nat) : Step l (l.recheck i)
  | leave (i : Nat) : Step l (l.leave i)

/-- Every notified thread checks again, in order, until none is notified. -/
def rouse (l : Lock) : Lock :=
  (List.range l.threads.length).foldl
    (fun l i => if l.threads[i]? = some (.asleep .read true) ∨
        l.threads[i]? = some (.asleep .write true) then l.recheck i else l) l

/-- How many threads are in a phase that satisfies a test. -/
def count (l : Lock) (p : Phase → Bool) : Nat := l.threads.countP p

/-- How many threads are inside with an access. -/
def inside (l : Lock) (a : Access) : Nat := l.count (· = .inside a)

/-- How many threads wait for an access. -/
def waiting (l : Lock) (a : Access) : Nat :=
  l.count fun p => p = .asleep a true || p = .asleep a false

/-- The first thread inside with an access. -/
def firstInside? (l : Lock) (a : Access) : Option Nat := l.threads.findIdx? (· = .inside a)

end Lock

end ChatCommands
