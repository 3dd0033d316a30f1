import ChatCommands.Program
import ChatCommands.Setting.Use

/-!
# The registry

The registry binds names to commands. Each registration makes a command of its own, told from all
others by its number even if nothing else differs. Names keep their place when they are bound
anew, and lose it when they are removed. The names of a registration are bound one after another;
a name under which nothing can be kept ends the registration, but not the names before it.

## Main definitions

* `Command`: a registered command
* `Binding`, `Registry`: the bindings, in the order of their places
* `Registry.register`, `Registry.remove`, `Registry.get`, `Registry.commands`

## Main results

* `lookUpName_bindName`: binding a name changes what that name stands for and nothing else
-/

namespace ChatCommands

/-- A registered command. -/
structure Command extends CommandInfo where
  /-- The number of the registration that made the command. -/
  registration : Nat
  manner : Manner
  handler : Handler

/-- A name with what it stands for. -/
structure Binding where
  name : Setting
  /-- What the name is kept under. -/
  key : Scalar
  command : Command

/-- Names with what they stand for, each at most once. -/
abbrev Bindings := List Binding

/-- The command that a name stands for. -/
def lookUpName (b : Bindings) (key : Scalar) : Option Command :=
  (b.find? fun e => e.key = key).map (·.command)

/-- Binds a name: in its place if it has one, as it was written there, else behind all others. -/
def bindName (b : Bindings) (name : Setting) (key : Scalar) (c : Command) : Bindings :=
  match b with
  | [] => [⟨name, key, c⟩]
  | e :: b => if e.key = key then { e with command := c } :: b else e :: bindName b name key c

/-- Names after a registration: the bindings, the names that were bound before, and the fault that
ended it, if one did. -/
structure Rebinding where
  bindings : Bindings
  conflicts : List Setting := []
  fault : Option Fault := none

/-- Binds names one after another. -/
def bindNames (b : Bindings) (c : Command) : List Setting → Rebinding
  | [] => ⟨b, [], none⟩
  | n :: ns =>
    match n.key with
    | .error f => ⟨b, [], some f⟩
    | .ok k =>
      let rest := bindNames (bindName b n k c) c ns
      if (lookUpName b k).isSome then { rest with conflicts := n :: rest.conflicts } else rest

/-- The names bound to commands. -/
structure Registry where
  bindings : Bindings := []
  /-- How many registrations there were. -/
  registrations : Nat := 0

namespace Registry

/-- The command that a name stands for. -/
def get (r : Registry) (name : Setting) : Except Fault (Option Command) := do
  return lookUpName r.bindings (← name.key)

/-- All bound names, in the order of their places. -/
def names (r : Registry) : List Setting := r.bindings.map (·.name)

/-- Names in order, by code point if they are texts and by value if they are numbers. Of two names
there has to be an order. -/
def sortNames (names : List Setting) : Except Fault (List Setting) :=
  if names.all fun n => n.text?.isSome then
    .ok (names.mergeSort fun a b => decide (a.text?.getD "" ≤ b.text?.getD ""))
  else if names.all fun n => n.number?.isSome then
    .ok (names.mergeSort fun a b => (b.compare .less a).toOption == some false)
  else
    match names with
    | a :: b :: _ => .error (.notComparable "<" a b)
    | _ => .ok names

/-- All bound names, sorted. -/
def sortedNames (r : Registry) : Except Fault (List Setting) := sortNames r.names

/-- Commands without repetition, in order. -/
def distinct : List Command → List Command
  | [] => []
  | c :: cs => c :: (distinct cs).filter fun d => d.registration ≠ c.registration

/-- All commands that have a name, in the order of the places of their first names. -/
def commands (r : Registry) : List Command := distinct (r.bindings.map (·.command))

/-- The command that the next registration makes. -/
def nextCommand (r : Registry) (info : CommandInfo) (manner : Manner) (handler : Handler) :
    Command :=
  { info with registration := r.registrations, manner := manner, handler := handler }

/-- What becomes of the names when a command is registered under all its names. -/
def rebinding (r : Registry) (info : CommandInfo) (manner : Manner) (handler : Handler) :
    Rebinding :=
  bindNames r.bindings (r.nextCommand info manner handler) info.names

/-- Registers a command under all its names. -/
def register (r : Registry) (info : CommandInfo) (manner : Manner) (handler : Handler) :
    Registry where
  bindings := (r.rebinding info manner handler).bindings
  registrations := r.registrations + 1

/-- Takes a name from its command; the command. -/
def remove (r : Registry) (name : Setting) : Except Fault (Registry × Option Command) := do
  let key ← name.key
  return ({ r with bindings := r.bindings.filter fun e => e.key ≠ key },
    lookUpName r.bindings key)

end Registry

/-- Binding a name changes what that name stands for and nothing else. -/
theorem lookUpName_bindName (b : Bindings) (name : Setting) (key other : Scalar) (c : Command) :
    lookUpName (bindName b name key c) other =
      if other = key then some c else lookUpName b other := by
  induction b with
  | nil =>
    by_cases h : other = key
    · simp [bindName, lookUpName, h]
    · simp [bindName, lookUpName, h, Ne.symm h]
  | cons e b ih =>
    by_cases hn : e.key = key
    · by_cases ho : other = key
      · simp [bindName, lookUpName, hn, ho]
      · simp [bindName, lookUpName, hn, ho, Ne.symm ho]
    · by_cases ho : e.key = other
      · subst ho
        simp [bindName, lookUpName, hn]
      · have := ih
        simp only [lookUpName] at this ⊢
        simp [bindName, hn, ho, this]

end ChatCommands
