import ChatCommands.Chat
import ChatCommands.Setting.Use

/-!
# Permission levels

Users and roles have levels; whoever has none set is at level zero. On a server a user reaches the
highest of the levels of the user and of the roles held there; elsewhere roles do not count. A
level is kept as it was given, and has to be a number once it is compared.

## Main definitions

* `Levels`: the levels set so far
* `Levels.effective`, `Levels.permits`: what a user reaches

## Main results

* `levelOf_setLevel_self`, `levelOf_setLevel_of_ne`: the last level set counts, for that
  identifier alone
-/

namespace ChatCommands

/-- Levels by what identifiers are kept under, each at most once. -/
abbrev LevelList := List (Scalar × Setting)

/-- The level kept under an identifier. -/
def levelOf (l : LevelList) (id : Scalar) : Setting := (l.lookup id).getD (.int 0)

/-- The levels with one of them set anew. -/
def setLevel (l : LevelList) (id : Scalar) (level : Setting) : LevelList :=
  (id, level) :: l.filter fun e => e.1 ≠ id

/-- The higher of two levels, the first if they are equal. -/
def higher (a b : Setting) : Except Fault Setting := do
  return if ← b.compare .greater a then b else a

/-- The levels of users and of roles. -/
structure Levels where
  users : LevelList := []
  roles : LevelList := []
  deriving DecidableEq, Repr, Inhabited

namespace Levels

/-- Sets the level of a user. -/
def setUser (t : Levels) (id : Id) (level : Setting) : Except Fault Levels := do
  return { t with users := setLevel t.users (← id.key) level }

/-- Sets the level of a role. -/
def setRole (t : Levels) (id : Id) (level : Setting) : Except Fault Levels := do
  return { t with roles := setLevel t.roles (← id.key) level }

/-- The level set for a user. -/
def userLevel (t : Levels) (id : Id) : Except Fault Setting := do
  return levelOf t.users (← id.key)

/-- The level set for a role. -/
def roleLevel (t : Levels) (id : Id) : Except Fault Setting := do
  return levelOf t.roles (← id.key)

/-- The highest level of a list of roles, at least zero. -/
def highestRole (t : Levels) (roles : List Id) : Except Fault Setting :=
  roles.foldlM (fun n r => do higher n (← t.roleLevel r)) (.int 0)

/-- The level that a user reaches; roles count on a server only. -/
def effective (t : Levels) (u : Option User) (server : Option Id) : Except Fault Setting := do
  match u with
  | none => throw (.lacks .null (if server.isSome then "roles" else "id"))
  | some u =>
    let role ← if server.isSome then t.highestRole u.roles else pure (.int 0)
    higher (← t.userLevel u.id) role

/-- Whether a user reaches a level. -/
def permits (t : Levels) (u : Option User) (level : Setting) (server : Option Id) :
    Except Fault Bool := do
  (← t.effective u server).compare .atLeast level

end Levels

/-- The last level set counts. -/
@[simp] theorem levelOf_setLevel_self (l : LevelList) (id : Scalar) (n : Setting) :
    levelOf (setLevel l id n) id = n := by
  simp [levelOf, setLevel]

/-- Setting a level leaves the levels of other identifiers alone. -/
theorem levelOf_setLevel_of_ne {l : LevelList} {id other : Scalar} (h : other ≠ id)
    (n : Setting) : levelOf (setLevel l id n) other = levelOf l other := by
  have key : (l.filter fun e => e.1 ≠ id).lookup other = l.lookup other := by
    induction l with
    | nil => rfl
    | cons e l ih =>
      obtain ⟨k, m⟩ := e
      by_cases hk : k = id
      · subst hk
        have hb : (other == k) = false := by simpa using h
        simpa [List.lookup_cons, hb] using ih
      · have : ((k, m) :: l).filter (fun e => e.1 ≠ id) = (k, m) :: l.filter fun e => e.1 ≠ id := by
          simp [hk]
        rw [this]
        simp only [List.lookup_cons]
        split <;> simp_all
  have hb : (other == id) = false := by simpa using h
  simp only [levelOf, setLevel, List.lookup_cons, hb]
  rw [key]

end ChatCommands
