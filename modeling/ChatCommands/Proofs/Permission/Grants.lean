import ChatCommands.Permission.Levels
import Mathlib.Data.Int.Order.Basic
import Mathlib.Data.List.Basic
import Mathlib.Data.List.Induction
import Mathlib.Order.MinMax

/-!
# What users reach after any calls

Levels are set by calls, one after another, for users and for roles. What a user reaches in the end
can be told from the calls alone: for everyone the last call counts, and the levels of a user and of
the roles held are each as good as the highest of them. Nothing that is set takes away what is
granted elsewhere, and zero is what everybody reaches.

## Main definitions

* `Grant`: a call that sets a level
* `Levels.after`: the levels after a list of calls
* `lastSet?`: the last level that calls set for a user or a role
* `Levels.DecidesAs`, `Levels.Alike`: levels that cannot be told apart, by what users reach and by
  anything

## Main results

* `Levels.level_after`: the last level set counts
* `Levels.effective_eq`: the level that a user reaches is the highest of those that count
* `permits_after`: who reaches what, and what it depends on
-/

namespace ChatCommands

/-- Whose level it is. -/
inductive Side where
  | user
  | role
  deriving DecidableEq, Repr, Inhabited

/-- A call that sets a level. -/
structure Grant where
  side : Side
  id : Id
  level : Int
  deriving DecidableEq, Repr, Inhabited

/-- What the level of a user or a role is kept under. -/
abbrev LevelEntry := Side × Scalar

namespace Grant

/-- Makes the call. -/
def apply (g : Grant) (t : Levels) : Except Fault Levels :=
  match g.side with
  | .user => t.setUser g.id (.int g.level)
  | .role => t.setRole g.id (.int g.level)

/-- What the call sets the level under, if anything can be kept under the identifier. -/
def target? (g : Grant) : Option LevelEntry := g.id.key.toOption.map (g.side, ·)

end Grant

/-- The last level set under an entry. -/
def lastLevel? (gs : List Grant) (e : LevelEntry) : Option Int :=
  (gs.filter fun g => g.target? = some e).getLast?.map Grant.level

/-- The last level set for a user or a role. -/
def lastSet? (gs : List Grant) (side : Side) (id : Id) : Option Int :=
  id.key.toOption.bind fun k => lastLevel? gs (side, k)

/-- Something can be kept under what decides the level of a user. -/
structure User.Keyed (u : User) (server : Option Id) : Prop where
  id : ∃ k, u.id.key = .ok k
  roles : server ≠ none → ∀ r ∈ u.roles, ∃ k, r.key = .ok k

variable {t t' : Levels} {gs : List Grant} {e : LevelEntry} {f f' : LevelEntry → Int} {n : Int}

namespace Levels

/-- The levels after a call. One that fails leaves them as they are. -/
def grant (t : Levels) (g : Grant) : Levels := (g.apply t).toOption.getD t

/-- The levels after calls. -/
def after (gs : List Grant) : Levels := gs.foldl grant {}

/-- The levels of one side. -/
def on (t : Levels) : Side → LevelList
  | .user => t.users
  | .role => t.roles

/-- The level kept under an entry. -/
def level (t : Levels) (e : LevelEntry) : Setting := levelOf (t.on e.1) e.2

/-- Every user reaches the same. -/
def DecidesAs (t t' : Levels) : Prop :=
  ∀ (u : Option User) (server : Option Id), t.effective u server = t'.effective u server ∧
    ∀ level, t.permits u level server = t'.permits u level server

/-- Everything that can be asked is answered alike. -/
def Alike (t t' : Levels) : Prop :=
  (∀ id, t.userLevel id = t'.userLevel id) ∧ (∀ id, t.roleLevel id = t'.roleLevel id) ∧
    t.DecidesAs t'

/-! ## The last call counts -/

/-- A call sets a level on its own side. -/
theorem grant_on (t : Levels) (g : Grant) (s : Side) :
    (t.grant g).on s =
      match g.target? with
      | some (side, k) => if side = s then setLevel (t.on s) k (.int g.level) else t.on s
      | none => t.on s := by
  obtain ⟨side, id, n⟩ := g
  cases hk : id.key <;> cases side <;> cases s <;>
    simp [grant, Grant.apply, Grant.target?, on, setUser, setRole, hk, Except.toOption, bind, pure,
      Except.bind, Except.pure]

/-- A call sets the level of its entry and of no other. -/
theorem level_grant (t : Levels) (g : Grant) (e : LevelEntry) :
    (t.grant g).level e = if g.target? = some e then .int g.level else t.level e := by
  obtain ⟨s, k⟩ := e
  unfold level
  rw [grant_on]
  split
  next side j hj =>
    rw [hj]
    by_cases hside : side = s
    · subst hside
      by_cases hjk : j = k
      · subst hjk
        simp
      · simp [hjk, levelOf_setLevel_of_ne (Ne.symm hjk)]
    · simp [hside]
  next hnone => simp [hnone]

end Levels

theorem lastLevel?_concat (gs : List Grant) (g : Grant) (e : LevelEntry) :
    lastLevel? (gs ++ [g]) e = if g.target? = some e then some g.level else lastLevel? gs e := by
  unfold lastLevel?
  rw [List.filter_append]
  by_cases h : g.target? = some e <;> simp [h]

/-- Later calls come first. -/
theorem lastLevel?_append (gs gs' : List Grant) (e : LevelEntry) :
    lastLevel? (gs ++ gs') e = (lastLevel? gs' e).or (lastLevel? gs e) := by
  unfold lastLevel?
  rw [List.filter_append, List.getLast?_append]
  cases (gs'.filter fun g => g.target? = some e).getLast? <;> rfl

/-- The level that counts after calls: zero if none has been set. -/
def levelAfter (gs : List Grant) (e : LevelEntry) : Int := (lastLevel? gs e).getD 0

namespace Levels

@[simp] theorem after_concat (gs : List Grant) (g : Grant) :
    after (gs ++ [g]) = (after gs).grant g := by
  simp [after]

/-- **The last call counts**, for each entry on its own. -/
theorem level_after (gs : List Grant) (e : LevelEntry) :
    (after gs).level e = .int (levelAfter gs e) := by
  induction gs using List.reverseRecOn with
  | nil => cases e with | mk s k => cases s <;> rfl
  | append_singleton gs g ih =>
    rw [after_concat, level_grant, ih, levelAfter, levelAfter, lastLevel?_concat]
    split <;> rfl

/-- The calls for one side decide the levels of that side. -/
theorem after_on (gs : List Grant) (s : Side) :
    (after gs).on s = (after (gs.filter (·.side = s))).on s := by
  induction gs using List.reverseRecOn with
  | nil => rfl
  | append_singleton gs g ih =>
    rw [List.filter_append, after_concat, grant_on]
    by_cases hs : g.side = s
    · rw [List.filter_singleton, decide_eq_true hs, cond_true, after_concat, grant_on, ih]
    · rw [List.filter_singleton, decide_eq_false hs, cond_false, List.append_nil, ← ih]
      unfold Grant.target?
      cases g.id.key with
      | error _ => rfl
      | ok k => simp [Except.toOption, hs]

/-! ## What a user reaches -/

/-- The highest of the levels of a user and of roles, at least zero. -/
def best (f : LevelEntry → Int) (user : Scalar) (roles : List Scalar) : Int :=
  max (f (.user, user)) (roles.foldl (fun n k => max n (f (.role, k))) 0)

theorem le_best_iff {user : Scalar} {roles : List Scalar} :
    n ≤ best f user roles ↔ n ≤ 0 ∨ n ≤ f (.user, user) ∨ ∃ k ∈ roles, n ≤ f (.role, k) := by
  have hroles (m : Int) : n ≤ roles.foldl (fun n k => max n (f (.role, k))) m ↔
      n ≤ m ∨ ∃ k ∈ roles, n ≤ f (.role, k) := by
    induction roles generalizing m with
    | nil => simp
    | cons k ks ih => simp [ih, or_assoc]
  rw [best, le_max_iff, hroles]
  exact or_left_comm

theorem higher_int (a b : Int) : higher (.int a) (.int b) = .ok (.int (max a b)) := by
  unfold higher
  rw [Setting.compare_int]
  by_cases h : a < b
  · simp [bind, Except.bind, pure, Except.pure, h, max_eq_right (Int.le_of_lt h)]
  · simp [bind, Except.bind, pure, Except.pure, h, max_eq_left (Int.not_lt.mp h)]

theorem userLevel_eq (t : Levels) (id : Id) :
    t.userLevel id = do return t.level (.user, ← id.key) := rfl

theorem roleLevel_eq (t : Levels) (id : Id) :
    t.roleLevel id = do return t.level (.role, ← id.key) := rfl

theorem highestRole_eq (h : ∀ e, t.level e = .int (f e)) (roles : List Id) :
    t.highestRole roles = do
      return .int ((← roles.mapM Setting.key).foldl (fun n k => max n (f (.role, k))) 0) := by
  -- The highest level so far is carried along, so the induction is for any of them.
  have hroles (m : Int) : (roles.foldlM (fun n r => do higher n (← t.roleLevel r)) (.int m) :
      Except Fault Setting) = do
        return .int ((← roles.mapM Setting.key).foldl (fun n k => max n (f (.role, k))) m) := by
    induction roles generalizing m with
    | nil => rfl
    | cons r roles ih =>
      rw [List.foldlM_cons, List.mapM_cons, roleLevel_eq]
      cases r.key with
      | error x => rfl
      | ok k =>
        have hstep : higher (.int m) (t.level (.role, k)) = .ok (.int (max m (f (.role, k)))) := by
          rw [h, higher_int]
        show higher (.int m) (t.level (.role, k)) >>= _ = _
        rw [hstep]
        refine (ih _).trans ?_
        cases roles.mapM Setting.key <;> rfl
  exact hroles 0

/-- **The level that a user reaches** is the highest of those that count. -/
theorem effective_eq (h : ∀ e, t.level e = .int (f e)) (u : User) (server : Option Id) :
    t.effective (some u) server = do
      let roles ← if server.isSome then u.roles.mapM Setting.key else pure []
      return .int (best f (← u.id.key) roles) := by
  unfold effective
  dsimp only
  rw [userLevel_eq, highestRole_eq h]
  cases server <;> cases u.roles.mapM Setting.key <;> cases u.id.key <;>
    simp [bind, Except.bind, pure, Except.pure, higher_int, best, h]

/-- Whether a user reaches a level is told from the levels that count. -/
theorem permits_eq (h : ∀ e, t.level e = .int (f e)) (u : User) (n : Int) (server : Option Id) :
    t.permits (some u) (.int n) server = do
      let roles ← if server.isSome then u.roles.mapM Setting.key else pure []
      return decide (n ≤ best f (← u.id.key) roles) := by
  unfold permits
  rw [effective_eq h]
  cases server <;> cases u.roles.mapM Setting.key <;> cases u.id.key <;>
    simp [bind, Except.bind, pure, Except.pure, Setting.compare_int]

/-! ## Levels that cannot be told apart -/

theorem decidesAs_of_effective
    (h : ∀ (u : User) (server : Option Id), t.effective (some u) server =
      t'.effective (some u) server) : t.DecidesAs t' := by
  intro u server
  have heffective : t.effective u server = t'.effective u server := by
    cases u with
    | none => rfl
    | some u => exact h u server
  refine ⟨heffective, fun level => ?_⟩
  rw [permits, heffective]
  rfl

/-- Levels under zero count as zero does. -/
theorem best_congr (h : ∀ e, max (f e) 0 = max (f' e) 0) (user : Scalar) (roles : List Scalar) :
    best f user roles = best f' user roles := by
  -- Two levels are one if they reach the same; under zero everybody reaches everything.
  refine eq_of_forall_le_iff fun n => ?_
  rw [le_best_iff, le_best_iff]
  by_cases hn : n ≤ 0
  · exact iff_of_true (.inl hn) (.inl hn)
  · have hle (e : LevelEntry) : n ≤ f e ↔ n ≤ f' e := by
      have he := h e
      omega
    simp only [hle]

theorem decidesAs_of_level (h : ∀ e, t.level e = .int (f e)) (h' : ∀ e, t'.level e = .int (f' e))
    (hf : ∀ e, max (f e) 0 = max (f' e) 0) : t.DecidesAs t' := by
  refine decidesAs_of_effective fun u server => ?_
  rw [effective_eq h, effective_eq h']
  simp only [best_congr hf]

theorem alike_of_level (h : ∀ e, t.level e = t'.level e) : t.Alike t' := by
  have huser : t.userLevel = t'.userLevel := by
    funext id
    rw [userLevel_eq, userLevel_eq]
    simp only [h]
  have hrole : t.roleLevel = t'.roleLevel := by
    funext id
    rw [roleLevel_eq, roleLevel_eq]
    simp only [h]
  refine ⟨congrFun huser, congrFun hrole, decidesAs_of_effective fun u server => ?_⟩
  unfold effective highestRole
  rw [huser, hrole]

end Levels

/-! ## Which calls make no difference -/

/-- Without the calls for one entry the levels of the others are what they were. -/
theorem lastLevel?_without (gs : List Grant) {o : Option LevelEntry} (h : o ≠ some e) :
    lastLevel? (gs.filter (·.target? ≠ o)) e = lastLevel? gs e := by
  unfold lastLevel?
  rw [List.filter_filter]
  refine congrArg (fun l => (List.getLast? l).map Grant.level) (List.filter_congr fun g _ => ?_)
  by_cases he : g.target? = some e
  · simp [he, Ne.symm h]
  · simp [he]

theorem lastLevel?_without_self (gs : List Grant) (e : LevelEntry) :
    lastLevel? (gs.filter (·.target? ≠ some e)) e = none := by
  simp [lastLevel?, List.filter_filter]

/-- A level that is not above zero counts as if none had been set under its entry. -/
theorem levelAfter_of_nonpos {g : Grant} (h : g.level ≤ 0) (gs gs' : List Grant) (e : LevelEntry) :
    max (levelAfter (gs ++ g :: gs') e) 0 =
      max (levelAfter (gs.filter (·.target? ≠ g.target?) ++ gs') e) 0 := by
  unfold levelAfter
  rw [List.append_cons, lastLevel?_append (gs ++ [g]), lastLevel?_append (gs.filter _)]
  -- A later call hides it; if there is none, it counts as zero or is for another entry.
  cases lastLevel? gs' e with
  | some n => rfl
  | none =>
    rw [Option.none_or, Option.none_or, lastLevel?_concat]
    by_cases he : g.target? = some e
    · rw [if_pos he, he, lastLevel?_without_self]
      exact max_eq_right h
    · rw [if_neg he, lastLevel?_without gs he]

/-- Calls for different entries may change places. -/
theorem levelAfter_comm {g g' : Grant} (h : ∀ e, g.target? = some e → g'.target? ≠ some e)
    (gs gs' : List Grant) (e : LevelEntry) :
    levelAfter (gs ++ g :: g' :: gs') e = levelAfter (gs ++ g' :: g :: gs') e := by
  have hpair (x y : Grant) : lastLevel? (gs ++ x :: y :: gs') e = (lastLevel? gs' e).or
      (if y.target? = some e then some y.level
        else if x.target? = some e then some x.level else lastLevel? gs e) := by
    rw [List.append_cons, List.append_cons, lastLevel?_append, lastLevel?_concat, lastLevel?_concat]
  unfold levelAfter
  rw [hpair, hpair]
  by_cases he : g.target? = some e
  · simp [he, h e he]
  · simp [he]

/-- Above zero only what has been set counts. -/
theorem le_levelAfter_iff (hn : ¬ n ≤ 0) : n ≤ levelAfter gs e ↔ ∃ m ∈ lastLevel? gs e, n ≤ m := by
  unfold levelAfter
  cases lastLevel? gs e with
  | none => simp [hn]
  | some m => simp

theorem lastSet?_of_key {side : Side} {id : Id} {k : Scalar} (h : id.key = .ok k) :
    lastSet? gs side id = lastLevel? gs (side, k) := by
  simp [lastSet?, h, Except.toOption]

theorem lastSet?_of_target {g : Grant} (h : g.target? = some e) :
    lastSet? gs g.side g.id = lastLevel? gs e := by
  unfold Grant.target? at h
  obtain ⟨k, hk, rfl⟩ := Option.map_eq_some_iff.mp h
  rw [lastSet?, hk, Option.bind_some]

/-- What the levels of roles are kept under. -/
theorem mapM_key {roles : List Id} (h : ∀ r ∈ roles, ∃ k, r.key = .ok k) :
    ∃ ks, roles.mapM Setting.key = .ok ks ∧ ∀ k, k ∈ ks ↔ ∃ r ∈ roles, r.key = .ok k := by
  induction roles with
  | nil => exact ⟨[], rfl, by simp⟩
  | cons r roles ih =>
    obtain ⟨k, hk⟩ := h r List.mem_cons_self
    obtain ⟨ks, hks, hmem⟩ := ih fun r' hr' => h r' (List.mem_cons_of_mem r hr')
    refine ⟨k :: ks, ?_, fun k' => ?_⟩
    · rw [List.mapM_cons, hk, hks]
      rfl
    · simp [hmem, hk, eq_comm]

/-- Whether a user reaches a level is told from the calls. -/
theorem permits_after_iff {u : User} {server : Option Id} (h : u.Keyed server) (gs : List Grant)
    (n : Int) :
    ∃ b, (Levels.after gs).permits (some u) (.int n) server = .ok b ∧
      (b = true ↔ n ≤ 0 ∨ (∃ m ∈ lastSet? gs .user u.id, n ≤ m) ∨
        server ≠ none ∧ ∃ r ∈ u.roles, ∃ m ∈ lastSet? gs .role r, n ≤ m) := by
  obtain ⟨k, hk⟩ := h.id
  rw [Levels.permits_eq (Levels.level_after gs), hk, lastSet?_of_key hk]
  cases server with
  | none =>
    refine ⟨_, rfl, ?_⟩
    rw [decide_eq_true_iff, Levels.le_best_iff]
    by_cases hn : n ≤ 0
    · simp [hn]
    · simp [hn, le_levelAfter_iff hn]
  | some s =>
    obtain ⟨ks, hks, hmem⟩ := mapM_key (h.roles nofun)
    rw [hks]
    refine ⟨_, rfl, ?_⟩
    rw [decide_eq_true_iff, Levels.le_best_iff]
    by_cases hn : n ≤ 0
    · simp [hn]
    · -- Roles are kept under keys, and the calls are found by the roles themselves.
      have hroles : (∃ k ∈ ks, n ≤ levelAfter gs (.role, k)) ↔
          ∃ r ∈ u.roles, ∃ m ∈ lastSet? gs .role r, n ≤ m := by
        constructor
        · rintro ⟨k, hk, hle⟩
          obtain ⟨r, hr, hrk⟩ := (hmem k).mp hk
          refine ⟨r, hr, ?_⟩
          rw [lastSet?_of_key hrk]
          exact (le_levelAfter_iff hn).mp hle
        · rintro ⟨r, hr, hset⟩
          obtain ⟨k, hrk⟩ := h.roles nofun r hr
          rw [lastSet?_of_key hrk] at hset
          exact ⟨k, (hmem k).mpr ⟨r, hr, hrk⟩, (le_levelAfter_iff hn).mpr hset⟩
      rw [le_levelAfter_iff hn, hroles]
      simp

namespace Levels

/-- Raising a level takes nothing away from anyone. -/
theorem best_mono (h : ∀ e, 0 < f e → f e ≤ f' e) (user : Scalar) (roles : List Scalar) :
    best f user roles ≤ best f' user roles := by
  rw [le_best_iff]
  by_cases hpos : best f user roles ≤ 0
  · exact .inl hpos
  · have hle (e : LevelEntry) (he : best f user roles ≤ f e) : best f user roles ≤ f' e := by
      have hraised := h e (by omega)
      omega
    rcases le_best_iff.mp (Int.le_refl (best f user roles)) with hn | hu | ⟨k, hk, hr⟩
    · exact (hpos hn).elim
    · exact .inr (.inl (hle _ hu))
    · exact .inr (.inr ⟨k, hk, hle _ hr⟩)

theorem permits_mono (h : ∀ e, t.level e = .int (f e)) (h' : ∀ e, t'.level e = .int (f' e))
    (hf : ∀ e, 0 < f e → f e ≤ f' e) {u : Option User} {server : Option Id}
    (hp : t.permits u (.int n) server = .ok true) : t'.permits u (.int n) server = .ok true := by
  cases u with
  | none => cases hp
  | some u =>
    rw [permits_eq h] at hp
    rw [permits_eq h']
    have hmono := best_mono hf
    revert hp
    cases server <;> cases u.roles.mapM Setting.key <;> cases u.id.key <;>
      simp [bind, Except.bind, pure, Except.pure] <;> exact fun hle => hle.trans (hmono _ _)

end Levels

/-- A call that raises what has been set under its entry makes no level lower that counts. -/
theorem levelAfter_of_raised {g : Grant} (h : ∀ m ∈ lastSet? gs g.side g.id, m ≤ g.level)
    (hpos : 0 < levelAfter gs e) : levelAfter gs e ≤ levelAfter (gs ++ [g]) e := by
  unfold levelAfter
  rw [lastLevel?_concat]
  split
  next he =>
    obtain ⟨m, hm, hle⟩ := (le_levelAfter_iff (n := levelAfter gs e) (by omega)).mp (Int.le_refl _)
    refine hle.trans (h m ?_)
    rw [lastSet?_of_target he]
    exact hm
  next he => exact Int.le_refl _

/-- **Who reaches what after any calls.** A user reaches a level that is not above zero, or that the
last call for the user reaches, or on a server the last call for a role held there. The levels of
users come from the calls for users alone, and those of roles from the calls for roles. For what
users reach, to set a level that is not above zero is to have set none, whatever is set later. Calls
for different users or roles may change places. A call that raises what was set takes nothing away
from anyone. -/
theorem permits_after (gs : List Grant) :
    (∀ (u : User) (n : Int) (server : Option Id), u.Keyed server →
        ∃ b, (Levels.after gs).permits (some u) (.int n) server = .ok b ∧
          (b = true ↔ n ≤ 0 ∨ (∃ m ∈ lastSet? gs .user u.id, n ≤ m) ∨
            server ≠ none ∧ ∃ r ∈ u.roles, ∃ m ∈ lastSet? gs .role r, n ≤ m)) ∧
      (Levels.after gs).users = (Levels.after (gs.filter (·.side = .user))).users ∧
      (Levels.after gs).roles = (Levels.after (gs.filter (·.side = .role))).roles ∧
      (∀ (g : Grant) (gs' : List Grant), g.level ≤ 0 →
        (Levels.after (gs ++ g :: gs')).DecidesAs
          (Levels.after (gs.filter (·.target? ≠ g.target?) ++ gs'))) ∧
      (∀ (g g' : Grant) (gs' : List Grant), (∀ e, g.target? = some e → g'.target? ≠ some e) →
        (Levels.after (gs ++ g :: g' :: gs')).Alike (Levels.after (gs ++ g' :: g :: gs'))) ∧
      ∀ (g : Grant), (∀ m ∈ lastSet? gs g.side g.id, m ≤ g.level) →
        ∀ (u : Option User) (n : Int) (server : Option Id),
          (Levels.after gs).permits u (.int n) server = .ok true →
            (Levels.after (gs ++ [g])).permits u (.int n) server = .ok true := by
  refine ⟨fun u n server h => permits_after_iff h gs n, Levels.after_on gs .user,
    Levels.after_on gs .role, ?_, ?_, ?_⟩
  · intro g gs' hg
    exact Levels.decidesAs_of_level (Levels.level_after _) (Levels.level_after _)
      (levelAfter_of_nonpos hg gs gs')
  · intro g g' gs' hne
    refine Levels.alike_of_level fun e => ?_
    rw [Levels.level_after, Levels.level_after, levelAfter_comm hne]
  · intro g hg u n server hp
    exact Levels.permits_mono (Levels.level_after gs) (Levels.level_after (gs ++ [g]))
      (fun e hpos => levelAfter_of_raised hg hpos) hp

/-- A user and a role with one identifier. The role counts on a server, whatever that is called, and
takes nothing from a level of the user that is under zero. -/
theorem permits_after_shared :
    ∃ (gs : List Grant) (u : User),
      gs = [⟨.role, .int 7, 5⟩, ⟨.user, .int 7, 9⟩, ⟨.role, .int 8, 2⟩, ⟨.user, .int 7, -3⟩] ∧
      u.id = .int 7 ∧ u.roles = [.int 8, .int 7, .int 8] ∧ u.Keyed (some (.int 0)) ∧
      (Levels.after gs).permits (some u) (.int 5) (some (.int 0)) = .ok true ∧
      (Levels.after gs).permits (some u) (.int 1) none = .ok false ∧
      (Levels.after gs).DecidesAs (Levels.after [⟨.role, .int 7, 5⟩, ⟨.role, .int 8, 2⟩]) ∧
      (Levels.after (gs ++ [⟨.role, .int 8, 4⟩])).permits (some u) (.int 5) (some (.int 0)) =
        .ok true := by
  let gs : List Grant :=
    [⟨.role, .int 7, 5⟩, ⟨.user, .int 7, 9⟩, ⟨.role, .int 8, 2⟩, ⟨.user, .int 7, -3⟩]
  let u : User := ⟨.int 7, "", [.int 8, .int 7, .int 8]⟩
  have hkeyed (server : Option Id) : u.Keyed server := by
    refine ⟨⟨_, rfl⟩, fun _ r hr => ?_⟩
    obtain rfl | rfl | rfl : r = .int 8 ∨ r = .int 7 ∨ r = .int 8 := by simpa [u] using hr
    all_goals exact ⟨_, rfl⟩
  obtain ⟨hiff, -, -, -, -, hraise⟩ := permits_after gs
  obtain ⟨-, -, -, hnone, -⟩ := permits_after (gs.take 3)
  have hserver : (Levels.after gs).permits (some u) (.int 5) (some (.int 0)) = .ok true := by
    obtain ⟨b, hb, h⟩ := hiff u 5 (some (.int 0)) (hkeyed _)
    rw [hb, h.mpr (.inr (.inr ⟨nofun, .int 7, by simp [u], 5, by decide, by decide⟩))]
  have halone : (Levels.after gs).permits (some u) (.int 1) none = .ok false := by
    obtain ⟨b, hb, h⟩ := hiff u 1 none (hkeyed _)
    have hlast : lastSet? gs .user u.id = some (-3) := by decide
    rw [hb]
    simpa [hlast] using h
  exact ⟨gs, u, rfl, rfl, rfl, hkeyed _, hserver, halone, hnone ⟨.user, .int 7, -3⟩ [] (by decide),
    hraise ⟨.role, .int 8, 4⟩ (by decide) (some u) 5 _ hserver⟩

end ChatCommands
