import ChatCommands.Dispatch.ChainProgram

/-!
# The calls of a chain, in order

A chain of any nesting comes down to one list of calls: the invocations from left to right, before
each of them the calls of the sub-chains in its arguments. What a call is given is known
beforehand, but for the answers of calls before it, which are told by their numbers. Making the
calls of this list one after another, until one of them fails, is what the program of the chain
does.

## Main definitions

* `Source`, `PlannedCall`: a call whose arguments refer to the answers of earlier calls
* `planChain`, `planArguments`, `planParts`, `planPart`: the calls of a chain
* `play`: the program that makes calls one after another

## Main results

* `chainFrom_eq_play`, `chainProgram_eq_play`: the program of a chain makes the calls of its plan
-/

namespace ChatCommands

/-- Where a piece of an argument comes from: it stands in the chain, or a call answered with it.
Where no call came before, there is nothing. -/
inductive Source where
  | text (s : String)
  | answer (call : Option Nat)

/-- A call with what its arguments are put together from. -/
structure PlannedCall where
  name : String
  arguments : List (List Source)
  chained : Bool

mutual

/-- The calls of a chain that follow the call `previous`, numbered from `n` on; and the number of
the last one. -/
def planChain (chained : Bool) (n : Nat) (previous : Option Nat) :
    Chain → List PlannedCall × Option Nat
  | [] => ([], previous)
  | .call name arguments :: rest =>
    let inner := planArguments n previous arguments
    let k := n + inner.1.length
    let behind := planChain chained (k + 1) (some k) rest
    (inner.1 ++ ⟨name, inner.2, chained⟩ :: behind.1, behind.2)

/-- The calls that are made for arguments, and the sources of the arguments. -/
def planArguments (n : Nat) (previous : Option Nat) :
    List (List Part) → List PlannedCall × List (List Source)
  | [] => ([], [])
  | a :: as =>
    let here := planParts n previous a
    let behind := planArguments (n + here.1.length) previous as
    (here.1 ++ behind.1, here.2 :: behind.2)

/-- The calls that are made for parts, and the sources of the parts. -/
def planParts (n : Nat) (previous : Option Nat) : List Part → List PlannedCall × List Source
  | [] => ([], [])
  | p :: ps =>
    let here := planPart n previous p
    let behind := planParts (n + here.1.length) previous ps
    (here.1 ++ behind.1, here.2 :: behind.2)

/-- The calls that are made for a part, and its source. A sub-chain knows of no call before it. -/
def planPart (n : Nat) (previous : Option Nat) : Part → List PlannedCall × Source
  | .text s => ([], .text s)
  | .previous => ([], .answer previous)
  | .sub chain =>
    let calls := planChain true n none chain
    (calls.1, .answer calls.2)

end

/-- The calls of a whole chain, and the number of the last one. -/
def plan (c : Chain) : List PlannedCall × Option Nat := planChain (1 < c.length) 0 none c

/-- What a call answered. -/
def answerOf (answers : List (Option String)) (call : Option Nat) : Option String :=
  call.bind fun k => answers[k]?.join

/-- The text of a piece; no answer leaves nothing. -/
def Source.value (answers : List (Option String)) : Source → String
  | text s => s
  | answer call => (answerOf answers call).getD ""

/-- The text of an argument. -/
def joined (answers : List (Option String)) (sources : List Source) : String :=
  String.join (sources.map (Source.value answers))

/-- What a call is given. -/
def PlannedCall.given (c : PlannedCall) (answers : List (Option String)) : List Setting :=
  c.arguments.map fun a => .text (joined answers a)

/-- Makes calls one after another; the answers of all calls. -/
def play (answers : List (Option String)) : List PlannedCall → Program (List (Option String))
  | [] => pure answers
  | c :: cs => do
    let a ← Program.callCommand c.name (c.given answers) c.chained
    play (answers ++ [a]) cs

/-! ## Numbers of calls that were made -/

/-- The piece refers to no call from number `n` on. -/
def Source.Known (n : Nat) : Source → Prop
  | text _ => True
  | answer call => ∀ i ∈ call, i < n

theorem answerOf_extend {as bs : List (Option String)} {call : Option Nat}
    (hc : ∀ i ∈ call, i < as.length) (h : as <+: bs) : answerOf bs call = answerOf as call := by
  obtain ⟨cs, rfl⟩ := h
  cases call with
  | none => rfl
  | some i => simp [answerOf, List.getElem?_append_left (hc i rfl)]

theorem joined_extend {as bs : List (Option String)} {sources : List Source}
    (hs : ∀ s ∈ sources, s.Known as.length) (h : as <+: bs) :
    joined bs sources = joined as sources := by
  refine congrArg String.join (List.map_congr_left ?_)
  intro s hm
  cases s with
  | text s => rfl
  | answer call => exact congrArg (·.getD "") (answerOf_extend (hs _ hm) h)

/-- The last call of a chain is one of its calls, or the one before the chain. -/
theorem planChain_last (chained : Bool) (c : Chain) (n : Nat) (previous : Option Nat)
    (hp : ∀ i ∈ previous, i < n) :
    ∀ i ∈ (planChain chained n previous c).2,
      i < n + (planChain chained n previous c).1.length := by
  induction c generalizing n previous with
  | nil => simpa [planChain] using hp
  | cons call rest ih =>
    obtain ⟨name, arguments⟩ := call
    intro i hi
    -- The rest follows this very call, so its last call is no other than one from here on.
    simp only [planChain, List.length_append, List.length_cons] at hi ⊢
    have := ih _ _ (by simp) i hi
    omega

/-- The last call of a chain that is not empty is the last one that is made for it. -/
theorem planChain_last_eq (chained : Bool) (c : Chain) (hc : c ≠ []) (n : Nat)
    (previous : Option Nat) :
    (planChain chained n previous c).2 =
      some (n + (planChain chained n previous c).1.length - 1) := by
  induction c generalizing n previous with
  | nil => exact absurd rfl hc
  | cons call rest ih =>
    obtain ⟨name, arguments⟩ := call
    rcases rest with - | ⟨next, rest⟩
    · simp [planChain]
    · simp only [planChain, List.length_append, List.length_cons] at ih ⊢
      rw [ih (List.cons_ne_nil _ _)]
      congr 1
      omega

theorem planPart_known (n : Nat) (previous : Option Nat) (hp : ∀ i ∈ previous, i < n) (p : Part) :
    (planPart n previous p).2.Known (n + (planPart n previous p).1.length) := by
  cases p with
  | text s => trivial
  | previous => simpa [planPart, Source.Known] using hp
  | sub c => exact planChain_last true c n none (by simp)

theorem planParts_known (n : Nat) (previous : Option Nat) (hp : ∀ i ∈ previous, i < n)
    (ps : List Part) :
    ∀ s ∈ (planParts n previous ps).2, s.Known (n + (planParts n previous ps).1.length) := by
  induction ps generalizing n with
  | nil => simp [planParts]
  | cons p ps ih =>
    intro s hs
    simp only [planParts, List.mem_cons, List.length_append] at hs ⊢
    rcases hs with rfl | hs
    · have := planPart_known n previous hp p
      cases h : (planPart n previous p).2 with
      | text s => trivial
      | answer call =>
        rw [h] at this
        intro i hi
        have := this i hi
        omega
    · have hn : ∀ i ∈ previous, i < n + (planPart n previous p).1.length := fun i hi => by
        have := hp i hi
        omega
      rw [← Nat.add_assoc]
      exact ih _ hn s hs

/-! ## The program of a chain -/

theorem play_append (as : List (Option String)) (l m : List PlannedCall) :
    play as (l ++ m) = play as l >>= fun bs => play bs m := by
  induction l generalizing as with
  | nil => rfl
  | cons c l ih =>
    simp only [List.cons_append, play, Program.bind_assoc]
    exact congrArg (Program.callCommand c.name (c.given as) c.chained >>= ·) (funext fun a => ih _)

/-- What follows calls may rely on their answers being there, behind those of the calls before. -/
theorem play_bind_congr {α : Type} {as : List (Option String)} {l : List PlannedCall}
    {f g : List (Option String) → Program α}
    (h : ∀ bs, as <+: bs → bs.length = as.length + l.length → f bs = g bs) :
    play as l >>= f = play as l >>= g := by
  -- Whatever a call answers comes behind the answers so far, so that these stay a prefix.
  induction l generalizing as with
  | nil => exact h as (List.prefix_refl as) rfl
  | cons c l ih =>
    simp only [play, Program.bind_assoc]
    refine congrArg (Program.callCommand c.name (c.given as) c.chained >>= ·) (funext ?_)
    intro a
    refine ih fun bs hp hl => h bs ((List.prefix_append as [a]).trans hp) ?_
    simp only [List.length_append, List.length_cons, List.length_nil] at hl ⊢
    omega

-- All four take the same two steps: the calls of what comes first are played off, and what follows
-- is compared with its plan for the answers that are known then. Pieces that were planned before
-- refer to earlier answers only, so more answers do not change them.
mutual

/-- Behind a call whose answer is known, a chain makes its calls and ends with the answer of the
last one. -/
theorem chainFrom_eq_play (chained : Bool) (k : Option Nat) (as : List (Option String)) :
    ∀ c : Chain, (∀ i ∈ k, i < as.length) →
      chainFrom chained (answerOf as k) c =
        play as (planChain chained as.length k c).1 >>= fun bs =>
          pure (answerOf bs (planChain chained as.length k c).2)
  | [], hk => rfl
  | .call name arguments :: rest, hk => by
    rw [chainFrom, planChain, play_append, resolve_eq_play k as arguments hk, Program.bind_assoc,
      Program.bind_assoc]
    refine play_bind_congr ?_
    intro bs hp hl
    simp only [Program.pure_bind, play, Program.bind_assoc, PlannedCall.given, List.map_map]
    refine congrArg (Program.callCommand name _ chained >>= ·) (funext ?_)
    intro a
    -- The answer of this call is the one that the rest of the chain knows as the previous one.
    have ha : answerOf (bs ++ [a]) (some bs.length) = a := by simp [answerOf]
    have hn : (bs ++ [a]).length =
        as.length + (planArguments as.length k arguments).1.length + 1 := by
      simp [hl]
    have hr := chainFrom_eq_play chained (some bs.length) (bs ++ [a]) rest (by simp)
    rwa [ha, hn, hl] at hr

theorem resolve_eq_play (k : Option Nat) (as : List (Option String)) :
    ∀ args : List (List Part), (∀ i ∈ k, i < as.length) →
      resolve (answerOf as k) args =
        play as (planArguments as.length k args).1 >>= fun bs =>
          pure ((planArguments as.length k args).2.map (joined bs))
  | [], hk => rfl
  | a :: args, hk => by
    rw [resolve, planArguments, play_append, resolveParts_eq_play k as a hk, Program.bind_assoc,
      Program.bind_assoc]
    refine play_bind_congr ?_
    intro bs hp hl
    have hr := resolve_eq_play k bs args fun i hi => Nat.lt_of_lt_of_le (hk i hi) hp.length_le
    rw [answerOf_extend hk hp, hl] at hr
    rw [Program.pure_bind, hr, Program.bind_assoc]
    refine play_bind_congr ?_
    intro cs hp' hl'
    have hs := joined_extend (hl ▸ planParts_known as.length k hk a) hp'
    rw [Program.pure_bind, List.map_cons, hs]

theorem resolveParts_eq_play (k : Option Nat) (as : List (Option String)) :
    ∀ ps : List Part, (∀ i ∈ k, i < as.length) →
      resolveParts (answerOf as k) ps =
        play as (planParts as.length k ps).1 >>= fun bs =>
          pure (joined bs (planParts as.length k ps).2)
  | [], hk => rfl
  | p :: ps, hk => by
    rw [resolveParts, planParts, play_append, resolvePart_eq_play k as p hk, Program.bind_assoc,
      Program.bind_assoc]
    refine play_bind_congr ?_
    intro bs hp hl
    have hr := resolveParts_eq_play k bs ps fun i hi => Nat.lt_of_lt_of_le (hk i hi) hp.length_le
    rw [answerOf_extend hk hp, hl] at hr
    rw [Program.pure_bind, hr, Program.bind_assoc]
    refine play_bind_congr ?_
    intro cs hp' hl'
    have hs : joined cs [(planPart as.length k p).2] = joined bs [(planPart as.length k p).2] :=
      joined_extend (by simpa [hl] using planPart_known as.length k hk p) hp'
    simp only [joined, List.map_cons, List.map_nil, String.join_cons, String.join_nil,
      String.append_empty] at hs ⊢
    rw [Program.pure_bind, hs]

theorem resolvePart_eq_play (k : Option Nat) (as : List (Option String)) :
    ∀ p : Part, (∀ i ∈ k, i < as.length) →
      resolvePart (answerOf as k) p =
        play as (planPart as.length k p).1 >>= fun bs =>
          pure ((planPart as.length k p).2.value bs)
  | .text s, hk => rfl
  | .previous, hk => rfl
  | .sub c, hk => by
    have hr := chainFrom_eq_play true none as c (by simp)
    -- The sub-chain begins without a previous result, whatever call came before.
    rw [resolvePart, planPart, show chainFrom true none c = _ from hr, Program.bind_assoc]
    rfl

end

/-- **The program of a chain** makes the calls of its plan and ends with the answer of the last call
of the chain itself. -/
theorem chainProgram_eq_play (c : Chain) :
    chainProgram c = play [] (plan c).1 >>= fun answers => pure (answerOf answers (plan c).2) :=
  chainFrom_eq_play (1 < c.length) none [] c (by simp)

end ChatCommands
