import ChatCommands.Chain.Parse
import Mathlib.Data.List.Infix
import Mathlib.Data.PFun

/-!
# Reading a chain by descent

A second reader of chains, of loops and a recursion: blanks, a name, the arguments and the text in
quotes are read by one loop each, and a sub-chain within an argument is read by the reader of
chains. Where the automaton takes every character once, each loop here decides for itself how far
it goes and what it leaves, so nothing in its form tells that it ends, or that it leaves nothing of
the text. A loop that is never left has no value.

Reading ends because it moves on: a turn of a loop that does not leave it leaves less of the text.

## Main definitions

* `Cursor`, `Descent`: where the reader stands, and what reading comes to
* `LoopTurn`, `loop`: one turn of a loop, and the loop
* `Descent.blankTurn`, `Descent.nameTurn`, `Descent.quotedTurn`, `Descent.argumentTurn`,
  `Descent.argumentsTurn`, `Descent.chainTurn`: the turns of the loops
* `Descent.invocation`, `Descent.chain`: the readers of invocations and of chains
* `Yields`: reading ends, and with what
* `Advances`, `Forward`: loops that move on, and readers that do not go back

## Main results

* `loop_eq`: a loop is a turn, and the loop again if the turn did not leave it
* `Yields.loop`: a loop that moves on ends, with what its turns keep
* `Descent.chain_forward`: reading a chain ends, wherever it begins
* `Descent.argument_behind`: the reader of an argument moves on where it is called
* `Descent.invocation_stops`: where an invocation ends
-/

/-- What a partial function comes to, if it comes to anything. Among chains the library's name for
it stands for the parts of arguments. -/
abbrev PFun.Value := Part

namespace ChatCommands

/-- Where a reader stands: what is left of the text, and what has been reported. -/
structure Cursor where
  rest : List Char
  reports : List LogEvent := []

/-- The cursor with one more report. -/
def Cursor.report (c : Cursor) (e : LogEvent) : Cursor := { c with reports := c.reports ++ [e] }

/-- What reading comes to. Reading that never ends has no value. Where a sub-chain is too deep,
reading is given up, with the reports made until then. -/
abbrev Descent := ExceptT (List LogEvent) PFun.Value

/-- What a turn of a loop comes to: another turn, or the end of the loop. -/
inductive LoopTurn (α β : Type) where
  | again (a : α)
  | leaves (b : β)

/-- Where a turn leads: out of the loop, also if reading is given up, or to another turn. -/
def LoopTurn.next {α β : Type} : Except (List LogEvent) (Cursor × LoopTurn α β) →
    Except (List LogEvent) (Cursor × β) ⊕ Cursor × α
  | .error r => .inl (.error r)
  | .ok (c, leaves b) => .inl (.ok (c, b))
  | .ok (c, again a) => .inr (c, a)

section Loop

variable {α β : Type} (turn : Cursor → α → Descent (Cursor × LoopTurn α β)) (c : Cursor) (a : α)

/-- A turn as a partial function. -/
def LoopTurn.step : Cursor × α →. Except (List LogEvent) (Cursor × β) ⊕ Cursor × α :=
  fun p => (turn p.1 p.2).run.map next

/-- Turn after turn, until the loop is left. -/
def loop : Descent (Cursor × β) := .mk ((LoopTurn.step turn).fix (c, a))

/-- A loop is a turn, and the loop again if the turn did not leave it. -/
theorem loop_eq : loop turn c a = turn c a >>= fun
    | (c, .again a) => loop turn c a
    | (c, .leaves b) => pure (c, b) := by
  -- Both have the same values: a turn that leaves the loop is the last, any other has a successor.
  refine Part.ext fun z => ?_
  refine PFun.mem_fix_iff.trans (Iff.trans ?_ Part.mem_bind_iff.symm)
  constructor
  · rintro (hz | ⟨⟨c', a'⟩, ht, hz⟩)
    · obtain ⟨x, hx, ht⟩ := (Part.mem_map_iff _).mp hz
      refine ⟨x, hx, ?_⟩
      rcases x with r | ⟨c', a' | b⟩
      · obtain rfl := Sum.inl.inj ht
        exact Part.mem_some _
      · cases ht
      · obtain rfl := Sum.inl.inj ht
        exact Part.mem_some _
    · obtain ⟨x, hx, ht⟩ := (Part.mem_map_iff _).mp ht
      refine ⟨x, hx, ?_⟩
      rcases x with r | ⟨c'', a'' | b⟩
      · cases ht
      · obtain ⟨rfl, rfl⟩ := Prod.mk.inj (Sum.inr.inj ht)
        exact hz
      · cases ht
  · rintro ⟨r | ⟨c', a' | b⟩, hx, hz⟩
    · obtain rfl := Part.mem_some_iff.mp hz
      exact .inl (Part.mem_map _ hx)
    · exact .inr ⟨(c', a'), Part.mem_map _ hx, hz⟩
    · obtain rfl := Part.mem_some_iff.mp hz
      exact .inl (Part.mem_map _ hx)

end Loop

namespace Descent

/-- Nothing is read once reading was given up. -/
theorem throw_bind {α β : Type} (r : List LogEvent) (f : α → Descent β) :
    (throw r : Descent α) >>= f = throw r := Part.bind_some _ _

/-- Skips a blank. -/
def blankTurn (c : Cursor) (_ : Unit) : Descent (Cursor × LoopTurn Unit Unit) :=
  match c.rest with
  | [] => pure (c, .leaves ())
  | ch :: t => if blank ch then pure ({ c with rest := t }, .again ()) else pure (c, .leaves ())

/-- Skips blanks. -/
def blanks (c : Cursor) : Descent (Cursor × Unit) := loop blankTurn c ()

section Readers

variable (y : Symbols) (depth : Nat)

/-- Whether an invocation ends with a character: with the delimiter, and within sub-chains with
the end of the sub-chain. -/
def endsWith (ch : Char) : Bool := ch == y.delimiter || (depth != 0 && ch == y.subEnd)

/-- Whether an invocation ends before the rest of a text. -/
def segmentEnd : List Char → Bool
  | [] => true
  | ch :: _ => endsWith y depth ch

/-- The character that a backslash before it makes ordinary, and what is left behind it. There is
none within sub-chains, and none behind a backslash at the end of the text. -/
def escaped? : List Char → Option (Char × List Char)
  | b :: ch :: t => if depth = 0 ∧ b = '\\' then some (ch, t) else none
  | _ => none

/-- Reads a character of a name. -/
def nameTurn (c : Cursor) (w : List Char) : Descent (Cursor × LoopTurn (List Char) (List Char)) :=
  match c.rest with
  | [] => pure (c, .leaves w)
  | ch :: t =>
    if blank ch || ch == y.argsDelimiter || ch == y.subStart || segmentEnd y depth (ch :: t) then
      pure (c, .leaves w)
    else match escaped? depth (ch :: t) with
      | some (e, u) => pure ({ c with rest := u }, .again (w ++ [e]))
      | none => pure ({ c with rest := t }, .again (w ++ [ch]))

/-- Reads a name, which may be empty. -/
def name (c : Cursor) : Descent (Cursor × List Char) := loop (nameTurn y depth) c []

/-- Reads a character in quotes. -/
def quotedTurn (c : Cursor) (s : List Char) : Descent (Cursor × LoopTurn (List Char) (List Char)) :=
  match c.rest with
  | [] => pure (c.report .quoteUnterminated, .leaves s)
  | ch :: t =>
    if ch = '\\' ∧ t.head? = some y.quoteEnd then
      pure ({ c with rest := t.tail }, .again (s ++ [y.quoteEnd]))
    else if ch = y.quoteEnd then pure ({ c with rest := t }, .leaves s)
    else pure ({ c with rest := t }, .again (s ++ [ch]))

/-- Reads a text in quotes, behind its first quote. -/
def quoted (c : Cursor) : Descent (Cursor × List Char) := loop (quotedTurn y) c []

variable (sub : Cursor → Descent (Cursor × Chain))

/-- Reads a piece of an argument. -/
def argumentTurn (c : Cursor) (ps : List Piece) :
    Descent (Cursor × LoopTurn (List Piece) Argument) :=
  match c.rest with
  | [] => pure (c, .leaves (argumentOf y ps))
  | ch :: t =>
    if blank ch || segmentEnd y depth (ch :: t) then pure (c, .leaves (argumentOf y ps))
    else match escaped? depth (ch :: t) with
      | some (e, u) => pure ({ c with rest := u }, .again (ps ++ [.literal [e]]))
      | none =>
        if ch = y.quoteStart then do
          let (c, s) ← quoted y { c with rest := t }
          pure (c, .again (ps ++ [.literal s]))
        else if ch = y.subStart then do
          let (c, chain) ← sub { c with rest := t }
          pure (c, .again (ps ++ [.sub chain]))
        else pure ({ c with rest := t }, .again (ps ++ [.plain [ch]]))

/-- Reads an argument. -/
def argument (c : Cursor) : Descent (Cursor × Argument) := loop (argumentTurn y depth sub) c []

/-- Reads an argument, if the invocation does not end. -/
def argumentsTurn (c : Cursor) (as : List Argument) :
    Descent (Cursor × LoopTurn (List Argument) (List Argument)) := do
  let (c, _) ← blanks c
  if segmentEnd y depth c.rest then pure (c, .leaves as)
  else
    let (c, a) ← argument y depth sub c
    pure (c, .again (as ++ [a]))

/-- Reads the arguments of an invocation. -/
def arguments (c : Cursor) : Descent (Cursor × List Argument) :=
  loop (argumentsTurn y depth sub) c []

/-- Skips the delimiter between a name and arguments, if it stands there. -/
def skipDelimiter (c : Cursor) : Cursor :=
  if c.rest.head? = some y.argsDelimiter then { c with rest := c.rest.tail } else c

/-- Reads an invocation. One without a name is dropped. -/
def invocation (c : Cursor) : Descent (Cursor × Option Invocation) := do
  let (c, _) ← blanks c
  let (c, w) ← name y depth c
  let (c, _) ← blanks c
  let (c, as) ← arguments y depth sub (skipDelimiter y c)
  if w.isEmpty then
    pure (if as.isEmpty then c else c.report (.invocationWithoutName as.length), none)
  else pure (c, some (.call (String.ofList w) as))

/-- Reads an invocation of a chain and the character behind it. -/
def chainTurn (c : Cursor) (done : Chain) : Descent (Cursor × LoopTurn Chain Chain) := do
  let (c, i) ← invocation y depth sub c
  let done := done ++ i.toList
  match c.rest with
  | [] => pure (if depth = 0 then c else c.report (.subChainUnterminated depth), .leaves done)
  | ch :: t =>
    if ch = y.delimiter then pure ({ c with rest := t }, .again done)
    else pure ({ c with rest := t }, .leaves done)

end Readers

/-- Reads a chain at a depth, if it is not too deep. -/
def chain (a : Attributes) (depth : Nat) (c : Cursor) : Descent (Cursor × Chain) :=
  if a.maxDepth < depth then throw c.reports
  else loop (chainTurn a.symbols depth (chain a (depth + 1))) c []
termination_by a.maxDepth + 1 - depth

end Descent

/-! ## Reading that ends -/

section Rules

variable {α β γ : Type} {Q Q' : Cursor → β → Prop} {E E' : List LogEvent → Prop} {c c' : Cursor}
  {a : α} {b : β} {r : List LogEvent} {x : Descent (Cursor × β)}

/-- Reading ends: with a cursor and a value of which `Q` holds, or it is given up with reports of
which `E` holds. -/
inductive Yields (Q : Cursor → β → Prop) (E : List LogEvent → Prop) :
    Descent (Cursor × β) → Prop where
  | done {c : Cursor} {b : β} (h : Q c b) : Yields Q E (pure (c, b))
  | refused {r : List LogEvent} (h : E r) : Yields Q E (throw r)

/-- Any reports will do. -/
def Always (_ : List LogEvent) : Prop := True

namespace Yields

@[simp] theorem pure_iff : Yields Q E (pure (c, b)) ↔ Q c b := by
  refine ⟨?_, .done⟩
  generalize hx : (pure (c, b) : Descent (Cursor × β)) = x
  rintro (⟨h⟩ | ⟨h⟩)
  · cases Part.some_inj.mp hx
    exact h
  · cases Part.some_inj.mp hx

@[simp] theorem throw_iff : Yields Q E (throw r : Descent (Cursor × β)) ↔ E r := by
  refine ⟨?_, .refused⟩
  generalize hx : (throw r : Descent (Cursor × β)) = x
  rintro (⟨h⟩ | ⟨h⟩)
  · cases Part.some_inj.mp hx
  · cases Part.some_inj.mp hx
    exact h

theorem mono (h : Yields Q E x) (hQ : ∀ c b, Q c b → Q' c b) (hE : ∀ r, E r → E' r) :
    Yields Q' E' x := by
  rcases h with ⟨h⟩ | ⟨h⟩
  · exact .done (hQ _ _ h)
  · exact .refused (hE _ h)

theorem and (h : Yields Q E x) (h' : Yields Q' E' x) :
    Yields (fun c b => Q c b ∧ Q' c b) E' x := by
  rcases h with ⟨h⟩ | ⟨h⟩
  · exact .done ⟨h, pure_iff.mp h'⟩
  · exact .refused (throw_iff.mp h')

/-- What is read next is read from where the reader stands then. -/
theorem bind {Q' : Cursor → γ → Prop} {f : Cursor × β → Descent (Cursor × γ)} (h : Yields Q E x)
    (hf : ∀ c b, Q c b → Yields Q' E (f (c, b))) : Yields Q' E (x >>= f) := by
  rcases h with ⟨h⟩ | ⟨h⟩
  · rw [pure_bind]
    exact hf _ _ h
  · rw [Descent.throw_bind]
    exact .refused h

/-- What is read next matters only where the reader can stand then. -/
theorem bind_congr {f g : Cursor × β → Descent (Cursor × γ)} (h : Yields Q E x)
    (hf : ∀ c b, Q c b → f (c, b) = g (c, b)) : x >>= f = x >>= g := by
  rcases h with ⟨h⟩ | ⟨h⟩
  · rw [pure_bind, pure_bind, hf _ _ h]
  · rw [Descent.throw_bind, Descent.throw_bind]

end Yields

/-- Less of the text is left, and what is left is its end. -/
def Cursor.Behind (c c' : Cursor) : Prop := c.rest <:+ c'.rest ∧ c.rest ≠ c'.rest

namespace Cursor.Behind

theorem suffix (h : c.Behind c') : c.rest <:+ c'.rest := h.1

theorem length_lt (h : c.Behind c') : c.rest.length < c'.rest.length :=
  Nat.lt_of_le_of_ne h.1.length_le fun e => h.2 (h.1.eq_of_length e)

/-- Behind a character, and anywhere behind that. -/
theorem of_cons {ch : Char} {t : List Char} (hc : c'.rest = ch :: t) (h : c.rest <:+ t) :
    c.Behind c' := by
  refine ⟨hc ▸ h.trans (List.suffix_cons ch t), ?_⟩
  intro e
  have hl := h.length_le
  rw [e, hc, List.length_cons] at hl
  omega

theorem of_suffix {c'' : Cursor} (h : c.Behind c') (h' : c'.rest <:+ c''.rest) : c.Behind c'' :=
  ⟨h.1.trans h', fun e => h.2 (h.1.eq_of_length (le_antisymm h.1.length_le (e ▸ h'.length_le)))⟩

theorem suffix_trans {c'' : Cursor} (h : c.rest <:+ c'.rest) (h' : c'.Behind c'') :
    c.Behind c'' :=
  ⟨h.trans h'.1, fun e => h'.2 (h'.1.eq_of_length (le_antisymm h'.1.length_le (e ▸ h.length_le)))⟩

end Cursor.Behind

/-- A turn of a loop does not go back, and another one begins only behind where this one did. -/
def LoopTurn.Moves (c c' : Cursor) : LoopTurn α β → Prop
  | again _ => c'.Behind c
  | leaves _ => c'.rest <:+ c.rest

/-- What a loop keeps, and what holds when it is left. -/
def LoopTurn.Keeps (I : Cursor → α → Prop) (Q : Cursor → β → Prop) (c : Cursor) :
    LoopTurn α β → Prop
  | again a => I c a
  | leaves b => Q c b

/-- Every turn of a loop ends and moves on, unless it leaves the loop. -/
def Advances (turn : Cursor → α → Descent (Cursor × LoopTurn α β)) : Prop :=
  ∀ c a, Yields (fun c' t => t.Moves c c') Always (turn c a)

/-- Reading ends, and does not go back. -/
def Forward (read : Cursor → Descent (Cursor × β)) : Prop :=
  ∀ c, Yields (fun c' _ => c'.rest <:+ c.rest) Always (read c)

variable {turn : Cursor → α → Descent (Cursor × LoopTurn α β)}

/-- A loop that moves on ends, and what each turn keeps holds when it is left. -/
theorem Yields.loop {I : Cursor → α → Prop} (hturn : Advances turn)
    (h : ∀ c a, I c a → Yields (fun c t => t.Keeps I Q c) E (turn c a)) (hI : I c a) :
    Yields Q E (loop turn c a) := by
  -- By induction on how much of the text is left.
  generalize hn : c.rest.length = n
  induction n using Nat.strong_induction_on generalizing c a with
  | _ n ih =>
    rw [loop_eq]
    refine ((hturn c a).and (h c a hI)).bind ?_
    rintro c' (a' | b) ⟨hm, hk⟩
    · exact ih _ (hn ▸ hm.length_lt) hk rfl
    · exact .done hk

/-- Loops of turns that are the same wherever the reader can come are the same. -/
theorem loop_congr {turn' : Cursor → α → Descent (Cursor × LoopTurn α β)} (hturn : Advances turn)
    (h : ∀ c' a, c'.rest <:+ c.rest → turn c' a = turn' c' a) :
    loop turn c a = loop turn' c a := by
  generalize hn : c.rest.length = n
  induction n using Nat.strong_induction_on generalizing c a with
  | _ n ih =>
    rw [loop_eq, loop_eq, ← h c a (List.suffix_refl _)]
    refine (hturn c a).bind_congr ?_
    rintro c' (a' | b) hm
    · exact ih _ (hn ▸ hm.length_lt) (fun c'' a'' hc => h c'' a'' (hc.trans hm.suffix)) rfl
    · rfl

/-- A loop that moves on ends, and does not go back. -/
theorem Advances.forward (hturn : Advances turn) (a : α) : Forward fun c => loop turn c a := by
  intro c
  refine Yields.loop (I := fun c' _ => c'.rest <:+ c.rest) hturn ?_ (List.suffix_refl _)
  intro c' a' hc'
  refine (hturn c' a').mono ?_ fun _ h => h
  rintro c'' (a'' | b) h
  · exact h.suffix.trans hc'
  · exact List.IsSuffix.trans h hc'

end Rules

namespace Descent

variable {y : Symbols} {depth : Nat} {sub sub' : Cursor → Descent (Cursor × Chain)} {c : Cursor}
  {ch : Char} {t : List Char}

/-! ## The loops move on -/

theorem escaped?_eq_some {l u : List Char} {e : Char} :
    escaped? depth l = some (e, u) ↔ depth = 0 ∧ l = '\\' :: e :: u := by
  rcases l with - | ⟨b, - | ⟨ch, t⟩⟩
  · simp [escaped?]
  · simp [escaped?]
  · simp only [escaped?, Option.ite_none_right_eq_some, Option.some.injEq, Prod.mk.injEq,
      List.cons.injEq]
    tauto

/-- What is left behind an escaped character is left behind the backslash too. -/
theorem escaped?_suffix {u : List Char} {e : Char} (h : escaped? depth (ch :: t) = some (e, u)) :
    u <:+ t := by
  obtain ⟨-, hu⟩ := escaped?_eq_some.mp h
  obtain ⟨-, rfl⟩ := List.cons.inj hu
  exact List.suffix_cons e u

theorem blankTurn_advances : Advances blankTurn := by
  intro c a
  unfold blankTurn
  split
  next hc => exact .done (List.suffix_refl _)
  next ch t hc =>
    split
    · exact .done (.of_cons hc (List.suffix_refl t))
    · exact .done (List.suffix_refl _)

theorem nameTurn_advances : Advances (nameTurn y depth) := by
  intro c w
  unfold nameTurn
  split
  next hc => exact .done (List.suffix_refl _)
  next ch t hc =>
    split
    · exact .done (List.suffix_refl _)
    · split
      next e u he => exact .done (.of_cons hc (escaped?_suffix he))
      next => exact .done (.of_cons hc (List.suffix_refl t))

theorem quotedTurn_advances : Advances (quotedTurn y) := by
  intro c s
  unfold quotedTurn
  split
  next hc => exact .done (List.suffix_refl _)
  next ch t hc =>
    split
    · exact .done (.of_cons hc (List.tail_suffix t))
    · split
      · exact .done (show t <:+ c.rest from hc ▸ List.suffix_cons ch t)
      · exact .done (.of_cons hc (List.suffix_refl t))

theorem blanks_forward : Forward blanks := blankTurn_advances.forward ()

theorem name_forward : Forward (name y depth) := nameTurn_advances.forward []

theorem quoted_forward : Forward (quoted y) := quotedTurn_advances.forward []

/-- Before a character that ends no argument, a turn reads a piece of it and moves on. -/
theorem argumentTurn_again (hsub : Forward sub) (hc : c.rest = ch :: t) (hb : blank ch = false)
    (he : endsWith y depth ch = false) (ps : List Piece) :
    Yields (fun c' t => c'.Behind c ∧ ∃ ps', t = .again ps') Always
      (argumentTurn y depth sub c ps) := by
  have hend : (blank ch || segmentEnd y depth (ch :: t)) = false := by simp [segmentEnd, hb, he]
  simp only [argumentTurn, hc, hend, Bool.false_eq_true, reduceIte]
  split
  next e u hu => exact .done ⟨.of_cons hc (escaped?_suffix hu), _, rfl⟩
  next =>
    split
    · exact (quoted_forward _).bind fun c' _ h => .done ⟨.of_cons hc h, _, rfl⟩
    · split
      · exact (hsub _).bind fun c' _ h => .done ⟨.of_cons hc h, _, rfl⟩
      · exact .done ⟨.of_cons hc (List.suffix_refl t), _, rfl⟩

theorem argumentTurn_advances (hsub : Forward sub) : Advances (argumentTurn y depth sub) := by
  intro c ps
  rcases hc : c.rest with - | ⟨ch, t⟩
  · simp only [argumentTurn, hc]
    exact .done (List.suffix_refl _)
  · by_cases hend : (blank ch || segmentEnd y depth (ch :: t)) = true
    · simp only [argumentTurn, hc, hend, reduceIte]
      exact .done (List.suffix_refl _)
    · simp only [segmentEnd, Bool.not_eq_true, Bool.or_eq_false_iff] at hend
      refine (argumentTurn_again hsub hc hend.1 hend.2 ps).mono ?_ fun _ h => h
      rintro c' _ ⟨h, ps', rfl⟩
      exact h

theorem argument_forward (hsub : Forward sub) : Forward (argument y depth sub) :=
  (argumentTurn_advances hsub).forward []

/-- Where the reader of an argument is called it moves on. -/
theorem argument_behind (hsub : Forward sub) (hc : c.rest = ch :: t) (hb : blank ch = false)
    (he : endsWith y depth ch = false) :
    Yields (fun c' _ => c'.Behind c) Always (argument y depth sub c) := by
  -- The first turn does not leave the loop, and the turns after it do not go back.
  rw [argument, loop_eq]
  refine (argumentTurn_again hsub hc hb he []).bind ?_
  rintro c' _ ⟨h, ps, rfl⟩
  exact ((argumentTurn_advances hsub).forward ps c').mono
    (fun _ _ h' => .suffix_trans h' h) fun _ h => h

/-- No blank is left before the rest of a text. -/
def Skipped (t : List Char) : Prop := ∀ ch ∈ t.head?, blank ch = false

/-- Behind blanks stands none. -/
theorem blanks_skipped (c : Cursor) :
    Yields (fun c' _ => c'.rest <:+ c.rest ∧ Skipped c'.rest) Always (blanks c) := by
  refine (blanks_forward c).and ?_
  refine Yields.loop (I := fun _ _ => True) blankTurn_advances ?_ trivial
  intro c _ _
  unfold blankTurn
  split
  next hc => exact .done (show Skipped c.rest by simp [Skipped, hc])
  next ch t hc =>
    split
    next => exact .done trivial
    next hb => exact .done (show Skipped c.rest by simpa [Skipped, hc] using hb)

/-- An argument is read where no blank stands and the invocation does not end. -/
theorem exists_cons_of_not_segmentEnd {l : List Char} (hs : Skipped l)
    (he : segmentEnd y depth l = false) :
    ∃ ch t, l = ch :: t ∧ blank ch = false ∧ endsWith y depth ch = false := by
  rcases l with - | ⟨ch, t⟩
  · cases he
  · exact ⟨ch, t, rfl, hs ch rfl, he⟩

theorem argumentsTurn_advances (hsub : Forward sub) : Advances (argumentsTurn y depth sub) := by
  intro c as
  refine (blanks_skipped c).bind ?_
  rintro c' - ⟨h, hs⟩
  by_cases he : segmentEnd y depth c'.rest = true
  · simp only [he, reduceIte]
    exact .done h
  · simp only [he, Bool.false_eq_true, reduceIte]
    obtain ⟨ch, t, hc, hb, he⟩ := exists_cons_of_not_segmentEnd hs (Bool.not_eq_true _ ▸ he)
    exact (argument_behind hsub hc hb he).bind fun _ _ h' => .done (h'.of_suffix h)

theorem arguments_forward (hsub : Forward sub) : Forward (arguments y depth sub) :=
  (argumentsTurn_advances hsub).forward []

/-- Behind an invocation no blank stands, and the invocation ends there. -/
def Stops (y : Symbols) (depth : Nat) (t : List Char) : Prop :=
  Skipped t ∧ segmentEnd y depth t = true

theorem arguments_stops (hsub : Forward sub) (c : Cursor) :
    Yields (fun c' _ => Stops y depth c'.rest) Always (arguments y depth sub c) := by
  refine Yields.loop (I := fun _ _ => True) (argumentsTurn_advances hsub) ?_ trivial
  intro c as _
  refine (blanks_skipped c).bind ?_
  rintro c' - ⟨-, hs⟩
  by_cases he : segmentEnd y depth c'.rest = true
  · simp only [he, reduceIte]
    exact .done ⟨hs, he⟩
  · simp only [he, Bool.false_eq_true, reduceIte]
    exact (argument_forward hsub c').bind fun _ _ _ => .done trivial

theorem skipDelimiter_suffix (c : Cursor) : (skipDelimiter y c).rest <:+ c.rest := by
  unfold skipDelimiter
  split
  · exact List.tail_suffix c.rest
  · exact List.suffix_refl _

/-- An invocation is left where it ends. -/
theorem invocation_stops (hsub : Forward sub) (c : Cursor) :
    Yields (fun c' _ => c'.rest <:+ c.rest ∧ Stops y depth c'.rest) Always
      (invocation y depth sub c) := by
  refine (blanks_forward c).bind fun c₁ _ h₁ => ?_
  refine (name_forward c₁).bind fun c₂ w h₂ => ?_
  refine (blanks_forward c₂).bind fun c₃ _ h₃ => ?_
  refine ((arguments_forward hsub _).and (arguments_stops hsub _)).bind fun c₄ as h₄ => ?_
  have h := h₄.1.trans ((skipDelimiter_suffix c₃).trans (h₃.trans (h₂.trans h₁)))
  by_cases hw : w.isEmpty = true
  · simp only [hw, reduceIte]
    refine .done ?_
    split
    · exact ⟨h, h₄.2⟩
    · exact ⟨h, h₄.2⟩
  · simp only [hw, Bool.false_eq_true, reduceIte]
    exact .done ⟨h, h₄.2⟩

theorem chainTurn_advances (hsub : Forward sub) : Advances (chainTurn y depth sub) := by
  intro c done
  refine (invocation_stops hsub c).bind ?_
  rintro c' i ⟨h, -⟩
  rcases hc : c'.rest with - | ⟨ch, t⟩
  · simp only [hc]
    refine .done ?_
    split
    · exact h
    · exact h
  · simp only [hc]
    have ht : t <:+ c'.rest := hc ▸ List.suffix_cons ch t
    split
    · exact .done ((Cursor.Behind.of_cons hc (List.suffix_refl t)).of_suffix h)
    · exact .done (ht.trans h)

/-- Reading a chain ends, wherever it begins and at any depth. -/
theorem chain_forward (a : Attributes) (depth : Nat) : Forward (chain a depth) := by
  -- By induction on how much deeper a sub-chain may be.
  generalize hn : a.maxDepth + 1 - depth = n
  induction n generalizing depth with
  | zero =>
    intro c
    rw [chain, if_pos (by omega)]
    exact .refused trivial
  | succ n ih =>
    intro c
    rw [chain, if_neg (by omega)]
    exact (chainTurn_advances (ih (depth + 1) (by omega))).forward [] c

/-! ## Sub-chains begin behind the chains around them

What is read does not depend on how a sub-chain would be read that begins anywhere else. -/

theorem argumentTurn_congr (h : ∀ c', c'.Behind c → sub c' = sub' c') (ps : List Piece) :
    argumentTurn y depth sub c ps = argumentTurn y depth sub' c ps := by
  rcases hc : c.rest with - | ⟨ch, t⟩
  · simp only [argumentTurn, hc]
  · have ht := h { c with rest := t } (.of_cons hc (List.suffix_refl t))
    simp only [argumentTurn, hc, ht]

theorem argument_congr (hsub : Forward sub) (h : ∀ c', c'.Behind c → sub c' = sub' c') :
    argument y depth sub c = argument y depth sub' c :=
  loop_congr (argumentTurn_advances hsub) fun _ ps hc' =>
    argumentTurn_congr (fun c'' hc'' => h c'' (hc''.of_suffix hc')) ps

theorem argumentsTurn_congr (hsub : Forward sub) (h : ∀ c', c'.Behind c → sub c' = sub' c')
    (as : List Argument) :
    argumentsTurn y depth sub c as = argumentsTurn y depth sub' c as := by
  refine (blanks_forward c).bind_congr ?_
  intro c' _ hc'
  simp only [argument_congr hsub fun c'' hc'' => h c'' (hc''.of_suffix hc')]

theorem invocation_congr (hsub : Forward sub) (h : ∀ c', c'.Behind c → sub c' = sub' c') :
    invocation y depth sub c = invocation y depth sub' c := by
  refine (blanks_forward c).bind_congr fun c₁ _ h₁ => ?_
  refine (name_forward c₁).bind_congr fun c₂ w h₂ => ?_
  refine (blanks_forward c₂).bind_congr fun c₃ _ h₃ => ?_
  have hc := (skipDelimiter_suffix (y := y) c₃).trans (h₃.trans (h₂.trans h₁))
  have ha : arguments y depth sub (skipDelimiter y c₃) =
      arguments y depth sub' (skipDelimiter y c₃) :=
    loop_congr (argumentsTurn_advances hsub) fun _ as hc' =>
      argumentsTurn_congr hsub (fun c'' hc'' => h c'' (hc''.of_suffix (hc'.trans hc))) as
  simp only [ha]

/-- A chain is read without regard to sub-chains that do not begin behind it. -/
theorem chain_congr (hsub : Forward sub) (h : ∀ c', c'.Behind c → sub c' = sub' c') :
    loop (chainTurn y depth sub) c [] = loop (chainTurn y depth sub') c [] := by
  refine loop_congr (chainTurn_advances hsub) ?_
  intro c' done hc'
  simp only [chainTurn, invocation_congr hsub fun c'' hc'' => h c'' (hc''.of_suffix hc')]

end Descent

end ChatCommands
