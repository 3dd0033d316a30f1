import ChatCommands.Proofs.Chain.Descent
import ChatCommands.Proofs.Chain.Notes

/-!
# Nothing of a text is left

The reader by descent and the automaton make the same of every text. At each place at which a loop
of the descent begins or is left, the automaton has a state that comes to the same with the rest of
the text, and the notes of that state are the reports that were made. So the descent ends with the
outcome of parsing, and behind the end of the text, unless a sub-chain is too deep.

## Main definitions

* `ScanState.comes`: what a state comes to with the rest of a text
* `Tracks`, `Stands`: the automaton, in a state, comes to an outcome from where the descent stands,
  and has noted what the descent has reported
* `Refused`: the outcome is refused with these reports
* `Descent.MovesOn`: the loops and the recursion of the descent move on

## Main results

* `Descent.argument_stands`, `Descent.invocation_stands`, `Descent.chain_stands`: the readers of
  arguments, invocations and chains keep in step with the automaton
* `parseChain_consumes`: parsing ends, and takes the whole text
-/

namespace ChatCommands

namespace ScanState

variable {y : Symbols} {s s' : ScanState} {o : List (Draft × List Piece)} {d : Draft}
  {n : List Note} {p : List Piece} {w t u : List Char} {ch e : Char}

/-- What a state comes to with the rest of a text. -/
def comes (y : Symbols) (s : ScanState) (t : List Char) : ScanState := (s.read y t).close y

theorem comes_cons (s : ScanState) (ch : Char) (t : List Char) :
    s.comes y (ch :: t) = (s.step y ch).comes y t := rfl

theorem comes_of_step (h : s.step y ch = s'.step y ch) (t : List Char) :
    s.comes y (ch :: t) = s'.comes y (ch :: t) := by
  rw [comes_cons, h, comes_cons]

/-- The end of the text comes to the same where the end of the innermost chain does. -/
theorem close_congr (hs : s.place.isPending = false) (hs' : s'.place.isPending = false)
    (ho : s.outer = s'.outer) (h : s.endChain y = s'.endChain y) : s.close y = s'.close y := by
  have hall (k : Nat) : endAll y k s = endAll y k s' := by cases k <;> simp only [endAll, h]
  rw [close, close, settle_of_not_isPending hs, settle_of_not_isPending hs', depth, depth, ho, hall]

/-- At the end of the text a pending backslash is an ordinary character. -/
theorem close_settle (s : ScanState) : (s.settle y).close y = s.close y := by
  have hp : (s.settle y).place.isPending = false := by
    obtain ⟨o, d, place, n⟩ := s
    cases place with
    | argumentEscape p => exact readMarked_isPending _ p _
    | quotesEscape p w =>
      simp only [settle]
      split <;> rfl
    | _ => rfl
  rw [close, settle_of_not_isPending hp]
  rfl

/-- The automaton and the descent tell the ends of invocations from the same characters. -/
theorem ends_mk (q : Place) (ch : Char) :
    ends y ⟨o, d, q, n⟩ ch = Descent.endsWith y o.length ch := by
  cases o <;> simp [Descent.endsWith, ends]

/-- Where the descent finds a mark, the automaton finds one in the same character. -/
theorem escaped_of_some (h : Descent.escaped? o.length (ch :: t) = some (e, u)) :
    o = [] ∧ ch = '\\' ∧ t = e :: u := by
  obtain ⟨ho, ht⟩ := Descent.escaped?_eq_some.mp h
  obtain ⟨hc, ht⟩ := List.cons.inj ht
  exact ⟨List.length_eq_zero_iff.mp ho, hc, ht⟩

/-- Where the descent finds no mark, the automaton finds one at most in the last character. -/
theorem escapes_of_none {q : Place} (h : Descent.escaped? o.length (ch :: t) = none)
    (he : escapes ⟨o, d, q, n⟩ ch = true) : ch = '\\' ∧ t = [] := by
  obtain ⟨ho, hc⟩ : o = [] ∧ ch = '\\' := by simpa [escapes] using he
  rcases t with - | ⟨b, t⟩
  · exact ⟨hc, rfl⟩
  · simp [Descent.escaped?, ho, hc] at h

/-! ## Places that come to the same -/

/-- Before a name no blank is part of it. -/
theorem comes_lead (h : Descent.Skipped t) :
    comes y ⟨o, d, .lead, n⟩ t = comes y ⟨o, d, .name, n⟩ t := by
  rcases t with - | ⟨ch, t⟩
  · exact close_congr rfl rfl rfl rfl
  · exact comes_of_step (step_lead (h ch rfl)) t

theorem comes_name_nil : comes y ⟨o, d, .name, n⟩ [] = comes y ⟨o, d, .gap, n⟩ [] :=
  close_congr rfl rfl rfl rfl

/-- A character at which a name ends is read as behind the name. -/
theorem comes_name_cons (h : (blank ch || ch == y.argsDelimiter || ch == y.subStart ||
      Descent.endsWith y o.length ch) = true) :
    comes y ⟨o, d, .name, n⟩ (ch :: t) = comes y ⟨o, d, .gap, n⟩ (ch :: t) := by
  refine comes_of_step ?_ t
  by_cases hb : blank ch = true
  · simp [step, readName, readGap, hb]
  · by_cases ha : ch = y.argsDelimiter
    · simp [step, readName, readGap, ha]
    · have hc : (decide (ch = y.subStart) || ends y ⟨o, d, .name, n⟩ ch) = true := by
        simpa [ends_mk, hb, ha] using h
      simp only [step, readName, readGap, hb, ha, hc, Bool.false_eq_true, reduceIte]
      rfl

/-- Behind a name the delimiter of arguments is skipped, if it stands there. -/
theorem comes_gap {c : Cursor} (h : Descent.Skipped c.rest) :
    comes y ⟨o, d, .gap, n⟩ c.rest =
      comes y ⟨o, d, .between, n⟩ (Descent.skipDelimiter y c).rest := by
  obtain ⟨t, r⟩ := c
  rcases t with - | ⟨ch, t⟩
  · exact close_congr rfl rfl rfl rfl
  · have hb : blank ch = false := h ch rfl
    by_cases ha : ch = y.argsDelimiter
    · subst ha
      have hs : step y ⟨o, d, .gap, n⟩ y.argsDelimiter = ⟨o, d, .between, n⟩ := by
        simp only [step, readGap, hb, Bool.false_eq_true, reduceIte]
      simp only [Descent.skipDelimiter, comes_cons, hs, List.head?_cons, reduceIte, List.tail_cons]
    · have hs : step y ⟨o, d, .gap, n⟩ ch = step y ⟨o, d, .between, n⟩ ch := by
        simp only [step, readGap, hb, ha, Bool.false_eq_true, reduceIte]
        rfl
      simp only [Descent.skipDelimiter, List.head?_cons, Option.some.injEq, ha, reduceIte]
      exact comes_of_step hs t

theorem comes_between (hb : blank ch = false) (he : Descent.endsWith y o.length ch = false) :
    comes y ⟨o, d, .between, n⟩ (ch :: t) = comes y ⟨o, d, .argument [], n⟩ (ch :: t) := by
  refine comes_of_step ?_ t
  simp only [step, readBetween, hb, ends_mk, he, Bool.false_eq_true, reduceIte]
  rfl

theorem comes_argument_nil :
    comes y ⟨o, d, .argument p, n⟩ [] =
      comes y ⟨o, d.addArgument (argumentOf y p), .between, n⟩ [] :=
  close_congr rfl rfl rfl rfl

/-- A character at which an argument ends is read as behind the argument. -/
theorem comes_argument_cons (h : (blank ch || Descent.endsWith y o.length ch) = true) :
    comes y ⟨o, d, .argument p, n⟩ (ch :: t) =
      comes y ⟨o, d.addArgument (argumentOf y p), .between, n⟩ (ch :: t) := by
  refine comes_of_step ?_ t
  by_cases hb : blank ch = true
  · simp [step, readArgument, readBetween, hb, endArgument]
  · have he : Descent.endsWith y o.length ch = true := by simpa [hb] using h
    simp [step, readArgument, readBetween, hb, endArgument, ends_mk, he]

/-! ## Characters of names, arguments and quotes -/

theorem comes_name_escaped (hn : (blank ch || ch == y.argsDelimiter || ch == y.subStart ||
      Descent.endsWith y o.length ch) = false)
    (h : Descent.escaped? o.length (ch :: t) = some (e, u)) :
    comes y ⟨o, d, .name, n⟩ (ch :: t) =
      comes y ⟨o, { d with name := d.name ++ [e] }, .name, n⟩ u := by
  obtain ⟨rfl, rfl, rfl⟩ := escaped_of_some h
  simp only [Bool.or_eq_false_iff, beq_eq_false_iff_ne, List.length_nil] at hn
  have hs : step y ⟨[], d, .name, n⟩ '\\' = ⟨[], d, .nameEscape, n⟩ := by
    simp [step, readName, ends_mk, hn, escapes]
  rw [comes_cons, hs]
  rfl

theorem comes_name_char (hn : (blank ch || ch == y.argsDelimiter || ch == y.subStart ||
      Descent.endsWith y o.length ch) = false)
    (h : Descent.escaped? o.length (ch :: t) = none) :
    comes y ⟨o, d, .name, n⟩ (ch :: t) =
      comes y ⟨o, { d with name := d.name ++ [ch] }, .name, n⟩ t := by
  simp only [Bool.or_eq_false_iff, beq_eq_false_iff_ne] at hn
  by_cases he : escapes ⟨o, d, .name, n⟩ ch = true
  · obtain ⟨hc, rfl⟩ := escapes_of_none h he
    -- The backslash is the last character, and stays pending until the end.
    have hs : step y ⟨o, d, .name, n⟩ ch = ⟨o, d, .nameEscape, n⟩ := by
      simp [step, readName, ends_mk, hn, he]
    rw [comes_cons, hs, comes, read_nil, ← close_settle, hc]
    rfl
  · have hs : step y ⟨o, d, .name, n⟩ ch = ⟨o, { d with name := d.name ++ [ch] }, .name, n⟩ := by
      simp [step, readName, ends_mk, hn, he]
    rw [comes_cons, hs]

theorem comes_argument_escaped (hn : (blank ch || Descent.endsWith y o.length ch) = false)
    (h : Descent.escaped? o.length (ch :: t) = some (e, u)) :
    comes y ⟨o, d, .argument p, n⟩ (ch :: t) =
      comes y ⟨o, d, .argument (p ++ [.literal [e]]), n⟩ u := by
  obtain ⟨rfl, rfl, rfl⟩ := escaped_of_some h
  rw [Bool.or_eq_false_iff, List.length_nil] at hn
  have hs : step y ⟨[], d, .argument p, n⟩ '\\' = ⟨[], d, .argumentEscape p, n⟩ := by
    simp [step, readArgument, ends_mk, hn, escapes]
  rw [comes_cons, hs]
  rfl

theorem comes_argument_marked (hn : (blank ch || Descent.endsWith y o.length ch) = false)
    (h : Descent.escaped? o.length (ch :: t) = none) :
    comes y ⟨o, d, .argument p, n⟩ (ch :: t) =
      comes y (readMarked y ⟨o, d, .argument p, n⟩ p ch) t := by
  rw [Bool.or_eq_false_iff] at hn
  by_cases he : escapes ⟨o, d, .argument p, n⟩ ch = true
  · obtain ⟨hc, rfl⟩ := escapes_of_none h he
    have hs : step y ⟨o, d, .argument p, n⟩ ch = ⟨o, d, .argumentEscape p, n⟩ := by
      simp [step, readArgument, ends_mk, hn, he]
    rw [comes_cons, hs, comes, read_nil, ← close_settle, hc]
    rfl
  · have hs : step y ⟨o, d, .argument p, n⟩ ch = readMarked y ⟨o, d, .argument p, n⟩ p ch := by
      simp [step, readArgument, ends_mk, hn, he]
    rw [comes_cons, hs]

theorem comes_quotes_nil :
    comes y ⟨o, d, .quotes p w, n⟩ [] =
      comes y ⟨o, d, .argument (p ++ [.literal w]), n ++ [.quoteUnterminated]⟩ [] :=
  close_congr rfl rfl rfl rfl

theorem comes_quotes_escaped :
    comes y ⟨o, d, .quotes p w, n⟩ ('\\' :: y.quoteEnd :: t) =
      comes y ⟨o, d, .quotes p (w ++ [y.quoteEnd]), n⟩ t := by
  simp [comes_cons, step, readQuotes]

/-- The place behind a character in quotes that no backslash marks. -/
def quotesNext (y : Symbols) (p : List Piece) (w : List Char) (ch : Char) : Place :=
  if ch = y.quoteEnd then .argument (p ++ [.literal w]) else .quotes p (w ++ [ch])

theorem comes_quotes_char (h : ¬(ch = '\\' ∧ t.head? = some y.quoteEnd)) :
    comes y ⟨o, d, .quotes p w, n⟩ (ch :: t) = comes y ⟨o, d, quotesNext y p w ch, n⟩ t := by
  by_cases hc : ch = '\\'
  · -- What a backslash is, a mark or an ordinary character, is told by what follows it.
    have hs : step y ⟨o, d, .quotes p w, n⟩ ch = ⟨o, d, .quotesEscape p w, n⟩ := by
      simp [step, readQuotes, hc]
    rw [comes_cons, hs, hc]
    rcases t with - | ⟨b, t⟩
    · have hset : settle y ⟨o, d, .quotesEscape p w, n⟩ = ⟨o, d, quotesNext y p w '\\', n⟩ := by
        simp only [settle, quotesNext]
        split <;> rfl
      rw [comes, read_nil, ← close_settle, hset]
      rfl
    · have hb : b ≠ y.quoteEnd := by simpa [hc] using h
      refine comes_of_step ?_ t
      by_cases hq : '\\' = y.quoteEnd
      · simp only [step, quotesNext, hb, if_pos hq, reduceIte]
        rfl
      · simp only [step, quotesNext, hb, if_neg hq, reduceIte]
        rfl
  · have hs : step y ⟨o, d, .quotes p w, n⟩ ch = ⟨o, d, quotesNext y p w ch, n⟩ := by
      simp only [step, readQuotes, quotesNext, hc, reduceIte]
      split <;> rfl
    rw [comes_cons, hs]

/-! ## The end of an invocation -/

/-- The end of the text ends an invocation, and the sub-chain if there is one around it. -/
theorem comes_between_nil {done : Chain} {n' : List Note}
    (h : endInvocation ⟨o, d, .between, n⟩ = ⟨o, { done := done }, .lead, n'⟩) :
    comes y ⟨o, d, .between, n⟩ [] =
      comes y (closeSub ⟨o, { done := done }, .lead,
        if o.length = 0 then n' else n' ++ [.subChainUnterminated o.length]⟩) [] := by
  have hend : endChain y ⟨o, d, .between, n⟩ = ⟨o, { done := done }, .lead, n'⟩ := h
  rcases o with - | ⟨⟨d', p⟩, o⟩
  · exact close_congr rfl rfl rfl (hend.trans rfl)
  · rw [comes, read_nil, close, settle_of_not_isPending rfl, depth, List.length_cons, endAll, hend]
    rfl

/-- A character at which an invocation ends ends it, and the sub-chain around it unless it is the
delimiter. -/
theorem comes_between_cons (hb : blank ch = false) (he : Descent.endsWith y o.length ch = true) :
    comes y ⟨o, d, .between, n⟩ (ch :: t) =
      comes y (if ch = y.delimiter then endInvocation ⟨o, d, .between, n⟩ else
        (endInvocation ⟨o, d, .between, n⟩).closeSub) t := by
  have hs : step y ⟨o, d, .between, n⟩ ch = readEnd y ⟨o, d, .between, n⟩ ch := by
    simp [step, readBetween, hb, ends_mk, he]
  rw [comes_cons, hs]
  rfl

end ScanState

/-! ## In step with the automaton -/

section InStep

variable (a : Attributes) (F : ScanState)

/-- All of these notes are within the limit, and these are the reports of them. -/
structure Tracks (n : List Note) (r : List LogEvent) : Prop where
  within : ∀ e ∈ n, e.exceeds a.maxDepth = false
  reports : n.filterMap Note.event? = r

/-- The automaton, in a state, comes to `F` from where the descent stands, and has noted what the
descent has reported. -/
structure Stands (s : ScanState) (c : Cursor) : Prop where
  comes : s.comes a.symbols c.rest = F
  tracks : Tracks a s.notes c.reports

/-- The automaton comes to notes that go beyond the limit, and until then the descent has reported
what the automaton has noted. -/
def Refused (r : List LogEvent) : Prop :=
  ∃ n d l, Tracks a n r ∧ a.maxDepth < d ∧ F.notes = n ++ .opened d :: l

variable {a F} {s q : ScanState} {c : Cursor} {n : List Note} {r : List LogEvent} {t : List Char}

/-- One more note, and its report if it is one to report. -/
theorem Tracks.add (h : Tracks a n r) {e : Note} (he : e.exceeds a.maxDepth = false) :
    Tracks a (n ++ [e]) (r ++ e.event?.toList) := by
  refine ⟨?_, ?_⟩
  · intro e' he'
    rcases List.mem_append.mp he' with he' | he'
    · exact h.within e' he'
    · rwa [List.mem_singleton.mp he']
  · rw [List.filterMap_append, h.reports]
    cases hv : e.event? <;> simp [hv]

/-- Another state that comes to the same from further on. -/
theorem Stands.move (h : Stands a F s c)
    (hc : s.comes a.symbols c.rest = q.comes a.symbols t) (hn : q.notes = s.notes) :
    Stands a F q { c with rest := t } :=
  ⟨hc ▸ h.comes, hn ▸ h.tracks⟩

/-- Another state that comes to the same. -/
theorem Stands.switch (h : Stands a F s c)
    (hc : s.comes a.symbols c.rest = q.comes a.symbols c.rest) (hn : q.notes = s.notes) :
    Stands a F q c :=
  h.move hc hn

end InStep

namespace Descent

open ScanState

variable {a : Attributes} {F : ScanState} {c : Cursor} {o : List (Draft × List Piece)} {d : Draft}
  {n : List Note} {p : List Piece} {w : List Char} {done : Chain}
  {sub : Cursor → Descent (Cursor × Chain)}

/-- Where blanks have no meaning, they are skipped. -/
theorem blanks_stands {s : ScanState} (hs : ∀ ch, blank ch = true → s.step a.symbols ch = s)
    (h : Stands a F s c) :
    Yields (fun c' _ => Skipped c'.rest ∧ Stands a F s c') (Refused a F) (blanks c) := by
  refine ((blanks_skipped c).mono (fun _ _ h => h.2) fun _ h => h).and ?_
  refine Yields.loop (I := fun c _ => Stands a F s c) blankTurn_advances ?_ h
  intro c _ h
  unfold blankTurn
  split
  next hc => exact .done h
  next ch t hc =>
    split
    next hb => exact .done (h.move (by rw [hc, comes_cons, hs ch hb]) rfl)
    next => exact .done h

/-- A name is read into the draft. -/
theorem name_stands (h : Stands a F ⟨o, d, .name, n⟩ c) :
    Yields (fun c' w => Stands a F ⟨o, { d with name := d.name ++ w }, .gap, n⟩ c') (Refused a F)
      (name a.symbols o.length c) := by
  -- What has been read of the name so far is in the draft already.
  refine Yields.loop (I := fun c w => Stands a F ⟨o, { d with name := d.name ++ w }, .name, n⟩ c)
    nameTurn_advances ?_ (by simpa using h)
  intro c w h
  unfold nameTurn
  split
  next hc => exact .done (h.switch (by rw [hc]; exact comes_name_nil) rfl)
  next ch t hc =>
    split
    next hend => exact .done (h.switch (by rw [hc]; exact comes_name_cons hend) rfl)
    next hend =>
      rw [Bool.not_eq_true] at hend
      split
      next e u he =>
        refine .done (h.move (q := ⟨o, { d with name := d.name ++ (w ++ [e]) }, .name, n⟩) ?_ rfl)
        rw [hc, comes_name_escaped hend he, List.append_assoc]
      next he =>
        refine .done (h.move (q := ⟨o, { d with name := d.name ++ (w ++ [ch]) }, .name, n⟩) ?_ rfl)
        rw [hc, comes_name_char hend he, List.append_assoc]

/-- A text in quotes is read as a piece of the argument. -/
theorem quoted_stands (h : Stands a F ⟨o, d, .quotes p [], n⟩ c) :
    Yields (fun c' w => ∃ n', Stands a F ⟨o, d, .argument (p ++ [.literal w]), n'⟩ c')
      (Refused a F) (quoted a.symbols c) := by
  refine Yields.loop (I := fun c w => Stands a F ⟨o, d, .quotes p w, n⟩ c) quotedTurn_advances ?_ h
  intro c w h
  unfold quotedTurn
  split
  next hc =>
    have ht := h.tracks.add (e := .quoteUnterminated) rfl
    refine .done ⟨_, ?_, ht⟩
    rw [← h.comes, Cursor.report, hc]
    exact comes_quotes_nil.symm
  next ch t hc =>
    split
    next he =>
      obtain ⟨u, rfl⟩ := List.head?_eq_some_iff.mp he.2
      exact .done (h.move (by rw [hc, he.1]; exact comes_quotes_escaped) rfl)
    next he =>
      have hn := h.move (t := t) (q := ⟨o, d, quotesNext a.symbols p w ch, n⟩)
        (by rw [hc]; exact comes_quotes_char he) rfl
      split
      next hq =>
        rw [quotesNext, if_pos hq] at hn
        exact .done ⟨n, hn⟩
      next hq =>
        rw [quotesNext, if_neg hq] at hn
        exact .done hn

/-- What the reader of sub-chains has to do, one deeper than the chains within `o`: from where a
sub-chain was opened, it reads the sub-chain into the argument around it. -/
def KeepsStep (a : Attributes) (F : ScanState) (o : List (Draft × List Piece))
    (sub : Cursor → Descent (Cursor × Chain)) : Prop :=
  ∀ d p n c, (openSub ⟨o, d, .argument p, n⟩ p).comes a.symbols c.rest = F →
    Tracks a n c.reports →
    Yields (fun c' chain => ∃ n', Stands a F ⟨o, d, .argument (p ++ [.sub chain]), n'⟩ c')
      (Refused a F) (sub c)

/-- An argument is read into the draft. -/
theorem argument_stands (hsub : Forward sub) (hkeeps : KeepsStep a F o sub)
    (h : Stands a F ⟨o, d, .argument [], n⟩ c) :
    Yields (fun c' arg => ∃ n', Stands a F ⟨o, d.addArgument arg, .between, n'⟩ c') (Refused a F)
      (argument a.symbols o.length sub c) := by
  refine Yields.loop (I := fun c ps => ∃ n, Stands a F ⟨o, d, .argument ps, n⟩ c)
    (argumentTurn_advances hsub) ?_ ⟨n, h⟩
  rintro c ps ⟨n, h⟩
  unfold argumentTurn
  split
  next hc => exact .done ⟨n, h.switch (by rw [hc]; exact comes_argument_nil) rfl⟩
  next ch t hc =>
    split
    next hend => exact .done ⟨n, h.switch (by rw [hc]; exact comes_argument_cons hend) rfl⟩
    next hend =>
      replace hend : (blank ch || endsWith a.symbols o.length ch) = false := by
        simpa [segmentEnd] using hend
      split
      next e u he =>
        exact .done ⟨n, h.move (by rw [hc]; exact comes_argument_escaped hend he) rfl⟩
      next he =>
        have hm : (readMarked a.symbols ⟨o, d, .argument ps, n⟩ ps ch).comes a.symbols t = F := by
          rw [← comes_argument_marked hend he, ← hc]
          exact h.comes
        by_cases hq : ch = a.symbols.quoteStart
        · rw [if_pos hq]
          rw [readMarked, if_pos hq] at hm
          exact (quoted_stands (c := { c with rest := t }) ⟨hm, h.tracks⟩).bind fun _ _ h => .done h
        · rw [if_neg hq]
          rw [readMarked, if_neg hq] at hm
          by_cases hs : ch = a.symbols.subStart
          · rw [if_pos hs]
            rw [if_pos hs] at hm
            exact (hkeeps d ps n { c with rest := t } hm h.tracks).bind fun _ _ h => .done h
          · rw [if_neg hs]
            rw [if_neg hs] at hm
            exact .done ⟨n, hm, h.tracks⟩

/-- The arguments of an invocation are read into the draft. -/
theorem arguments_stands (hsub : Forward sub) (hkeeps : KeepsStep a F o sub)
    (h : Stands a F ⟨o, d, .between, n⟩ c) :
    Yields (fun c' as => ∃ n', Stands a F
        ⟨o, { d with arguments := d.arguments ++ as }, .between, n'⟩ c') (Refused a F)
      (arguments a.symbols o.length sub c) := by
  refine Yields.loop
    (I := fun c as => ∃ n, Stands a F
      ⟨o, { d with arguments := d.arguments ++ as }, .between, n⟩ c)
    (argumentsTurn_advances hsub) ?_ ⟨n, by simpa using h⟩
  rintro c as ⟨n, h⟩
  have hblank (ch : Char) (hb : blank ch = true) :
      step a.symbols ⟨o, { d with arguments := d.arguments ++ as }, .between, n⟩ ch =
        ⟨o, { d with arguments := d.arguments ++ as }, .between, n⟩ := by
    simp [step, readBetween, hb]
  refine (blanks_stands hblank h).bind ?_
  rintro c' - ⟨hs, h⟩
  by_cases he : segmentEnd a.symbols o.length c'.rest = true
  · simp only [he, reduceIte]
    exact .done ⟨n, h⟩
  · simp only [he, Bool.false_eq_true, reduceIte]
    obtain ⟨ch, t, hc, hb, he⟩ := exists_cons_of_not_segmentEnd hs (Bool.not_eq_true _ ▸ he)
    have h' := h.switch (q := ⟨o, { d with arguments := d.arguments ++ as }, .argument [], n⟩)
      (by rw [hc]; exact comes_between hb he) rfl
    refine (argument_stands hsub hkeeps h').bind ?_
    rintro c'' arg ⟨n', h''⟩
    refine .done ⟨n', ?_⟩
    simpa [Draft.addArgument] using h''

/-- What the descent has read of an invocation, where the automaton has not yet ended it. -/
structure Invoked (a : Attributes) (F : ScanState) (o : List (Draft × List Piece)) (done : Chain)
    (c : Cursor) (i : Option Invocation) (d : Draft) (n n' : List Note) : Prop where
  comes : comes a.symbols ⟨o, d, .between, n⟩ c.rest = F
  ends : endInvocation ⟨o, d, .between, n⟩ = ⟨o, { done := done ++ i.toList }, .lead, n'⟩
  tracks : Tracks a n' c.reports

/-- An invocation is read into the draft. -/
theorem invocation_stands (hsub : Forward sub) (hkeeps : KeepsStep a F o sub)
    (h : Stands a F ⟨o, { done := done }, .lead, n⟩ c) :
    Yields (fun c' i => ∃ d n n', Invoked a F o done c' i d n n') (Refused a F)
      (invocation a.symbols o.length sub c) := by
  have hlead (ch : Char) (hb : blank ch = true) :
      step a.symbols ⟨o, { done := done }, .lead, n⟩ ch = ⟨o, { done := done }, .lead, n⟩ := by
    simp [step, hb]
  refine (blanks_stands hlead h).bind ?_
  rintro c₁ - ⟨hs, h⟩
  refine (name_stands (h.switch (comes_lead hs) rfl)).bind ?_
  intro c₂ w h
  have hgap (ch : Char) (hb : blank ch = true) :
      step a.symbols ⟨o, { done := done, name := [] ++ w }, .gap, n⟩ ch =
        ⟨o, { done := done, name := [] ++ w }, .gap, n⟩ := by
    simp [step, readGap, hb]
  refine (blanks_stands hgap h).bind ?_
  rintro c₃ - ⟨hs, h⟩
  have h₃ : Stands a F ⟨o, { done := done, name := [] ++ w }, .between, n⟩
      (skipDelimiter a.symbols c₃) := by
    have hm := h.move (comes_gap hs) (q := ⟨o, { done := done, name := [] ++ w }, .between, n⟩) rfl
    unfold skipDelimiter at hm ⊢
    split at hm
    next hd => rwa [if_pos hd]
    next hd => rwa [if_neg hd]
  refine (arguments_stands hsub hkeeps h₃).bind ?_
  rintro c₄ as ⟨n₄, h⟩
  simp only [List.nil_append] at h
  -- An invocation without a name is dropped by both, and reported if there are arguments.
  rcases w with - | ⟨ch, w⟩
  · rcases as with - | ⟨arg, as⟩
    · exact .done ⟨_, n₄, n₄, h.comes, by simp [endInvocation], h.tracks⟩
    · have ht := h.tracks.add (e := .invocationWithoutName (as.length + 1)) rfl
      exact .done ⟨_, n₄, _, h.comes, by simp [endInvocation, note], ht⟩
  · exact .done ⟨_, n₄, n₄, h.comes, by simp [endInvocation], h.tracks⟩

/-- A chain is read into the draft, and its end is that of the sub-chain it is, if it is one. -/
theorem chainLoop_stands (hsub : Forward sub) (hkeeps : KeepsStep a F o sub)
    (h : Stands a F ⟨o, {}, .lead, n⟩ c) :
    Yields (fun c' chain => (o = [] → c'.rest = []) ∧
        ∃ n', Stands a F (closeSub ⟨o, { done := chain }, .lead, n'⟩) c') (Refused a F)
      (loop (chainTurn a.symbols o.length sub) c []) := by
  refine Yields.loop (I := fun c done => ∃ n, Stands a F ⟨o, { done := done }, .lead, n⟩ c)
    (chainTurn_advances hsub) ?_ ⟨n, h⟩
  rintro c done ⟨n, h⟩
  refine ((invocation_stops hsub c).and (invocation_stands hsub hkeeps h)).bind ?_
  rintro c' i ⟨⟨-, hskip, hstop⟩, d, n, n', hi⟩
  have hcomes := hi.comes
  rcases hc : c'.rest with - | ⟨ch, t⟩
  · simp only [hc]
    rw [hc, comes_between_nil hi.ends] at hcomes
    by_cases ho : o.length = 0
    · rw [if_pos ho] at hcomes ⊢
      refine .done ⟨fun _ => hc, n', ?_, ?_⟩
      · rw [hc, hcomes]
      · rw [closeSub_notes]
        exact hi.tracks
    · rw [if_neg ho] at hcomes ⊢
      refine .done ⟨fun _ => hc, _, (congrArg (ScanState.comes _ _) hc).trans hcomes, ?_⟩
      rw [closeSub_notes]
      exact hi.tracks.add (e := .subChainUnterminated o.length) rfl
  · simp only [hc]
    rw [hc] at hskip hstop hcomes
    rw [comes_between_cons (hskip ch rfl) hstop, hi.ends] at hcomes
    by_cases hd : ch = a.symbols.delimiter
    · rw [if_pos hd] at hcomes ⊢
      exact .done ⟨n', hcomes, hi.tracks⟩
    · rw [if_neg hd] at hcomes ⊢
      refine .done ⟨?_, n', hcomes, by rw [closeSub_notes]; exact hi.tracks⟩
      -- Outside of sub-chains nothing but the delimiter ends an invocation.
      rintro rfl
      simp [segmentEnd, endsWith, hd] at hstop

/-- The notes of a state are the first of those that it comes to. -/
theorem comes_notes (s : ScanState) (t : List Char) :
    s.notes <+: (s.comes a.symbols t).notes := by
  have hr := (read_adds (y := a.symbols) s t).isPrefix
  have hs := (settle_adds (y := a.symbols) (s.read a.symbols t)).isPrefix
  exact hr.trans (hs.trans (endAll_adds _ _).isPrefix)

/-- The reader of chains keeps in step with the automaton within any chains. -/
theorem chain_stands (a : Attributes) (F : ScanState) (o : List (Draft × List Piece)) :
    KeepsStep a F o (chain a (o.length + 1)) := by
  -- By induction on how much deeper a sub-chain may be.
  generalize hk : a.maxDepth + 1 - (o.length + 1) = k
  induction k generalizing o with
  | zero =>
    intro d p n c hF ht
    rw [chain, if_pos (by omega)]
    -- The automaton reads on, but has noted that a sub-chain was opened this deep.
    obtain ⟨l, hl⟩ := comes_notes (a := a) (openSub ⟨o, d, .argument p, n⟩ p) c.rest
    refine .refused ⟨n, o.length + 1, l, ht, by omega, ?_⟩
    rw [← hF, ← hl, openSub, List.append_assoc]
    rfl
  | succ k ih =>
    intro d p n c hF ht
    rw [chain, if_neg (by omega)]
    have ht' := ht.add (e := .opened (o.length + 1)) (by simp [Note.exceeds]; omega)
    have hopen : Stands a F ⟨(d, p) :: o, {}, .lead, n ++ [.opened (o.length + 1)]⟩ c :=
      ⟨hF, by simpa [Note.event?] using ht'⟩
    have hdeeper := ih ((d, p) :: o) (by simp only [List.length_cons]; omega)
    refine (chainLoop_stands (chain_forward a _) hdeeper hopen).mono ?_ fun _ h => h
    rintro c' inner ⟨-, n', h⟩
    exact ⟨n', h⟩

end Descent

/-! ## What parsing comes to -/

/-- Where everything stays within the limit, the notes are reported and the chain stands. -/
theorem parseChain_of_tracks {a : Attributes} {text : String} {r : List LogEvent}
    (h : Tracks a (readChain a.symbols text.toList).notes r) :
    parseChain a text = ⟨r, .ok (readChain a.symbols text.toList).chain⟩ := by
  rw [parseChain, Reading.within, Parsed.within_of_forall h.within, h.reports]

/-- A text that opens a sub-chain beyond the limit is refused, with the reports until then. -/
theorem parseChain_of_refused {a : Attributes} {text : String} {r : List LogEvent}
    (h : Refused a (({} : ScanState).comes a.symbols text.toList) r) :
    parseChain a text = ⟨r, .error (tooDeep a.maxDepth)⟩ := by
  obtain ⟨n, d, l, ht, hd, hn⟩ := h
  have hnotes : (readChain a.symbols text.toList).notes = n ++ .opened d :: l := hn
  have htake : (n ++ Note.opened d :: l).takeWhile (fun e => !e.exceeds a.maxDepth) = n := by
    rw [List.takeWhile_append_of_pos fun e he => by simp [ht.within e he],
      List.takeWhile_cons_of_neg (by simpa [Note.exceeds] using hd), List.append_nil]
  have hany : (n ++ Note.opened d :: l).any (Note.exceeds a.maxDepth) = true :=
    List.any_eq_true.mpr ⟨.opened d, by simp, by simpa [Note.exceeds] using hd⟩
  rw [parseChain, Reading.within, hnotes, Parsed.within, htake, hany, ht.reports]
  rfl

/-- The descent within a chain at a depth moves on. -/
structure Descent.MovesOn (a : Attributes) (depth : Nat) : Prop where
  blanks : Advances blankTurn
  names : Advances (nameTurn a.symbols depth)
  quotes : Advances (quotedTurn a.symbols)
  pieces : Advances (argumentTurn a.symbols depth (chain a (depth + 1)))
  arguments : Advances (argumentsTurn a.symbols depth (chain a (depth + 1)))
  invocations : Advances (chainTurn a.symbols depth (chain a (depth + 1)))
  /-- The reader of an argument is called where neither a blank nor the end of the invocation
  stands, and there it moves on. -/
  argument (c : Cursor) (ch : Char) (t : List Char) (hc : c.rest = ch :: t)
    (hb : blank ch = false) (he : endsWith a.symbols depth ch = false) :
    Yields (fun c' _ => c'.Behind c) Always (argument a.symbols depth (chain a (depth + 1)) c)
  /-- It makes no difference how sub-chains would be read that do not begin behind the chain. -/
  sub (sub : Cursor → Descent (Cursor × Chain)) (c : Cursor)
    (h : ∀ c', c'.Behind c → chain a (depth + 1) c' = sub c') :
    loop (chainTurn a.symbols depth (chain a (depth + 1))) c [] =
      loop (chainTurn a.symbols depth sub) c []

theorem Descent.movesOn (a : Attributes) (depth : Nat) : MovesOn a depth where
  blanks := blankTurn_advances
  names := nameTurn_advances
  quotes := quotedTurn_advances
  pieces := argumentTurn_advances (chain_forward a _)
  arguments := argumentsTurn_advances (chain_forward a _)
  invocations := chainTurn_advances (chain_forward a _)
  argument _ _ _ hc hb he := argument_behind (chain_forward a _) hc hb he
  sub _ _ h := chain_congr (chain_forward a _) h

/-- Outside of sub-chains an invocation is left at the end of the text or at a delimiter. -/
theorem Descent.invocation_stops_top (a : Attributes) (c : Cursor) :
    Yields (fun c' _ => c'.rest = [] ∨ c'.rest.head? = some a.symbols.delimiter) Always
      (invocation a.symbols 0 (chain a 1) c) := by
  refine (invocation_stops (chain_forward a 1) c).mono ?_ fun _ h => h
  rintro ⟨t, r⟩ i ⟨-, -, hend⟩
  rcases t with - | ⟨ch, t⟩
  · exact .inl rfl
  · exact .inr (by simpa [segmentEnd, endsWith] using hend)

/-- **The whole text is taken.** For every text and all symbols reading by descent ends, with the
outcome of parsing: behind the end of the text, or because a sub-chain is too deep. At every depth
the turns of all loops move on, an argument is left behind where it begins, and a sub-chain begins
behind the chain around it. No invocation of the outermost chain is left at a closing symbol, unless
that is the delimiter too. -/
theorem parseChain_consumes (a : Attributes) (text : String) :
    ((∃ r chain, Descent.chain a 0 ⟨text.toList, []⟩ = pure (⟨[], r⟩, chain) ∧
        parseChain a text = ⟨r, .ok chain⟩) ∨
      ∃ r, Descent.chain a 0 ⟨text.toList, []⟩ = throw r ∧
        parseChain a text = ⟨r, .error (tooDeep a.maxDepth)⟩) ∧
    (∀ depth, Descent.MovesOn a depth) ∧
    ∀ c, Yields (fun c' _ => c'.rest = [] ∨ c'.rest.head? = some a.symbols.delimiter) Always
      (Descent.invocation a.symbols 0 (Descent.chain a 1) c) := by
  refine ⟨?_, Descent.movesOn a, Descent.invocation_stops_top a⟩
  have hread : Yields (fun c chain => c.rest = [] ∧ ∃ n, Stands a
        (({} : ScanState).comes a.symbols text.toList) ⟨[], { done := chain }, .lead, n⟩ c)
      (Refused a (({} : ScanState).comes a.symbols text.toList))
      (Descent.chain a 0 ⟨text.toList, []⟩) := by
    have hstart : Stands a (({} : ScanState).comes a.symbols text.toList) ⟨[], {}, .lead, []⟩
        ⟨text.toList, []⟩ := ⟨rfl, by simp, rfl⟩
    rw [Descent.chain, if_neg (by omega)]
    refine (Descent.chainLoop_stands (Descent.chain_forward a 1) (Descent.chain_stands a _ [])
      hstart).mono ?_ fun _ h => h
    rintro c chain ⟨hc, n, h⟩
    exact ⟨hc rfl, n, h⟩
  generalize Descent.chain a 0 ⟨text.toList, []⟩ = x at hread ⊢
  rcases hread with @⟨c, chain, hc, n, h⟩ | ⟨hr⟩
  · obtain ⟨t, r⟩ := c
    obtain rfl : t = [] := hc
    -- What the last state comes to is that state itself.
    have hlast : readChain a.symbols text.toList = ⟨chain, n⟩ :=
      congrArg (fun s : ScanState => (⟨s.draft.done, s.notes⟩ : Reading)) h.comes.symm
    refine .inl ⟨r, chain, rfl, ?_⟩
    rw [parseChain_of_tracks (r := r) (by rw [hlast]; exact h.tracks), hlast]
  · exact .inr ⟨_, rfl, parseChain_of_refused hr⟩

/-- A closing symbol that closes nothing, and a backslash at the end. -/
theorem parseChain_consumes_unmatched :
    Descent.chain {} 0 ⟨"a ] [b] ]> c \\".toList, []⟩ =
      pure (⟨[], []⟩, [.call "a" [[.text "]"], [.sub [.call "b" []]], [.text "]"]],
        .call "c" [[.text "\\"]]]) := by
  have hp : parseChain {} "a ] [b] ]> c \\" =
      ⟨[], .ok [.call "a" [[.text "]"], [.sub [.call "b" []]], [.text "]"]],
        .call "c" [[.text "\\"]]]⟩ := by
    rfl
  rcases (parseChain_consumes {} "a ] [b] ]> c \\").1 with ⟨r, chain, hd, h⟩ | ⟨r, hd, h⟩
  · rw [hp, Parsed.mk.injEq, Except.ok.injEq] at h
    rw [hd, ← h.1, ← h.2]
  · rw [hp, Parsed.mk.injEq] at h
    cases h.2

end ChatCommands
