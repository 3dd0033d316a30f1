import ChatCommands.Proofs.Chain.Escaping

/-!
# Reading what was printed

With symbols that can be told apart, the text of a canonical chain is read as that chain. The
proof follows the tree: what is printed of a part, of an argument, of an invocation or of a chain
takes the reader from a state to the same state with one more piece, argument or invocation, and
notes nothing but the sub-chains that it opens.

## Main definitions

* `Part.pieces`: what the reader makes of a printed part
* `Opens`: notes that tell of opened sub-chains only, down to a depth

## Main results

* `argumentOf_pieces`: the pieces of a canonical argument make the argument
* `read_printChain`: a printed chain is read within any chain
* `parseChain_print`: the text of a canonical chain is parsed as that chain
-/

namespace ChatCommands

variable {y : Symbols}

/-! ## Symbols that can be told apart -/

namespace Symbols.Distinct

/-- The symbols that the reader has to tell from others where it meets them. -/
theorem apart (h : y.Distinct) :
    y.quoteStart ∉ [y.delimiter, y.subEnd] ∧
      y.subStart ∉ [y.delimiter, y.subEnd, y.quoteStart] ∧
      y.previous ∉ [y.delimiter, y.subEnd, y.quoteStart, y.subStart] ∧
      y.argsDelimiter ∉ [y.delimiter, y.subStart, y.subEnd] ∧ y.subEnd ≠ y.delimiter := by
  have hn := h.openers_nodup
  -- The quotes are compared with others as openers only: their ends may be one character.
  simp [openers] at hn ⊢
  grind

theorem ne_backslash (h : y.Distinct) {c : Char} (hc : c ∈ y.quoteEnd :: y.openers) :
    c ≠ '\\' := fun e => h.notBackslash (e ▸ hc)

theorem inner_of_not_mem (h : y.Distinct) {c : Char} (hc : c ∈ y.openers)
    (hn : c ∉ [y.delimiter, y.subEnd]) : y.Inner c :=
  ⟨h.notBlank c (List.mem_cons_of_mem _ hc), fun e => hn (by simp [e]), fun e => hn (by simp [e])⟩

theorem inner_quoteStart (h : y.Distinct) : y.Inner y.quoteStart :=
  h.inner_of_not_mem (by simp [openers]) h.apart.1

theorem inner_subStart (h : y.Distinct) : y.Inner y.subStart := by
  have hn := h.apart.2.1
  exact h.inner_of_not_mem (by simp [openers]) (by grind)

theorem inner_previous (h : y.Distinct) : y.Inner y.previous := by
  have hn := h.apart.2.2.1
  exact h.inner_of_not_mem (by simp [openers]) (by grind)

theorem inner_backslash (h : y.Distinct) : y.Inner '\\' where
  notBlank := by decide
  notDelimiter := (h.ne_backslash (by simp [openers])).symm
  notSubEnd := (h.ne_backslash (by simp [openers])).symm

theorem leaveBackslash (h : y.Distinct) : y.LeaveBackslash where
  delimiter := h.ne_backslash (by simp [openers])
  argsDelimiter := h.ne_backslash (by simp [openers])
  subStart := h.ne_backslash (by simp [openers])

end Symbols.Distinct

/-! ## Arguments and their pieces -/

/-- What the reader makes of a printed part. -/
def Part.pieces (y : Symbols) (nested : Bool) : Part → List Piece
  | text s => .literal (textBody s) ::
      (textTail s).map fun c => if nested then .plain [c] else .literal [c]
  | previous => [.plain [y.previous]]
  | sub chain => [.sub chain]

theorem joinText_joinText (s t : List Char) (ps : List Part) :
    joinText s (joinText t ps) = joinText (s ++ t) ps := by
  rcases ps with - | ⟨(_ | _ | _), ps⟩ <;> simp [joinText, String.append_assoc]

theorem joinText_of_not_text {s : List Char} {ps : List Part}
    (h : ∀ p ∈ ps.head?, p.isText = false) : joinText s ps = .text (String.ofList s) :: ps := by
  rcases ps with - | ⟨(_ | _ | _), ps⟩
  · rfl
  · simp [Part.isText] at h
  · rfl
  · rfl

/-- Backslashes behind a text are joined to it, whether they are marked or not. -/
theorem partsOf_tail (nested : Bool) (s t : List Char) (ps : List Piece) :
    partsOf (.literal s :: (t.map fun c => if nested then .plain [c] else .literal [c]) ++ ps) =
      joinText (s ++ t) (partsOf ps) := by
  induction t generalizing s with
  | nil => simp [partsOf]
  | cons c t ih =>
    cases nested <;>
    · simp only [List.map_cons, List.cons_append, partsOf, joinText_joinText, reduceIte,
        Bool.false_eq_true] at ih ⊢
      rw [ih]
      simp

theorem textBody_append_textTail (s : String) : textBody s ++ textTail s = s.toList :=
  List.rdropWhile_append_rtakeWhile

/-- Parts without neighbouring texts and without the previous result come back from pieces. -/
theorem partsOf_pieces (nested : Bool) {a : List Part}
    (ha : a.IsChain fun p q => p.isText = false ∨ q.isText = false)
    (hp : ∀ p ∈ a, p.isPrevious = false) :
    partsOf (a.flatMap (Part.pieces y nested)) = a := by
  induction a with
  | nil => rfl
  | cons p a ih =>
    have ih := ih ha.tail fun q hq => hp q (List.mem_cons_of_mem _ hq)
    cases p with
    | text s =>
      have hh : ∀ q ∈ a.head?, q.isText = false := by
        intro q hq
        rcases a with - | ⟨r, a⟩
        · simp at hq
        · obtain rfl : r = q := by simpa using hq
          exact ha.rel.resolve_left (by simp [Part.isText])
      -- Nothing is joined to the text from behind, since no text stands there.
      rw [List.flatMap_cons, Part.pieces, partsOf_tail, ih, textBody_append_textTail,
        joinText_of_not_text hh, String.ofList_toList]
    | previous => exact absurd (hp .previous List.mem_cons_self) (by simp [Part.isPrevious])
    | sub c => rw [List.flatMap_cons, Part.pieces, List.singleton_append, partsOf, ih]

/-- The pieces of a canonical argument make the argument. -/
theorem argumentOf_pieces (nested : Bool) {a : Argument} (ha : CanonicalShape a) :
    argumentOf y (a.flatMap (Part.pieces y nested)) = a := by
  rcases ha.alone with rfl | hp
  · simp [Part.pieces, argumentOf, plainText?]
  · have hn : plainText? (a.flatMap (Part.pieces y nested)) = none := by
      have hne := ha.nonempty
      rcases a with - | ⟨(s | - | c), a⟩
      · exact absurd rfl hne
      · rfl
      · exact absurd (hp .previous List.mem_cons_self) (by simp [Part.isPrevious])
      · rfl
    rw [argumentOf, hn, if_neg (by simp), partsOf_pieces nested ha.apart hp]

/-! ## Reading texts and names -/

/-- The place in quotes behind a text: a backslash at its end is still pending. -/
def quotesPlace (p : List Piece) (t : List Char) : Place :=
  if t.getLast? = some '\\' then .quotesEscape p t.dropLast else .quotes p t

namespace ScanState

variable {o : List (Draft × List Piece)} {d : Draft} {p : List Piece} {n : List Note}

theorem read_inQuotes_char (h : y.Distinct) (t : List Char) (c : Char) :
    read y ⟨o, d, quotesPlace p t, n⟩ (if c = y.quoteEnd then ['\\', c] else [c]) =
      ⟨o, d, quotesPlace p (t ++ [c]), n⟩ := by
  have he : y.quoteEnd ≠ '\\' := h.ne_backslash List.mem_cons_self
  -- Whether a backslash is pending depends on the last character before, if there is one.
  rcases List.eq_nil_or_concat t with rfl | ⟨u, b, rfl⟩
  · by_cases hc : c = y.quoteEnd
    · simp [quotesPlace, step, readQuotes, hc, he]
    · by_cases hb : c = '\\' <;> simp [quotesPlace, step, readQuotes, hc, hb, he.symm]
  · by_cases hu : b = '\\' <;> by_cases hc : c = y.quoteEnd
    · simp [quotesPlace, step, readQuotes, hu, hc, he, he.symm]
    · by_cases hb : c = '\\' <;> simp [quotesPlace, step, readQuotes, hc, hb, he.symm, hu]
    · simp [quotesPlace, step, readQuotes, hc, he, hu]
    · by_cases hb : c = '\\' <;> simp [quotesPlace, step, readQuotes, hc, hb, he.symm, hu]

theorem read_inQuotes (h : y.Distinct) (s t : List Char) :
    read y ⟨o, d, quotesPlace p t, n⟩ (inQuotes y s) = ⟨o, d, quotesPlace p (t ++ s), n⟩ := by
  induction s generalizing t with
  | nil => simp [inQuotes]
  | cons c s ih =>
    rw [inQuotes, List.flatMap_cons, read_append, read_inQuotes_char h, ← inQuotes, ih]
    simp

/-- Backslashes outside of quotes, unmarked as the printer does it. -/
theorem read_tail (h : y.Distinct) {t : List Char} (ht : ∀ c ∈ t, c = '\\') :
    read y ⟨o, d, .argument p, n⟩ (unmarked (!o.isEmpty) t) =
      ⟨o, d, .argument (p ++ t.map fun c => if !o.isEmpty then .plain [c] else .literal [c]),
        n⟩ := by
  -- Outside of sub-chains a backslash takes the meaning from the next; within them it has none.
  rcases o with - | ⟨e, o⟩
  · exact read_escaped_argument h.leaveBackslash t
  · induction t generalizing p with
    | nil => simp [unmarked]
    | cons c t ih =>
      obtain rfl := ht c List.mem_cons_self
      have ih := fun p => @ih p fun c hc => ht c (List.mem_cons_of_mem _ hc)
      have hq : '\\' ≠ y.quoteStart := (h.ne_backslash (by simp [Symbols.openers])).symm
      have hb : '\\' ≠ y.subStart := (h.ne_backslash (by simp [Symbols.openers])).symm
      have hs : step y ⟨e :: o, d, .argument p, n⟩ '\\' =
          ⟨e :: o, d, .argument (p ++ [.plain ['\\']]), n⟩ := by
        rw [step_argument h.inner_backslash (by simp), readMarked, if_neg hq, if_neg hb]
      simp only [unmarked, List.isEmpty_cons, Bool.not_false, reduceIte, read_cons, hs] at ih ⊢
      rw [ih]
      simp

theorem quotesPlace_textBody (s : String) :
    quotesPlace p (textBody s) = .quotes p (textBody s) := by
  refine if_neg ?_
  intro hl
  obtain ⟨t, ht⟩ := List.getLast?_eq_some_iff.mp hl
  have hne : textBody s ≠ [] := by simp [ht]
  refine List.rdropWhile_last_not (· = '\\') s.toList hne ?_
  rw [List.getLast?_eq_some_getLast hne, Option.some.injEq] at hl
  exact decide_eq_true hl

/-- A printed text is read as a text. -/
theorem read_printText (h : y.Distinct) (s : String) :
    read y ⟨o, d, .argument p, n⟩ (printPart y (!o.isEmpty) (.text s)) =
      ⟨o, d, .argument (p ++ Part.pieces y (!o.isEmpty) (.text s)), n⟩ := by
  have hs : step y ⟨o, d, .argument p, n⟩ y.quoteStart = ⟨o, d, quotesPlace p [], n⟩ := by
    rw [step_argument h.inner_quoteStart fun _ => h.ne_backslash (by simp [Symbols.openers]),
      readMarked, if_pos rfl]
    rfl
  have he : step y ⟨o, d, .quotes p (textBody s), n⟩ y.quoteEnd =
      ⟨o, d, .argument (p ++ [.literal (textBody s)]), n⟩ := by
    simp [step, readQuotes, h.ne_backslash List.mem_cons_self]
  have ht : ∀ c ∈ textTail s, c = '\\' := fun c hc => by simpa using List.mem_rtakeWhile_imp hc
  rw [printPart, List.cons_append, read_cons, hs, read_append, read_inQuotes h, List.nil_append,
    quotesPlace_textBody, read_cons, he, read_tail h ht, Part.pieces]
  simp

/-- A character that a backslash stands before, or that has no meaning within sub-chains, is part
of the name. -/
theorem read_name (h : y.Distinct) {s : List Char}
    (hs : o ≠ [] → ∀ c ∈ s, blank c = false ∧
      c ∉ [y.argsDelimiter, y.subStart, y.subEnd, y.delimiter]) :
    read y ⟨o, d, .name, n⟩ (unmarked (!o.isEmpty) s) =
      ⟨o, { d with name := d.name ++ s }, .name, n⟩ := by
  -- Outside of sub-chains the backslash before it takes the meaning from any character.
  rcases o with - | ⟨e, o⟩
  · exact read_escaped_name h.leaveBackslash s
  · induction s generalizing d with
    | nil => simp [unmarked]
    | cons c s ih =>
      have ih := fun d => @ih d fun ho c hc => hs ho c (List.mem_cons_of_mem _ hc)
      obtain ⟨hb, hc⟩ := hs (by simp) c List.mem_cons_self
      simp only [List.mem_cons, List.not_mem_nil, or_false, not_or] at hc
      have hn : step y ⟨e :: o, d, .name, n⟩ c =
          ⟨e :: o, { d with name := d.name ++ [c] }, .name, n⟩ := by
        simp [step, readName, hb, hc, ends, escapes]
      simp only [unmarked, List.isEmpty_cons, Bool.not_false, reduceIte, read_cons, hn] at ih ⊢
      rw [ih]
      simp

end ScanState

/-! ## Reading a chain -/

/-- Notes that tell of opened sub-chains only, none of them deeper than `m`. -/
def Opens (m : Nat) (n n' : List Note) : Prop :=
  ∃ l, n' = n ++ l ∧ ∀ e ∈ l, ∃ k ≤ m, e = .opened k

namespace Opens

variable {m k : Nat} {n n' n'' : List Note}

theorem refl (m : Nat) (n : List Note) : Opens m n n := ⟨[], by simp, by simp⟩

theorem mono (h : Opens m n n') (hk : m ≤ k) : Opens k n n' := by
  obtain ⟨l, rfl, hl⟩ := h
  refine ⟨l, rfl, ?_⟩
  intro e he
  obtain ⟨i, hi, rfl⟩ := hl e he
  exact ⟨i, hi.trans hk, rfl⟩

theorem trans (h : Opens m n n') (h' : Opens m n' n'') : Opens m n n'' := by
  obtain ⟨l, rfl, hl⟩ := h
  obtain ⟨l', rfl, hl'⟩ := h'
  refine ⟨l ++ l', by simp, ?_⟩
  intro e he
  rcases List.mem_append.mp he with he | he
  · exact hl e he
  · exact hl' e he

theorem opened (h : k ≤ m) (n : List Note) : Opens m n (n ++ [.opened k]) :=
  ⟨[.opened k], rfl, fun _ he => ⟨k, h, List.mem_singleton.mp he⟩⟩

end Opens

namespace ScanState

/-- A state behind a name, and what a blank makes of it. -/
structure BlankAs (y : Symbols) (s t : ScanState) : Prop where
  place : s.place = .between ∨ ∃ p, s.place = .argument p
  eq : s.endWord y = t

variable {s t : ScanState} {o : List (Draft × List Piece)} {d : Draft} {n : List Note}

theorem BlankAs.endsAs (h : BlankAs y s t) : EndsAs y s t.endInvocation := by
  refine ⟨?_, by rw [h.eq]⟩
  rcases h.place with hp | ⟨p, hp⟩ <;> rw [hp] <;> rfl

/-- The delimiter ends an invocation. -/
theorem EndsAs.step_delimiter (h : y.Distinct) (hs : EndsAs y s t) : s.step y y.delimiter = t := by
  have hd : s.ends y y.delimiter = true := by simp [ends]
  have ha : y.delimiter ≠ y.argsDelimiter := by
    have := h.apart.2.2.2.1
    grind
  rw [hs.step (h.notBlank _ (by simp [Symbols.openers])) ha hd, if_pos rfl]

/-- The end of a sub-chain ends an invocation and the sub-chain. -/
theorem EndsAs.step_subEnd (h : y.Distinct) (hs : EndsAs y s t) (ho : t.outer ≠ []) :
    s.step y y.subEnd = t.closeSub := by
  have hd : s.ends y y.subEnd = true := by
    simp [ends, hs.outer, ho]
  have ha : y.subEnd ≠ y.argsDelimiter := by
    have := h.apart.2.2.2.1
    grind
  rw [hs.step (h.notBlank _ (by simp [Symbols.openers])) ha hd, if_neg h.apart.2.2.2.2]

/-- Before the name the reader does what it does in the name. -/
theorem read_lead (h : y.Distinct) {name : String} (hn : name ≠ "")
    (hs : o ≠ [] → ∀ c ∈ name.toList, blank c = false) :
    read y ⟨o, d, .lead, n⟩ (unmarked (!o.isEmpty) name.toList) =
      read y ⟨o, d, .name, n⟩ (unmarked (!o.isEmpty) name.toList) := by
  have hne : name.toList ≠ [] := by simpa using hn
  obtain ⟨c, t, ht⟩ := List.exists_cons_of_ne_nil hne
  rw [ht] at hs ⊢
  -- From the first character on the reader is in the name.
  rcases o with - | ⟨e, o⟩
  · simp [unmarked, escaped, step_lead h.inner_backslash.notBlank]
  · simp [unmarked, step_lead (hs (by simp) c List.mem_cons_self)]

/-- A printed argument begins with a character that begins an argument. -/
theorem read_between (h : y.Distinct) {a : List Part} (ha : a ≠ []) (nested : Bool) :
    read y ⟨o, d, .between, n⟩ (printParts y nested a) =
      read y ⟨o, d, .argument [], n⟩ (printParts y nested a) := by
  rcases a with - | ⟨(s | - | c), a⟩
  · exact absurd rfl ha
  · simp [printParts, printPart, step_between h.inner_quoteStart]
  · simp [printParts, printPart, step_between h.inner_previous]
  · simp [printParts, printPart, step_between h.inner_subStart]

-- The recursion follows the tree. Behind a chain its last invocation is still open, and behind
-- arguments the last of them: what ends them is the character that follows, and `EndsAs` and
-- `BlankAs` tell what it will make of the state.
mutual

/-- What is printed of a chain is read as that chain, behind the invocations before it. -/
theorem read_printChain (h : y.Distinct) (o : List (Draft × List Piece)) :
    ∀ (c done : Chain) (n : List Note), CanonicalChain y (!o.isEmpty) c →
      ∃ n', Opens (o.length + chainDepth c) n n' ∧
        EndsAs y (read y ⟨o, { done := done }, .lead, n⟩ (printChain y (!o.isEmpty) c))
          ⟨o, { done := done ++ c }, .lead, n'⟩
  | [], done, n, _ => ⟨n, .refl _ _, rfl, by simp [printChain, endWord, endInvocation]⟩
  | .call name as :: rest, done, n, ⟨⟨hne, hname⟩, has, hrest⟩ => by
    have hchars : o ≠ [] → ∀ c ∈ name.toList, blank c = false ∧
        c ∉ [y.argsDelimiter, y.subStart, y.subEnd, y.delimiter] :=
      fun ho => hname (by simpa using ho)
    have hs : read y ⟨o, { done := done }, .lead, n⟩ (unmarked (!o.isEmpty) name.toList) =
        ⟨o, { done := done, name := name.toList }, .name, n⟩ := by
      rw [read_lead h hne fun ho c hc => (hchars ho c hc).1, read_name h hchars, List.nil_append]
    have ha : step y ⟨o, { done := done, name := name.toList }, .name, n⟩ y.argsDelimiter =
        ⟨o, { done := done, name := name.toList }, .between, n⟩ := by
      simp [step, readName, h.notBlank y.argsDelimiter (by simp [Symbols.openers])]
    -- Behind the arguments the invocation is complete, whichever character ends it.
    obtain ⟨n₁, hn₁, hb⟩ := read_printArguments h as
      ⟨o, { done := done, name := name.toList }, .between, n⟩ o _ n has ⟨.inl rfl, rfl⟩
    have he := hb.endsAs
    simp only [endInvocation, List.isEmpty_iff, String.toList_eq_nil_iff, hne, reduceIte,
      String.ofList_toList, List.nil_append] at he
    rw [printChain, List.append_assoc, read_append, hs, List.cons_append, read_cons, ha,
      read_append]
    rcases rest with - | ⟨i, rest⟩
    · exact ⟨n₁, hn₁.mono (by simp [chainDepth]), by simpa using he⟩
    · obtain ⟨n₂, hn₂, hr⟩ := read_printChain h o (i :: rest) (done ++ [.call name as]) n₁ hrest
      refine ⟨n₂, (hn₁.mono ?_).trans (hn₂.mono ?_), ?_⟩
      · simp only [chainDepth]; omega
      · simp only [chainDepth]; omega
      · simpa [he.step_delimiter h] using hr

theorem read_printArguments (h : y.Distinct) :
    ∀ (as : List (List Part)) (s : ScanState) (o : List (Draft × List Piece)) (d : Draft)
      (n : List Note), CanonicalArguments y as → BlankAs y s ⟨o, d, .between, n⟩ →
      ∃ n', Opens (o.length + argumentsDepth as) n n' ∧
        BlankAs y (read y s (printArguments y (!o.isEmpty) as))
          ⟨o, { d with arguments := d.arguments ++ as }, .between, n'⟩
  | [], s, o, d, n, _, hs => ⟨n, .refl _ _, by simpa [printArguments] using hs⟩
  | a :: as, s, o, d, n, ⟨ha, hps, has⟩, hs => by
    obtain ⟨n₁, hn₁, hp⟩ := read_printParts h o a d [] n hps
    have hb : BlankAs y ⟨o, d, .argument (a.flatMap (Part.pieces y (!o.isEmpty))), n₁⟩
        ⟨o, d.addArgument a, .between, n₁⟩ :=
      ⟨.inr ⟨_, rfl⟩, by simp [endWord, endArgument, argumentOf_pieces _ ha]⟩
    obtain ⟨n₂, hn₂, hr⟩ := read_printArguments h as _ o (d.addArgument a) n₁ has hb
    refine ⟨n₂, (hn₁.mono ?_).trans (hn₂.mono ?_), ?_⟩
    · simp only [argumentsDepth]; omega
    · simp only [argumentsDepth]; omega
    · rw [printArguments, List.cons_append, read_cons, step_blank hs.place (by decide), hs.eq,
        read_append, read_between h ha.nonempty, hp]
      simpa [Draft.addArgument] using hr

theorem read_printParts (h : y.Distinct) (o : List (Draft × List Piece)) :
    ∀ (ps : List Part) (d : Draft) (p : List Piece) (n : List Note), CanonicalParts y ps →
      ∃ n', Opens (o.length + partsDepth ps) n n' ∧
        read y ⟨o, d, .argument p, n⟩ (printParts y (!o.isEmpty) ps) =
          ⟨o, d, .argument (p ++ ps.flatMap (Part.pieces y (!o.isEmpty))), n'⟩
  | [], d, p, n, _ => ⟨n, .refl _ _, by simp [printParts]⟩
  | q :: ps, d, p, n, ⟨hq, hps⟩ => by
    obtain ⟨n₁, hn₁, h₁⟩ := read_printPart h o q d p n hq
    obtain ⟨n₂, hn₂, h₂⟩ := read_printParts h o ps d (p ++ q.pieces y (!o.isEmpty)) n₁ hps
    refine ⟨n₂, (hn₁.mono ?_).trans (hn₂.mono ?_), ?_⟩
    · simp only [partsDepth]; omega
    · simp only [partsDepth]; omega
    · rw [printParts, read_append, h₁, h₂, List.flatMap_cons, List.append_assoc]

theorem read_printPart (h : y.Distinct) (o : List (Draft × List Piece)) :
    ∀ (q : Part) (d : Draft) (p : List Piece) (n : List Note), CanonicalPart y q →
      ∃ n', Opens (o.length + partDepth q) n n' ∧
        read y ⟨o, d, .argument p, n⟩ (printPart y (!o.isEmpty) q) =
          ⟨o, d, .argument (p ++ q.pieces y (!o.isEmpty)), n'⟩
  | .text s, d, p, n, _ => ⟨n, .refl _ _, read_printText h s⟩
  | .previous, d, p, n, _ => by
    have hn := h.apart.2.2.1
    refine ⟨n, .refl _ _, ?_⟩
    rw [printPart, read_cons, read_nil, step_argument h.inner_previous fun _ =>
      h.ne_backslash (by simp [Symbols.openers]), readMarked, if_neg (by grind), if_neg (by grind)]
    rfl
  | .sub c, d, p, n, hc => by
    have hn := h.apart.2.1
    -- Meanwhile the argument around the sub-chain waits, with the pieces before it.
    obtain ⟨n₁, hn₁, h₁⟩ := read_printChain h ((d, p) :: o) c [] (n ++ [.opened (o.length + 1)]) hc
    have hs : step y ⟨o, d, .argument p, n⟩ y.subStart =
        ⟨(d, p) :: o, {}, .lead, n ++ [.opened (o.length + 1)]⟩ := by
      rw [step_argument h.inner_subStart fun _ => h.ne_backslash (by simp [Symbols.openers]),
        readMarked, if_neg (by grind), if_pos rfl]
      rfl
    refine ⟨n₁, (Opens.opened ?_ n).trans (hn₁.mono ?_), ?_⟩
    · simp only [partDepth]; omega
    · simp only [partDepth, List.length_cons]; omega
    · rw [printPart, List.cons_append, read_cons, hs, read_append]
      simpa [closeSub, Part.pieces] using h₁.step_subEnd h (by simp)

end

end ScanState

/-- A reading that notes nothing but sub-chains within the limit reports nothing. -/
theorem Reading.within_of_opens {r : Reading} {m limit : Nat} (h : Opens m [] r.notes)
    (hm : m ≤ limit) : r.within limit = ⟨[], .ok r.chain⟩ := by
  obtain ⟨l, hl, ho⟩ := h
  rw [List.nil_append] at hl
  -- No note stops the reading at the limit, and none is one that is reported.
  have hn : ∀ e ∈ r.notes, Note.exceeds limit e = false ∧ e.event? = none := by
    intro e he
    obtain ⟨k, hk, rfl⟩ := ho e (hl ▸ he)
    exact ⟨by simpa [Note.exceeds] using hk.trans hm, rfl⟩
  have hevents : r.notes.filterMap Note.event? = [] := by
    rw [List.filterMap_eq_nil_iff]
    exact fun e he => (hn e he).2
  rw [Reading.within, Parsed.within_of_forall fun e he => (hn e he).1, hevents]

/-- **Printing, then parsing** gives every canonical chain back, and nothing is reported. -/
theorem parseChain_print (a : Attributes) (h : a.symbols.Distinct) (c : Chain)
    (hc : CanonicalChain a.symbols false c) (hd : chainDepth c ≤ a.maxDepth) :
    parseChain a (c.print a.symbols) = ⟨[], .ok c⟩ := by
  obtain ⟨n, hn, hr⟩ := ScanState.read_printChain h [] c [] [] hc
  have hclose := hr.close rfl
  have hread : readChain a.symbols (c.print a.symbols).toList = ⟨c, n⟩ := by
    rw [readChain, Chain.print, String.toList_ofList, ScanState.scan_eq_read]
    exact congrArg (fun s : ScanState => (⟨s.draft.done, s.notes⟩ : Reading)) hclose
  rw [parseChain, hread]
  exact Reading.within_of_opens hn (by simpa using hd)

/-- A name with a blank, a text with a quote and a backslash at its end, and a sub-chain whose name
ends with a backslash. -/
theorem parseChain_print_nested :
    let c : Chain :=
      [.call "a b" [[.text "x\"\\", .sub [.call "c\\" [[.previous], [.text ""]]]]], .call "d" []]
    c.print {} = "\\a\\ \\b: \"x\\\"\"\\\\[c\\: ~ \"\"]>\\d:" ∧
      CanonicalChain {} false c ∧ parseChain {} (c.print {}) = ⟨[], .ok c⟩ := by
  intro c
  have hs : ({} : Symbols).Distinct :=
    ⟨by simp [Symbols.openers, blank], by decide, by decide, by decide⟩
  have hc : CanonicalChain {} false c := by
    simp only [c, CanonicalChain, CanonicalArguments, CanonicalParts, CanonicalPart, and_true,
      true_and]
    refine ⟨⟨by decide, by decide⟩, ⟨⟨by decide, by simp [Part.isText], .inr (by decide)⟩,
      ⟨by decide, by simp [blank]⟩, ⟨by decide, by simp, .inl rfl⟩, by decide, by simp,
      .inr (by decide)⟩, by decide, by decide⟩
  exact ⟨by decide, hc, parseChain_print {} hs c hc (by decide)⟩

end ChatCommands
