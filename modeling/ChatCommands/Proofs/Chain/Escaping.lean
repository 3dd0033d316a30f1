import ChatCommands.Proofs.Chain.Notes
import ChatCommands.Proofs.Chain.Printer

/-!
# Escaped words

A backslash before each of its characters makes a text one word: as the first word of an invocation
it is the name, and behind the name it is an argument that is this text and nothing else. Only the
symbols that are looked for before a backslash is must not be backslashes themselves. All other
symbols may be any characters, and may coincide.

## Main definitions

* `escape`: a text with a backslash before each of its characters
* `Symbols.LeaveBackslash`: outside of sub-chains the reader takes every backslash for a mark

## Main results

* `ScanState.read_escaped_name`, `ScanState.read_escaped_argument`: an escaped text in a name and in
  an argument
* `parseChain_escaped`: escaped words are one invocation
-/

namespace ChatCommands

/-- The text with a backslash before each of its characters. -/
def escape (s : String) : String := String.ofList (escaped s.toList)

/-- None of the symbols that the reader looks for before it looks for a mark is a backslash. -/
structure Symbols.LeaveBackslash (y : Symbols) : Prop where
  delimiter : y.delimiter ≠ '\\'
  argsDelimiter : y.argsDelimiter ≠ '\\'
  subStart : y.subStart ≠ '\\'

variable {y : Symbols}

theorem not_blank_backslash : blank '\\' = false := by decide

/-- Marked characters, if there are any, are an argument of their text. -/
theorem argumentOf_marked {s : List Char} (hs : s ≠ []) :
    argumentOf y (s.map fun c => .literal [c]) = [.text (String.ofList s)] := by
  have hparts : partsOf (s.map fun c => .literal [c]) = [.text (String.ofList s)] := by
    induction s with
    | nil => exact absurd rfl hs
    | cons c t ih =>
      rcases eq_or_ne t [] with rfl | ht
      · rfl
      · rw [List.map_cons, partsOf, ih ht, joinText, ← String.ofList_append, List.singleton_append]
  -- A mark is enough to keep the text from standing for the previous result.
  have hplain : plainText? (s.map fun c => .literal [c]) = none := by
    obtain ⟨c, t, rfl⟩ := List.exists_cons_of_ne_nil hs
    rfl
  rw [argumentOf, hplain, if_neg (by simp), hparts]

namespace ScanState

variable {s : ScanState} {d : Draft} {p : List Piece} {n : List Note}

/-! ## Single words -/

/-- In a name, outside of sub-chains, a backslash is a mark. -/
theorem step_name_backslash (h : y.LeaveBackslash) :
    step y ⟨[], d, .name, n⟩ '\\' = ⟨[], d, .nameEscape, n⟩ := by
  simp [step, readName, not_blank_backslash, h.argsDelimiter.symm, h.subStart.symm, ends,
    h.delimiter.symm, escapes]

/-- In an argument, outside of sub-chains, a backslash is a mark. -/
theorem step_argument_backslash (h : y.LeaveBackslash) :
    step y ⟨[], d, .argument p, n⟩ '\\' = ⟨[], d, .argumentEscape p, n⟩ := by
  simp [step, readArgument, not_blank_backslash, ends, h.delimiter.symm, escapes]

/-- Behind a name a backslash begins an argument. -/
theorem step_gap_backslash (h : y.LeaveBackslash) :
    step y ⟨[], d, .gap, n⟩ '\\' = ⟨[], d, .argumentEscape [], n⟩ := by
  simp [step, readGap, readBetween, readArgument, not_blank_backslash, h.argsDelimiter.symm, ends,
    h.delimiter.symm, escapes]

/-- Between arguments a backslash begins one. -/
theorem step_between_backslash (h : y.LeaveBackslash) :
    step y ⟨[], d, .between, n⟩ '\\' = ⟨[], d, .argumentEscape [], n⟩ := by
  simp [step, readBetween, readArgument, not_blank_backslash, ends, h.delimiter.symm, escapes]

/-- An escaped text goes on with the name. -/
theorem read_escaped_name (h : y.LeaveBackslash) (w : List Char) :
    read y ⟨[], d, .name, n⟩ (escaped w) = ⟨[], { d with name := d.name ++ w }, .name, n⟩ := by
  induction w generalizing d with
  | nil => simp [escaped]
  | cons c w ih =>
    simp only [escaped, List.flatMap_cons, List.cons_append, List.nil_append, read_cons,
      step_name_backslash h] at ih ⊢
    rw [step, ih]
    simp

/-- An escaped text goes on with the argument, as marked characters. -/
theorem read_escaped_argument (h : y.LeaveBackslash) (w : List Char) :
    read y ⟨[], d, .argument p, n⟩ (escaped w) =
      ⟨[], d, .argument (p ++ w.map fun c => .literal [c]), n⟩ := by
  induction w generalizing p with
  | nil => simp [escaped]
  | cons c w ih =>
    simp only [escaped, List.flatMap_cons, List.cons_append, List.nil_append, read_cons,
      step_argument_backslash h] at ih ⊢
    rw [step, ih]
    simp

/-! ## Words with spaces between them -/

/-- The reader stands right behind a word of an invocation, outside of sub-chains. -/
structure BehindWord (s : ScanState) : Prop where
  outer : s.outer = []
  place : s.place = .name ∨ ∃ p, s.place = .argument p

/-- A space and an escaped text are one more argument. -/
theorem read_escaped_word (h : y.LeaveBackslash) (hs : s.BehindWord) {w : List Char} (hw : w ≠ []) :
    read y s (' ' :: escaped w) =
      { s.endWord y with place := .argument (w.map fun c => .literal [c]) } := by
  obtain ⟨o, d, place, n⟩ := s
  obtain ⟨rfl, hp⟩ := hs
  obtain ⟨c, t, rfl⟩ := List.exists_cons_of_ne_nil hw
  have hspace : blank ' ' = true := by decide
  have hrest (d : Draft) : read y (step y ⟨[], d, .argumentEscape [], n⟩ c) (escaped t) =
      ⟨[], d, .argument ((c :: t).map fun c => .literal [c]), n⟩ :=
    read_escaped_argument h t
  rcases hp with rfl | ⟨p, rfl⟩
  · have hg : step y ⟨[], d, .name, n⟩ ' ' = ⟨[], d, .gap, n⟩ := by simp [step, readName, hspace]
    simp only [escaped, List.flatMap_cons, List.cons_append, List.nil_append, read_cons, hg,
      step_gap_backslash h] at hrest ⊢
    exact hrest d
  · have hb : step y ⟨[], d, .argument p, n⟩ ' ' =
        ⟨[], d.addArgument (argumentOf y p), .between, n⟩ := step_blank (.inr ⟨p, rfl⟩) hspace
    simp only [escaped, List.flatMap_cons, List.cons_append, List.nil_append, read_cons, hb,
      step_between_backslash h] at hrest ⊢
    exact hrest _

/-- Escaped texts with a space before each are the further arguments of the invocation. -/
theorem read_escaped_words (h : y.LeaveBackslash) (ws : List (List Char)) (hs : s.BehindWord)
    (hws : ∀ w ∈ ws, w ≠ []) :
    EndsAs y (read y s (ws.flatMap fun w => ' ' :: escaped w))
      { s.endWord y with
        draft := { (s.endWord y).draft with
          arguments := (s.endWord y).draft.arguments ++
            ws.map fun w => [Part.text (String.ofList w)] } }.endInvocation := by
  induction ws generalizing s with
  | nil =>
    refine ⟨?_, by rw [List.map_nil, List.append_nil, List.flatMap_nil, read_nil]⟩
    rcases hs.place with hp | ⟨p, hp⟩ <;> rw [List.flatMap_nil, read_nil, hp] <;> rfl
  | cons w ws ih =>
    have hw := hws w List.mem_cons_self
    -- Behind this word the reader is behind a word again, and that word ends as an argument.
    have hb : BehindWord { s.endWord y with place := .argument (w.map fun c => .literal [c]) } :=
      ⟨by simpa using hs.outer, .inr ⟨_, rfl⟩⟩
    have hr := ih hb fun v hv => hws v (List.mem_cons_of_mem _ hv)
    rw [List.flatMap_cons, read_append, read_escaped_word h hs hw]
    simpa [endWord, endArgument, Draft.addArgument, argumentOf_marked hw, endInvocation] using hr

/-- An escaped text before the name is the name. -/
theorem read_escaped_lead (h : y.LeaveBackslash) {w : List Char} (hw : w ≠ []) :
    read y ⟨[], d, .lead, n⟩ (escaped w) = ⟨[], { d with name := d.name ++ w }, .name, n⟩ := by
  obtain ⟨c, t, rfl⟩ := List.exists_cons_of_ne_nil hw
  rw [← read_escaped_name h]
  simp [escaped, step_lead not_blank_backslash]

end ScanState

/-! ## Whole texts -/

/-- Words with spaces between them, as characters. -/
theorem toList_intercalate_space (s : String) (ss : List String) :
    (" ".intercalate (s :: ss)).toList = s.toList ++ ss.flatMap fun t => ' ' :: t.toList := by
  induction ss generalizing s with
  | nil => simp
  | cons t ss ih => simp [ih]

/-- **Escaping** takes the meaning from every character: a name and arguments with a backslash
before each of their characters, and spaces between them, are parsed as one invocation of that name
with these texts, and nothing is reported. -/
theorem parseChain_escaped (a : Attributes) (hd : a.symbols.delimiter ≠ '\\')
    (ha : a.symbols.argsDelimiter ≠ '\\') (hs : a.symbols.subStart ≠ '\\')
    (name : String) (arguments : List String) (hname : name ≠ "")
    (harguments : ∀ s ∈ arguments, s ≠ "") :
    parseChain a (" ".intercalate ((name :: arguments).map escape)) =
      ⟨[], .ok [.call name (arguments.map fun s => [.text s])]⟩ := by
  have h : a.symbols.LeaveBackslash := ⟨hd, ha, hs⟩
  have htext : (" ".intercalate ((name :: arguments).map escape)).toList =
      escaped name.toList ++
        (arguments.map String.toList).flatMap fun w => ' ' :: escaped w := by
    rw [List.map_cons, toList_intercalate_space]
    simp [escape, List.flatMap_map]
  have hlead := ScanState.read_escaped_lead (d := {}) (n := []) h
    (mt String.toList_eq_nil_iff.mp hname)
  have hends := ScanState.read_escaped_words h (arguments.map String.toList)
    (s := ⟨[], { name := name.toList }, .name, []⟩) ⟨rfl, .inl rfl⟩ (by simpa using harguments)
  have hread : readChain a.symbols (" ".intercalate ((name :: arguments).map escape)).toList =
      ⟨[.call name (arguments.map fun s => [.text s])], []⟩ := by
    rw [readChain, htext, ScanState.scan_eq_read, ScanState.read_append, hlead, List.nil_append,
      hends.close (by simp [ScanState.endWord])]
    simp [ScanState.endWord, ScanState.endInvocation, hname, Function.comp_def]
  rw [parseChain, hread, Reading.within, Parsed.within_of_forall (by simp)]
  rfl

/-- All symbols are backslashes, but for the three that must not be: these are spaces. The words
hold nothing but backslashes and spaces. -/
theorem parseChain_escaped_backslashes :
    let a : Attributes := { symbols := ⟨'\\', ' ', ' ', ' ', '\\', '\\', '\\'⟩ }
    a.symbols.delimiter ≠ '\\' ∧ a.symbols.argsDelimiter ≠ '\\' ∧ a.symbols.subStart ≠ '\\' ∧
      " ".intercalate (["\\ ", "\\", " "].map escape) = "\\\\\\  \\\\ \\ " ∧
      parseChain a "\\\\\\  \\\\ \\ " = ⟨[], .ok [.call "\\ " [[.text "\\"], [.text " "]]]⟩ := by
  intro a
  have htext : " ".intercalate (["\\ ", "\\", " "].map escape) = "\\\\\\  \\\\ \\ " := by decide
  refine ⟨by decide, by decide, by decide, htext, ?_⟩
  have hp := parseChain_escaped a (by decide) (by decide) (by decide) "\\ " ["\\", " "] (by decide)
    (by decide)
  rwa [htext] at hp

end ChatCommands
