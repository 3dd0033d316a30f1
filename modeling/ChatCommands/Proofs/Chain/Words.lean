import ChatCommands.Dispatch.ChainProgram
import ChatCommands.Proofs.Chain.Notes

/-!
# Texts without symbols

Where no character has a meaning, the whole grammar finds in a text what its words say: one
invocation, of the first word, with the others for arguments. The ends of sub-chains and of quotes
have no meaning where nothing was opened, so a text may hold them; and the symbols may be blanks,
in which case it holds these blanks nowhere.

The proof follows the text and not its words. Behind the name the reader stands either between two
arguments or in one, and in either place the rest of the text gives the same words to both readings.

## Main definitions

* `Symbols.marks`, `Symbols.Plain`: symbols that begin something, and texts without them
* `spelled`: an argument as far as it has been read

## Main results

* `ScanState.close_read_words`: what the words behind the name come to
* `parseChain_plain`: a text without symbols is parsed as its words
* `chainProgram_parseSimple`: its program is that of one command
-/

namespace ChatCommands

variable {y : Symbols}

/-- The characters with a meaning where no quotes and no sub-chains are open. -/
def Symbols.marks (y : Symbols) : List Char :=
  ['\\', y.delimiter, y.argsDelimiter, y.subStart, y.quoteStart, y.previous]

/-- A text without symbols, but for ends of sub-chains and of quotes. -/
def Symbols.Plain (y : Symbols) (text : List Char) : Prop := ∀ c ∈ text, c ∉ y.marks

instance (text : List Char) : Decidable (y.Plain text) :=
  List.decidableBAll (fun c => c ∉ y.marks) text

theorem Symbols.not_mem_marks {c : Char} : c ∉ y.marks ↔
    c ≠ '\\' ∧ c ≠ y.delimiter ∧ c ≠ y.argsDelimiter ∧ c ≠ y.subStart ∧ c ≠ y.quoteStart ∧
      c ≠ y.previous := by
  simp [marks]

/-- The argument that a word is. -/
def wordArgument (w : List Char) : Argument := [.text (String.ofList w)]

/-! ## Arguments that are words -/

/-- The pieces of an argument of which the characters were read one by one. -/
def spelled (w : List Char) : List Piece := w.map fun c => .plain [c]

theorem plainText?_spelled (w : List Char) : plainText? (spelled w) = some w := by
  induction w with
  | nil => rfl
  | cons c w ih =>
    rw [spelled, List.map_cons, plainText?, ← spelled, ih]
    rfl

theorem partsOf_spelled {w : List Char} (hw : w ≠ []) : partsOf (spelled w) = wordArgument w := by
  induction w with
  | nil => exact absurd rfl hw
  | cons c w ih =>
    rw [spelled, List.map_cons, partsOf, ← spelled]
    rcases eq_or_ne w [] with rfl | hne
    · rfl
    · rw [ih hne, wordArgument, joinText, ← String.ofList_append]
      rfl

/-- A word that is not the previous-result symbol is text. -/
theorem argumentOf_spelled {w : List Char} (hw : w ≠ []) (hp : y.previous ∉ w) :
    argumentOf y (spelled w) = wordArgument w := by
  have hne : plainText? (spelled w) ≠ some [y.previous] := by
    rw [plainText?_spelled, Ne, Option.some.injEq]
    rintro rfl
    exact hp List.mem_cons_self
  rw [argumentOf, if_neg hne, partsOf_spelled hw]

namespace ScanState

variable {c : Char} {d : Draft} {q : Place} {n : List Note} {text w v : List Char}

/-! ## Letters, which are no marks -/

theorem ends_letter (hc : c ∉ y.marks) (d : Draft) (q : Place) (n : List Note) :
    ends y ⟨[], d, q, n⟩ c = false := by
  obtain ⟨-, hdelimiter, -⟩ := Symbols.not_mem_marks.mp hc
  simp [ends, hdelimiter]

/-- A letter goes on with the argument. -/
theorem readArgument_letter (hc : c ∉ y.marks) (hb : blank c = false) (d : Draft) (q : Place)
    (n : List Note) (ps : List Piece) :
    readArgument y ⟨[], d, q, n⟩ ps c = ⟨[], d, .argument (ps ++ [.plain [c]]), n⟩ := by
  have he := ends_letter hc d q n
  obtain ⟨hbackslash, -, -, hsub, hquote, -⟩ := Symbols.not_mem_marks.mp hc
  simp [readArgument, hb, he, escapes, readMarked, hbackslash, hsub, hquote]

/-- Between arguments, or behind the name, a letter begins an argument. -/
theorem step_gap_letter (hc : c ∉ y.marks) (hb : blank c = false) (hq : q = .gap ∨ q = .between) :
    step y ⟨[], d, q, n⟩ c = ⟨[], d, .argument (spelled [c]), n⟩ := by
  have hr : readBetween y ⟨[], d, q, n⟩ c = ⟨[], d, .argument (spelled [c]), n⟩ := by
    rw [readBetween, if_neg (by simp [hb]), if_neg (by simp [ends_letter hc]),
      readArgument_letter hc hb]
    rfl
  obtain ⟨-, -, ha, -⟩ := Symbols.not_mem_marks.mp hc
  rcases hq with rfl | rfl
  · simpa [step, readGap, hb, ha] using hr
  · exact hr

theorem step_name_letter (hc : c ∉ y.marks) (hb : blank c = false) :
    step y ⟨[], d, .name, n⟩ c = ⟨[], { d with name := d.name ++ [c] }, .name, n⟩ := by
  have he := ends_letter hc d .name n
  obtain ⟨hbackslash, -, ha, hsub, -⟩ := Symbols.not_mem_marks.mp hc
  simp [step, readName, hb, he, ha, hsub, hbackslash, escapes]

theorem step_argument_letter (hc : c ∉ y.marks) (hb : blank c = false) :
    step y ⟨[], d, .argument (spelled v), n⟩ c = ⟨[], d, .argument (spelled (v ++ [c])), n⟩ := by
  have hr := readArgument_letter hc hb d (.argument (spelled v)) n (spelled v)
  rw [spelled, spelled, List.map_append]
  exact hr

/-- The end of an argument that is a word. -/
theorem endWord_spelled (hv : v ≠ []) (hp : y.previous ∉ v) :
    endWord y ⟨[], d, .argument (spelled v), n⟩ =
      ⟨[], d.addArgument (wordArgument v), .between, n⟩ := by
  simp only [endWord, endArgument, argumentOf_spelled hv hp]

/-! ## Words -/

/-- The state behind a text that was one invocation. -/
def complete (name : List Char) (as : List Argument) (n : List Note) : ScanState :=
  ⟨[], { done := [.call (String.ofList name) as] }, .lead, n⟩

/-- **The words behind the name** are its arguments, whether the reader stands between two of them
or in the first one. -/
theorem close_read_words (ht : y.Plain text) (hw : w ≠ []) (as : List Argument) :
    (∀ q, q = .gap ∨ q = .between →
      (read y ⟨[], ⟨[], w, as⟩, q, n⟩ text).close y =
        complete w (as ++ (words text).map wordArgument) n) ∧
    (∀ v, v ≠ [] → y.previous ∉ v →
      (read y ⟨[], ⟨[], w, as⟩, .argument (spelled v), n⟩ text).close y =
        complete w (as ++ (wordsFrom v text).map wordArgument) n) := by
  have hend (as : List Argument) (q : Place) :
      endInvocation ⟨[], ⟨[], w, as⟩, q, n⟩ = complete w as n := by
    simp [endInvocation, hw, complete]
  -- On the rest of the text, for both places at once: a blank leads from the second to the
  -- first, any other character from the first to the second.
  induction text generalizing as with
  | nil =>
    refine ⟨?_, ?_⟩
    · intro q hq
      have hs : EndsAs y ⟨[], ⟨[], w, as⟩, q, n⟩ (complete w as n) := by
        rcases hq with rfl | rfl <;> exact ⟨rfl, hend as _⟩
      rw [read_nil, hs.close rfl, words_nil, List.map_nil, List.append_nil]
    · intro v hv hp
      have hs : EndsAs y ⟨[], ⟨[], w, as⟩, .argument (spelled v), n⟩
          (complete w (as ++ [wordArgument v]) n) := by
        refine ⟨rfl, ?_⟩
        rw [endWord_spelled hv hp]
        exact hend _ _
      rw [read_nil, hs.close rfl, wordsFrom, if_neg (by simpa using hv)]
      rfl
  | cons c text ih =>
    obtain ⟨hc, ht⟩ := List.forall_mem_cons.mp ht
    by_cases hb : blank c = true
    · refine ⟨?_, ?_⟩
      · intro q hq
        have hs : step y ⟨[], ⟨[], w, as⟩, q, n⟩ c = ⟨[], ⟨[], w, as⟩, q, n⟩ := by
          rcases hq with rfl | rfl
          · simp [step, readGap, hb]
          · simp [step, readBetween, hb]
        rw [read_cons, hs, (ih ht as).1 q hq, words_blank hb]
      · intro v hv hp
        -- The blank ends the argument, and the rest has words of its own.
        rw [read_cons, step_blank (.inr ⟨_, rfl⟩) hb, endWord_spelled hv hp, wordsFrom, if_pos hb,
          if_neg (by simpa using hv)]
        have hr := (ih ht (as ++ [wordArgument v])).1 .between (.inr rfl)
        rw [List.append_assoc] at hr
        exact hr
    · rw [Bool.not_eq_true] at hb
      obtain ⟨-, -, -, -, -, hprevious⟩ := Symbols.not_mem_marks.mp hc
      refine ⟨?_, ?_⟩
      · intro q hq
        rw [read_cons, step_gap_letter hc hb hq, words, wordsFrom, if_neg (by simp [hb])]
        exact (ih ht as).2 [c] (by simp) (by simpa using hprevious.symm)
      · intro v hv hp
        rw [read_cons, step_argument_letter hc hb, wordsFrom, if_neg (by simp [hb])]
        exact (ih ht as).2 (v ++ [c]) (by simp) (by simp [hp, hprevious.symm])

/-- A text that goes on with the name of an invocation. -/
theorem close_read_name (ht : y.Plain text) (hw : w ≠ []) :
    (read y ⟨[], { name := w }, .name, n⟩ text).close y =
      ⟨[], { done := invocationOfWords (wordsFrom w text) }, .lead, n⟩ := by
  induction text generalizing w with
  | nil =>
    have hs : EndsAs y ⟨[], { name := w }, .name, n⟩ (complete w [] n) :=
      ⟨rfl, by simp [endWord, endInvocation, hw, complete]⟩
    rw [read_nil, hs.close rfl, wordsFrom, if_neg (by simpa using hw)]
    rfl
  | cons c text ih =>
    obtain ⟨hc, ht⟩ := List.forall_mem_cons.mp ht
    by_cases hb : blank c = true
    · have hs : step y ⟨[], { name := w }, .name, n⟩ c = ⟨[], { name := w }, .gap, n⟩ := by
        simp [step, readName, hb]
      rw [read_cons, hs, (close_read_words ht hw []).1 .gap (.inl rfl), wordsFrom, if_pos hb,
        if_neg (by simpa using hw)]
      rfl
    · rw [Bool.not_eq_true] at hb
      rw [read_cons, step_name_letter hc hb, wordsFrom, if_neg (by simp [hb])]
      exact ih ht (by simp)

/-- **A text without symbols** is read as its words. -/
theorem close_scan_plain (ht : y.Plain text) :
    (scan y text).close y = ⟨[], { done := invocationOfWords (words text) }, .lead, []⟩ := by
  induction text with
  | nil => rfl
  | cons c text ih =>
    obtain ⟨hc, ht⟩ := List.forall_mem_cons.mp ht
    rw [scan_eq_read, read_cons]
    by_cases hb : blank c = true
    · have hs : step y {} c = {} := by simp [step, hb]
      rw [hs, ← scan_eq_read, ih ht, words_blank hb]
    · rw [Bool.not_eq_true] at hb
      have hs : step y {} c = ⟨[], { name := [c] }, .name, []⟩ :=
        (step_lead hb).trans (step_name_letter hc hb)
      rw [hs, close_read_name ht (by simp), words, wordsFrom, if_neg (by simp [hb])]
      rfl

end ScanState

/-- **A text without symbols** is parsed as its words, and nothing is reported. -/
theorem parseChain_plain {a : Attributes} {text : String}
    (ht : a.symbols.Plain text.toList) : parseChain a text = ⟨[], .ok (parseSimple text)⟩ := by
  have hr : readChain a.symbols text.toList = ⟨parseSimple text, []⟩ := by
    rw [readChain, ScanState.close_scan_plain ht]
    rfl
  rw [parseChain, hr]
  exact Parsed.within_of_forall (by simp) _

/-! ## Their programs -/

/-- Words need nothing to be run before they are known. -/
theorem resolve_words (previous : Option String) (ws : List (List Char)) :
    resolve previous (ws.map wordArgument) = pure (ws.map String.ofList) := by
  induction ws with
  | nil => rfl
  | cons w ws ih =>
    have hw : resolveParts previous (wordArgument w) = pure (String.ofList w) := by
      rw [wordArgument, resolveParts, resolvePart, resolveParts, Program.pure_bind,
        Program.pure_bind, String.append_empty]
    rw [List.map_cons, resolve, hw, ih]
    rfl

theorem literals_words (ws : List (List Char)) :
    (ws.map wordArgument).filterMap Argument.literal? = ws.map String.ofList := by
  induction ws with
  | nil => rfl
  | cons w ws ih =>
    have hw : (wordArgument w).literal? = some (String.ofList w) := by
      simp [wordArgument, Argument.literal?, Part.text?]
    rw [List.map_cons, List.filterMap_cons_some hw, ih, List.map_cons]

/-- The words of a text make the same program as a chain and as a single command. -/
theorem chainProgram_parseSimple (text : String) :
    chainProgram (parseSimple text) = simpleProgram (parseSimple text) := by
  rw [parseSimple]
  rcases words text.toList with - | ⟨w, ws⟩
  · rfl
  · have hc : invocationOfWords (w :: ws) = [.call (String.ofList w) (ws.map wordArgument)] := rfl
    rw [hc, chainProgram, chainFrom, resolve_words, Program.pure_bind]
    -- One step is not chained, and nothing follows it.
    show Program.callCommand _ _ false >>= pure = _
    rw [Program.bind_pure, simpleProgram, Invocation.arguments, literals_words, Invocation.name]

end ChatCommands
