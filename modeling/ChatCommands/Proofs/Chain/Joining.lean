import ChatCommands.Proofs.Chain.Notes

/-!
# Joining texts

A text in which all quotes and sub-chains are closed has no influence on what is read behind a
delimiter that follows it. There the reader is where it was before the first character, apart from
the invocations and the notes that it has already, and to these it only adds: read behind other
invocations and other notes, every text comes to the same.

## Main definitions

* `ScanState.after`: the same state behind other invocations and notes

## Main results

* `ScanState.step_after`, `ScanState.close_after`: reading does not depend on what is there already
* `ScanState.step_delimiter`: the delimiter ends the first text as its own end would
* `parseChain_join`: texts with the delimiter between them are parsed one after the other
-/

namespace ChatCommands

variable {y : Symbols}

/-- The draft behind other invocations. -/
def Draft.after (b : Chain) (d : Draft) : Draft := { d with done := b ++ d.done }

namespace ScanState

variable (b : Chain) (ns : List Note)

/-- The enclosing chains, the outermost of them behind other invocations. -/
def framesAfter : List (Draft × List Piece) → List (Draft × List Piece)
  | [] => []
  | [(d, ps)] => [(d.after b, ps)]
  | f :: g :: o => f :: framesAfter (g :: o)

/-- The draft of the innermost chain, behind other invocations if it is the outermost too. -/
def draftAfter (o : List (Draft × List Piece)) (d : Draft) : Draft :=
  if o.isEmpty then d.after b else d

/-- The same state behind other invocations and notes. -/
def after (s : ScanState) : ScanState where
  outer := framesAfter b s.outer
  draft := draftAfter b s.outer s.draft
  place := s.place
  notes := ns ++ s.notes

/-! ## One character -/

@[simp] theorem framesAfter_isEmpty (o : List (Draft × List Piece)) :
    (framesAfter b o).isEmpty = o.isEmpty := by
  rcases o with - | ⟨f, - | ⟨g, o⟩⟩ <;> rfl

@[simp] theorem framesAfter_length (o : List (Draft × List Piece)) :
    (framesAfter b o).length = o.length := by
  induction o with
  | nil => rfl
  | cons f o ih =>
    cases o with
    | nil => rfl
    | cons g o => simp [framesAfter, ih]

/-- What the reader does with a draft but for its invocations it does behind others, too. -/
theorem draftAfter_congr {f : Draft → Draft} (h : ∀ d : Draft, f (d.after b) = (f d).after b)
    (o : List (Draft × List Piece)) (d : Draft) :
    f (draftAfter b o d) = draftAfter b o (f d) := by
  cases o with
  | nil => exact h d
  | cons x o => rfl

section Step

variable (s : ScanState) (ps : List Piece) (c : Char)

@[simp] theorem after_place : (s.after b ns).place = s.place := rfl

@[simp] theorem after_notes : (s.after b ns).notes = ns ++ s.notes := rfl

@[simp] theorem ends_after : (s.after b ns).ends y c = s.ends y c := by
  simp [ends, after]

@[simp] theorem escapes_after : (s.after b ns).escapes c = s.escapes c := by
  simp [escapes, after]

@[simp] theorem depth_after : (s.after b ns).depth = s.depth := framesAfter_length b s.outer

/-- Another place. -/
theorem place_after (q : Place) :
    { s.after b ns with place := q } = after b ns { s with place := q } := rfl

/-- One more character in the name. -/
theorem name_after :
    ({ s.after b ns with
        draft := { (s.after b ns).draft with name := (s.after b ns).draft.name ++ [c] },
        place := .name } : ScanState) =
      after b ns
        { s with draft := { s.draft with name := s.draft.name ++ [c] }, place := .name } := by
  have h := draftAfter_congr b (f := fun d => { d with name := d.name ++ [c] }) (fun _ => rfl)
    s.outer s.draft
  simp only [after, h]

theorem note_after (n : Note) : (s.after b ns).note n = (s.note n).after b ns := by
  simp [note, after, List.append_assoc]

theorem endInvocation_after : (s.after b ns).endInvocation = s.endInvocation.after b ns := by
  obtain ⟨o, ⟨done, name, as⟩, place, n⟩ := s
  cases o <;> cases name <;> cases as <;>
    simp [endInvocation, after, draftAfter, Draft.after, framesAfter, note]

theorem openSub_after : (s.after b ns).openSub ps = (s.openSub ps).after b ns := by
  obtain ⟨o, d, place, n⟩ := s
  rcases o with - | ⟨f, o⟩ <;>
    simp [openSub, after, draftAfter, framesAfter, depth]

theorem closeSub_after : (s.after b ns).closeSub = s.closeSub.after b ns := by
  obtain ⟨o, d, place, n⟩ := s
  rcases o with - | ⟨f, - | ⟨g, o⟩⟩ <;> rfl

theorem endArgument_after :
    (s.after b ns).endArgument y ps = (s.endArgument y ps).after b ns := by
  have h := draftAfter_congr b (f := fun d => d.addArgument (argumentOf y ps)) (fun _ => rfl)
    s.outer s.draft
  simp only [endArgument, after, h]

theorem readEnd_after : (s.after b ns).readEnd y c = (s.readEnd y c).after b ns := by
  simp only [readEnd, endInvocation_after, closeSub_after]
  split <;> rfl

theorem readMarked_after :
    (s.after b ns).readMarked y ps c = (s.readMarked y ps c).after b ns := by
  simp only [readMarked, openSub_after]
  split
  · rfl
  · split <;> rfl

theorem readArgument_after :
    (s.after b ns).readArgument y ps c = (s.readArgument y ps c).after b ns := by
  simp only [readArgument, endArgument_after, ends_after, escapes_after, readEnd_after,
    readMarked_after, place_after]
  split
  · rfl
  · split
    · rfl
    · split <;> rfl

theorem readBetween_after : (s.after b ns).readBetween y c = (s.readBetween y c).after b ns := by
  simp only [readBetween, ends_after, readEnd_after, readArgument_after, place_after]
  split
  · rfl
  · split <;> rfl

theorem readGap_after : (s.after b ns).readGap y c = (s.readGap y c).after b ns := by
  simp only [readGap, readBetween_after, place_after]
  split
  · rfl
  · split <;> rfl

theorem readName_after : (s.after b ns).readName y c = (s.readName y c).after b ns := by
  simp only [readName, ends_after, escapes_after, readBetween_after, place_after, name_after]
  split
  · rfl
  · split
    · rfl
    · split
      · rfl
      · split <;> rfl

theorem readQuotes_after (text : List Char) :
    (s.after b ns).readQuotes y ps text c = (s.readQuotes y ps text c).after b ns := by
  simp only [readQuotes, place_after]
  split
  · rfl
  · split <;> rfl

/-- **A character** is read alike behind other invocations and notes. -/
theorem step_after : (s.after b ns).step y c = (s.step y c).after b ns := by
  obtain ⟨o, d, place, n⟩ := s
  cases place with
  | lead =>
    simp only [step, after_place]
    split
    · rfl
    · exact readName_after ..
  | name => exact readName_after ..
  | nameEscape => exact name_after ..
  | gap => exact readGap_after ..
  | between => exact readBetween_after ..
  | argument ps => exact readArgument_after ..
  | argumentEscape ps => rfl
  | quotes ps text => exact readQuotes_after ..
  | quotesEscape ps text =>
    simp only [step, after_place, readArgument_after, readQuotes_after]
    split
    · rfl
    · split <;> rfl

theorem read_after (text : List Char) :
    (s.after b ns).read y text = (s.read y text).after b ns := by
  induction text generalizing s with
  | nil => rfl
  | cons c text ih => rw [read_cons, step_after, ih, read_cons]

end Step

/-! ## The end of the text -/

section Close

variable (s : ScanState)

theorem settle_after : (s.after b ns).settle y = (s.settle y).after b ns := by
  obtain ⟨o, d, place, n⟩ := s
  cases place with
  | nameEscape => exact name_after ..
  | argumentEscape ps => exact readMarked_after ..
  | quotesEscape ps text =>
    simp only [settle, after_place]
    split <;> rfl
  | _ => rfl

theorem endChain_after : (s.after b ns).endChain y = (s.endChain y).after b ns := by
  obtain ⟨o, d, place, n⟩ := s
  cases place with
  | quotes ps text =>
    simp only [endChain, after_place, note_after, endArgument_after, endInvocation_after]
  | argument ps => simp only [endChain, after_place, endArgument_after, endInvocation_after]
  | _ => exact endInvocation_after ..

theorem endAll_after (k : Nat) : endAll y k (s.after b ns) = (endAll y k s).after b ns := by
  induction k generalizing s with
  | zero => exact endChain_after ..
  | succ k ih =>
    simp only [endAll, endChain_after, depth_after, note_after, closeSub_after]
    exact ih _

/-- **The end of the text** is read alike behind other invocations and notes. -/
theorem close_after : (s.after b ns).close y = (s.close y).after b ns := by
  simp only [close, settle_after, depth_after, endAll_after]

end Close

/-! ## The delimiter -/

/-- Behind an invocation that has ended there is nothing but those that are complete. -/
theorem endInvocation_eq_after {s : ScanState} (ho : s.outer = []) :
    s.endInvocation = after s.endInvocation.draft.done s.endInvocation.notes {} := by
  obtain ⟨o, ⟨done, name, as⟩, place, n⟩ := s
  obtain rfl : o = [] := ho
  cases name <;> cases as <;>
    simp [endInvocation, after, draftAfter, Draft.after, framesAfter, note]

/-- **The delimiter** does at the end of a text what its end does, if nothing is open there. -/
theorem step_delimiter {s : ScanState} (hd : blank y.delimiter = false)
    (ha : y.delimiter ≠ y.argsDelimiter) (hp : s.place.isOpen) (ho : s.outer = []) :
    s.step y y.delimiter = s.close y := by
  have hs : EndsAs y s (s.endWord y).endInvocation := ⟨hp, rfl⟩
  have he : s.ends y y.delimiter = true := by simp [ends]
  rw [hs.step hd ha he, if_pos rfl, hs.close (by simp [ho])]

/-- Behind a text that leaves nothing open, and a delimiter, another text is read as it is alone,
behind the invocations and the notes of the first. -/
theorem close_join {l : List Char} (hd : blank y.delimiter = false)
    (ha : y.delimiter ≠ y.argsDelimiter) (hp : (scan y l).place.isOpen)
    (ho : (scan y l).outer = []) (m : List Char) :
    (scan y (l ++ y.delimiter :: m)).close y =
      ((scan y m).close y).after (readChain y l).chain (readChain y l).notes := by
  have hl : (scan y l).close y = after (readChain y l).chain (readChain y l).notes {} := by
    have hs : EndsAs y (scan y l) ((scan y l).endWord y).endInvocation := ⟨hp, rfl⟩
    simp only [readChain, hs.close (by simp [ho])]
    exact endInvocation_eq_after (by rw [endWord_outer, ho])
  calc (scan y (l ++ y.delimiter :: m)).close y
      = ((((scan y l).step y y.delimiter)).read y m).close y := by
        rw [scan_eq_read, read_append, read_cons, ← scan_eq_read]
    _ = (after (readChain y l).chain (readChain y l).notes (scan y m)).close y := by
        rw [step_delimiter hd ha hp ho, hl, read_after, scan_eq_read m]
    _ = ((scan y m).close y).after (readChain y l).chain (readChain y l).notes := close_after ..

end ScanState

/-- What is read of two texts with the delimiter between them, if the first leaves nothing open. -/
theorem readChain_join {l : List Char} (hd : blank y.delimiter = false)
    (ha : y.delimiter ≠ y.argsDelimiter) (hp : (scan y l).place.isOpen)
    (ho : (scan y l).outer = []) (m : List Char) :
    readChain y (l ++ y.delimiter :: m) =
      ⟨(readChain y l).chain ++ (readChain y m).chain,
        (readChain y l).notes ++ (readChain y m).notes⟩ := by
  have hm : ((scan y m).close y).outer = [] := (scan y m).close_outer
  simp only [readChain, ScanState.close_join hd ha hp ho, ScanState.after_notes]
  simp only [ScanState.after, ScanState.draftAfter, hm, Draft.after]
  rfl

/-- A reading behind notes that stay within the limit. -/
theorem Reading.within_append {limit : Nat} {ns : List Note}
    (h : ∀ n ∈ ns, n.exceeds limit = false) (b : Chain) (r : Reading) :
    Reading.within ⟨b ++ r.chain, ns ++ r.notes⟩ limit =
      ⟨ns.filterMap Note.event? ++ (r.within limit).events,
        (r.within limit).chain.map (b ++ ·)⟩ := by
  have htake : (ns ++ r.notes).takeWhile (fun n => !n.exceeds limit) =
      ns ++ r.notes.takeWhile fun n => !n.exceeds limit :=
    List.takeWhile_append_of_pos fun n hn => by rw [h n hn]; rfl
  simp only [Reading.within, Parsed.within, htake, List.filterMap_append, List.any_append,
    Note.any_exceeds_eq_false h, Bool.false_or]
  split <;> rfl

/-- A text is refused only because it opens too many sub-chains. -/
theorem eq_tooDeep_of_parseChain {a : Attributes} {text : String} {f : Fault}
    (h : (parseChain a text).chain = .error f) : f = tooDeep a.maxDepth := by
  simp only [parseChain, Reading.within, Parsed.within] at h
  split at h
  · exact (Except.error.inj h).symm
  · cases h

/-- **Joining two texts with the delimiter** joins their chains. If the first text is parsed and
leaves neither quotes nor sub-chains open, and does not end in a backslash, then the second is
parsed behind it as it is alone: its invocations follow those of the first, its reports follow
theirs, and it is refused for its depth exactly if it is so alone. -/
theorem parseChain_join (a : Attributes) (hd : blank a.symbols.delimiter = false)
    (ha : a.symbols.delimiter ≠ a.symbols.argsDelimiter) {s : String} {c : Chain}
    (hs : (parseChain a s).chain = .ok c) (hlast : s.toList.getLast? ≠ some '\\')
    (hquotes : (parseChain a s).openQuotes = 0) (hsubs : (parseChain a s).openSubChains = 0)
    (t : String) :
    parseChain a (s ++ String.singleton a.symbols.delimiter ++ t) =
        ⟨(parseChain a s).events ++ (parseChain a t).events,
          (parseChain a t).chain.map (c ++ ·)⟩ ∧
      ∀ f, (parseChain a t).chain = .error f → f = tooDeep a.maxDepth := by
  refine ⟨?_, fun f => eq_tooDeep_of_parseChain⟩
  have hpending : (scan a.symbols s.toList).place.isPending = false := by
    rw [Bool.eq_false_iff]
    exact fun hp => hlast (ScanState.scan_isPending hp).1
  have hsettle := ScanState.settle_of_not_isPending (y := a.symbols) hpending
  -- Nothing is reported as open at the end of the first text, so that nothing is open there.
  have hq : (scan a.symbols s.toList).place.isQuotes = false := by
    rw [parseChain_openQuotes hs, hsettle] at hquotes
    simpa using hquotes
  have ho : (scan a.symbols s.toList).outer = [] := by
    rw [parseChain_openSubChains hs, hsettle] at hsubs
    exact List.length_eq_zero_iff.mp hsubs
  have hp := Place.isOpen_of_not hpending hq
  obtain ⟨hn, rfl⟩ := parseChain_eq_ok_iff.mp hs
  have htext : (s ++ String.singleton a.symbols.delimiter ++ t).toList =
      s.toList ++ a.symbols.delimiter :: t.toList := by simp
  rw [parseChain_events hs, parseChain, htext, readChain_join hd ha hp ho,
    Reading.within_append hn]
  rfl

/-- The first text ends in blanks behind an empty segment and a sub-chain that holds a delimiter in
quotes; the second ends within a sub-chain. Arguments and quotes share a symbol. -/
theorem parseChain_join_segments :
    let a : Attributes := { symbols := { argsDelimiter := '"' } }
    let c : Chain := [.call "a" [[.sub [.call "b" [[.text ">"]]]]]]
    (parseChain a ">\"x>a [b \" \">\"]  ").chain = .ok c ∧
      parseChain a ">\"x>a [b \" \">\"]  >d [e" =
        ⟨[.invocationWithoutName 1, .subChainUnterminated 1],
          .ok (c ++ [.call "d" [[.sub [.call "e" []]]]])⟩ := by
  have hc : (parseChain { symbols := { argsDelimiter := '"' } } ">\"x>a [b \" \">\"]  ").chain =
      .ok [.call "a" [[.sub [.call "b" [[.text ">"]]]]]] := by rfl
  have hjoin := parseChain_join { symbols := { argsDelimiter := '"' } } (by decide) (by decide) hc
    (by decide) (by decide) (by decide) "d [e"
  exact ⟨hc, hjoin.1⟩

end ChatCommands
