import ChatCommands.Proofs.Chain.Reader
import Mathlib.Data.List.TakeWhile

/-!
# What the reader notes, and when

While a text is being read, the reader notes which sub-chains are opened and which arguments have
no command. Only the end of the text brings the other notes: one if it comes within quotes, and
one for each sub-chain that is still open. So the notes of a text tell whether all quotes and
sub-chains in it were closed.

## Main definitions

* `Note.isEarly`: the notes that are made before the end of the text
* `ScanState.Adds`: the notes go on with notes of a kind
* `ScanState.Within`: the notes stay within a limit

## Main results

* `ScanState.step_adds`: a character adds notes of sub-chains opened and of arguments dropped
* `ScanState.count_quoteUnterminated`, `ScanState.count_subChainUnterminated`: what the notes of a
  text tell of its end
-/

namespace ChatCommands

variable {y : Symbols}

namespace Note

/-- Whether a note tells of a sub-chain that was opened. -/
def isOpened : Note → Bool
  | opened _ => true
  | _ => false

/-- Whether a note tells of arguments that were dropped. -/
def isDropped : Note → Bool
  | invocationWithoutName _ => true
  | _ => false

/-- Whether a note can be made before the end of the text. -/
def isEarly (n : Note) : Bool := n.isOpened || n.isDropped

/-- Whether a note can be made at the end of the text. -/
def isLate (n : Note) : Bool := !n.isOpened

/-- Whether a note tells of quotes that were not closed. -/
def isQuoteUnterminated : Note → Bool
  | quoteUnterminated => true
  | _ => false

/-- Whether a note tells of a sub-chain that was not closed. -/
def isSubChainUnterminated : Note → Bool
  | subChainUnterminated _ => true
  | _ => false

theorem isEarly_of_isOpened {n : Note} (h : n.isOpened = true) : n.isEarly = true := by
  simp [isEarly, h]

theorem isEarly_of_isDropped {n : Note} (h : n.isDropped = true) : n.isEarly = true := by
  simp [isEarly, h]

theorem isLate_of_isDropped {n : Note} (h : n.isDropped = true) : n.isLate = true := by
  cases n with
  | invocationWithoutName k => rfl
  | _ => cases h

/-- Only opening a sub-chain can go beyond a limit. -/
theorem exceeds_of_isLate {n : Note} (h : n.isLate = true) (limit : Nat) :
    n.exceeds limit = false := by
  cases n with
  | opened d => cases h
  | _ => rfl

theorem any_exceeds_eq_false {limit : Nat} {ns : List Note}
    (h : ∀ n ∈ ns, n.exceeds limit = false) : ns.any (exceeds limit) = false := by
  rw [List.any_eq_false]
  intro n hn
  simp [h n hn]

end Note

namespace LogEvent

/-- Whether it is reported that quotes were not closed. -/
def isQuoteUnterminated : LogEvent → Bool
  | quoteUnterminated => true
  | _ => false

/-- Whether it is reported that a sub-chain was not closed. -/
def isSubChainUnterminated : LogEvent → Bool
  | subChainUnterminated _ => true
  | _ => false

end LogEvent

namespace Parsed

/-- How many quotes are reported as not closed. -/
def openQuotes (p : Parsed) : Nat := p.events.countP LogEvent.isQuoteUnterminated

/-- How many sub-chains are reported as not closed. -/
def openSubChains (p : Parsed) : Nat := p.events.countP LogEvent.isSubChainUnterminated

end Parsed

namespace ScanState

variable {s t u : ScanState} {p q : Note → Bool} {c : Char} {ps : List Piece} {text : List Char}

/-- The notes of a state go on in another with such notes alone. -/
def Adds (p : Note → Bool) (s t : ScanState) : Prop :=
  ∃ l, t.notes = s.notes ++ l ∧ ∀ n ∈ l, p n = true

namespace Adds

theorem of_eq (h : t.notes = s.notes) : Adds p s t := ⟨[], by simp [h], by simp⟩

theorem single {n : Note} (h : t.notes = s.notes ++ [n]) (hn : p n = true) : Adds p s t :=
  ⟨[n], h, fun _ hm => List.mem_singleton.mp hm ▸ hn⟩

theorem trans (h : Adds p s t) (h' : Adds p t u) : Adds p s u := by
  obtain ⟨l, hl, hp⟩ := h
  obtain ⟨l', hl', hp'⟩ := h'
  refine ⟨l ++ l', by rw [hl', hl, List.append_assoc], ?_⟩
  intro n hn
  rcases List.mem_append.mp hn with hn | hn
  · exact hp n hn
  · exact hp' n hn

theorem mono (h : Adds p s t) (hpq : ∀ n, p n = true → q n = true) : Adds q s t := by
  obtain ⟨l, hl, hp⟩ := h
  exact ⟨l, hl, fun n hn => hpq n (hp n hn)⟩

/-- Notes of one kind are not added by notes of another. -/
theorem countP (h : Adds p s t) (hpq : ∀ n, p n = true → q n = false) :
    t.notes.countP q = s.notes.countP q := by
  obtain ⟨l, hl, hp⟩ := h
  have hz : l.countP q = 0 := by
    rw [List.countP_eq_zero]
    intro n hn
    simp [hpq n (hp n hn)]
  rw [hl, List.countP_append, hz, Nat.add_zero]

theorem isPrefix (h : Adds p s t) : s.notes <+: t.notes := by
  obtain ⟨l, hl, -⟩ := h
  exact ⟨l, hl.symm⟩

end Adds

/-- The notes tell of no sub-chain beyond a limit. -/
def Within (limit : Nat) (s : ScanState) : Prop := ∀ n ∈ s.notes, n.exceeds limit = false

namespace Within

variable {limit : Nat}

/-- What is within the limit in the end has been so all along. -/
theorem of_adds (h : t.Within limit) (ha : s.Adds p t) : s.Within limit :=
  fun n hn => h n (ha.isPrefix.subset hn)

/-- The end of a text goes beyond no limit. -/
theorem adds_late (h : s.Within limit) (ha : s.Adds Note.isLate t) : t.Within limit := by
  obtain ⟨l, hl, hlate⟩ := ha
  intro n hn
  rw [hl, List.mem_append] at hn
  rcases hn with hn | hn
  · exact h n hn
  · exact Note.exceeds_of_isLate (hlate n hn) limit

end Within

/-! ## Notes of one character -/

@[simp] theorem endArgument_notes (s : ScanState) (ps : List Piece) :
    (s.endArgument y ps).notes = s.notes := rfl

@[simp] theorem closeSub_notes (s : ScanState) : s.closeSub.notes = s.notes := by
  obtain ⟨- | ⟨⟨d, ps⟩, o⟩, d', place, n⟩ := s <;> rfl

theorem endInvocation_adds (s : ScanState) : s.Adds Note.isDropped s.endInvocation := by
  simp only [endInvocation]
  split
  · split
    · exact .of_eq rfl
    · exact .single rfl rfl
  · exact .of_eq rfl

theorem readEnd_adds (s : ScanState) (c : Char) : s.Adds Note.isDropped (s.readEnd y c) := by
  have h := s.endInvocation_adds
  simp only [readEnd]
  split
  · exact h
  · exact h.trans (.of_eq (closeSub_notes _))

theorem readMarked_adds (s : ScanState) (ps : List Piece) (c : Char) :
    s.Adds Note.isOpened (s.readMarked y ps c) := by
  unfold readMarked
  split
  · exact .of_eq rfl
  · split
    · exact .single rfl rfl
    · exact .of_eq rfl

theorem readArgument_adds (s : ScanState) (ps : List Piece) (c : Char) :
    s.Adds Note.isEarly (s.readArgument y ps c) := by
  unfold readArgument
  split
  · exact .of_eq rfl
  · split
    · exact ((s.endArgument y ps).readEnd_adds c).mono fun _ => Note.isEarly_of_isDropped
    · split
      · exact .of_eq rfl
      · exact (s.readMarked_adds ps c).mono fun _ => Note.isEarly_of_isOpened

theorem readBetween_adds (s : ScanState) (c : Char) : s.Adds Note.isEarly (s.readBetween y c) := by
  unfold readBetween
  split
  · exact .of_eq rfl
  · split
    · exact (s.readEnd_adds c).mono fun _ => Note.isEarly_of_isDropped
    · exact s.readArgument_adds [] c

theorem readGap_adds (s : ScanState) (c : Char) : s.Adds Note.isEarly (s.readGap y c) := by
  unfold readGap
  split
  · exact .of_eq rfl
  · split
    · exact .of_eq rfl
    · exact s.readBetween_adds c

theorem readName_adds (s : ScanState) (c : Char) : s.Adds Note.isEarly (s.readName y c) := by
  unfold readName
  split
  · exact .of_eq rfl
  · split
    · exact .of_eq rfl
    · split
      · exact s.readBetween_adds c
      · split <;> exact .of_eq rfl

theorem readQuotes_notes (s : ScanState) (ps : List Piece) (text : List Char) (c : Char) :
    (s.readQuotes y ps text c).notes = s.notes := by
  unfold readQuotes
  split
  · rfl
  · split <;> rfl

/-- **A character** adds notes of sub-chains opened and of arguments dropped, and no others. -/
theorem step_adds (s : ScanState) (c : Char) : s.Adds Note.isEarly (s.step y c) := by
  obtain ⟨o, d, place, n⟩ := s
  cases place with
  | lead =>
    simp only [step]
    split
    · exact .of_eq rfl
    · exact readName_adds _ c
  | name => exact readName_adds _ c
  | gap => exact readGap_adds _ c
  | between => exact readBetween_adds _ c
  | argument ps => exact readArgument_adds _ ps c
  | quotes ps t => exact .of_eq (readQuotes_notes _ ps t c)
  | quotesEscape ps t =>
    simp only [step]
    split
    · exact .of_eq rfl
    · split
      · exact readArgument_adds _ _ c
      · exact .of_eq (readQuotes_notes _ _ _ c)
  | _ => exact .of_eq rfl

theorem read_adds (s : ScanState) (text : List Char) : s.Adds Note.isEarly (s.read y text) := by
  induction text generalizing s with
  | nil => exact .of_eq rfl
  | cons c text ih => exact (s.step_adds c).trans (ih _)

/-- Notes that a text may still bring at its end are not made before. -/
theorem scan_countP (text : List Char) (hp : ∀ n : Note, n.isEarly = true → p n = false) :
    (scan y text).notes.countP p = 0 := by
  rw [scan_eq_read, (read_adds {} text).countP hp]
  rfl

/-! ## Notes of the end -/

theorem settle_adds (s : ScanState) : s.Adds Note.isOpened (s.settle y) := by
  obtain ⟨o, d, place, n⟩ := s
  cases place with
  | argumentEscape ps => exact readMarked_adds _ ps _
  | quotesEscape ps t =>
    simp only [settle]
    split <;> exact .of_eq rfl
  | _ => exact .of_eq rfl

theorem endChain_adds (s : ScanState) : s.Adds Note.isLate (s.endChain y) := by
  have h (t : ScanState) : t.Adds Note.isLate t.endInvocation :=
    t.endInvocation_adds.mono fun _ => Note.isLate_of_isDropped
  obtain ⟨o, d, place, n⟩ := s
  cases place with
  | quotes ps t => exact .trans (.single (n := .quoteUnterminated) rfl rfl) (h _)
  | argument ps => exact .trans (.of_eq rfl) (h _)
  | _ => exact h _

/-- The end of the text opens no sub-chain. -/
theorem endAll_adds (k : Nat) (s : ScanState) : s.Adds Note.isLate (endAll y k s) := by
  induction k generalizing s with
  | zero => exact s.endChain_adds
  | succ k ih =>
    have hn : (s.endChain y).Adds Note.isLate
        ((s.endChain y).note (.subChainUnterminated (s.endChain y).depth)).closeSub :=
      .single (closeSub_notes _) rfl
    exact (s.endChain_adds.trans hn).trans (ih _)

theorem closeSub_isQuotes (h : s.place.isQuotes = false) : s.closeSub.place.isQuotes = false := by
  obtain ⟨- | ⟨⟨d, ps⟩, o⟩, d', place, n⟩ := s
  · exact h
  · rfl

/-- The end of a chain adds a note of quotes if it comes within quotes. -/
theorem endChain_countP (s : ScanState) (hp : ∀ n : Note, n.isDropped = true → p n = false) :
    (s.endChain y).notes.countP p =
      s.notes.countP p + if s.place.isQuotes && p .quoteUnterminated then 1 else 0 := by
  have h (t : ScanState) : t.endInvocation.notes.countP p = t.notes.countP p :=
    t.endInvocation_adds.countP hp
  obtain ⟨o, d, place, n⟩ := s
  cases place with
  | quotes ps t =>
    simp only [endChain, h, endArgument_notes, note, List.countP_append, List.countP_singleton,
      Place.isQuotes, Bool.true_and]
  | argument ps => exact h _
  | _ => exact h _

theorem endAll_countP (n : Nat) (s : ScanState)
    (hp : ∀ n : Note, n.isDropped = true → p n = false) {b : Bool}
    (hb : ∀ d, p (.subChainUnterminated d) = b) :
    (endAll y n s).notes.countP p =
      s.notes.countP p + (if s.place.isQuotes && p .quoteUnterminated then 1 else 0) +
        if b then n else 0 := by
  induction n generalizing s with
  | zero => simpa [endAll] using s.endChain_countP hp
  | succ n ih =>
    -- Behind a chain that was ended the reader is outside of quotes.
    have hq : ((s.endChain y).note
        (.subChainUnterminated (s.endChain y).depth)).closeSub.place.isQuotes = false := by
      refine closeSub_isQuotes ?_
      rw [note, endChain_place]
      rfl
    rw [endAll, ih, hq, closeSub_notes, note, List.countP_append, s.endChain_countP hp,
      List.countP_singleton, hb]
    cases b
    · simp
    · simp only [Bool.false_and, Bool.false_eq_true, reduceIte]
      omega

/-- **The notes of a text** of a kind that is not made early are those of its end. -/
theorem readChain_countP (text : List Char) (hp : ∀ n : Note, n.isEarly = true → p n = false)
    {b : Bool} (hb : ∀ d, p (.subChainUnterminated d) = b) :
    (readChain y text).notes.countP p =
      (if ((scan y text).settle y).place.isQuotes && p .quoteUnterminated then 1 else 0) +
        if b then ((scan y text).settle y).depth else 0 := by
  have hs : ((scan y text).settle y).notes.countP p = 0 := by
    rw [(settle_adds _).countP fun n hn => hp n (Note.isEarly_of_isOpened hn), scan_countP text hp]
  rw [readChain, close, endAll_countP _ _ (fun n hn => hp n (Note.isEarly_of_isDropped hn)) hb, hs,
    Nat.zero_add]

/-- Quotes are left open if the text ends within them. -/
theorem count_quoteUnterminated (text : List Char) :
    (readChain y text).notes.countP Note.isQuoteUnterminated =
      if ((scan y text).settle y).place.isQuotes then 1 else 0 := by
  rw [readChain_countP text (b := false) _ fun _ => rfl]
  · simp [Note.isQuoteUnterminated]
  · intro n hn
    cases n with
    | quoteUnterminated => cases hn
    | _ => rfl

/-- The sub-chains left open are those in which the text ends. -/
theorem count_subChainUnterminated (text : List Char) :
    (readChain y text).notes.countP Note.isSubChainUnterminated =
      ((scan y text).settle y).depth := by
  rw [readChain_countP text (b := true) _ fun _ => rfl]
  · simp [Note.isSubChainUnterminated]
  · intro n hn
    cases n with
    | subChainUnterminated d => cases hn
    | _ => rfl

end ScanState

/-! ## Notes under a limit -/

/-- Where no note goes beyond the limit, everything is reported and the chain stands. -/
theorem Parsed.within_of_forall {limit : Nat} {notes : List Note}
    (h : ∀ n ∈ notes, n.exceeds limit = false) (chain : Except Fault Chain) :
    Parsed.within limit notes chain = ⟨notes.filterMap Note.event?, chain⟩ := by
  have htake : (notes.takeWhile fun n => !n.exceeds limit) = notes := by
    rw [List.takeWhile_eq_self_iff]
    intro n hn
    rw [h n hn]
    rfl
  rw [Parsed.within, htake, Note.any_exceeds_eq_false h]
  rfl

/-- A text is parsed as what is read of it, if no note goes beyond the limit. -/
theorem parseChain_eq_ok_iff {a : Attributes} {text : String} {c : Chain} :
    (parseChain a text).chain = .ok c ↔
      (∀ n ∈ (readChain a.symbols text.toList).notes, n.exceeds a.maxDepth = false) ∧
        (readChain a.symbols text.toList).chain = c := by
  simp only [parseChain, Reading.within, Parsed.within]
  split
  next hany =>
    obtain ⟨n, hn, he⟩ := List.any_eq_true.mp hany
    refine ⟨nofun, ?_⟩
    rintro ⟨h, -⟩
    rw [h n hn] at he
    cases he
  next hany =>
    have hall : ∀ n ∈ (readChain a.symbols text.toList).notes, n.exceeds a.maxDepth = false := by
      simpa using hany
    rw [Except.ok.injEq]
    exact (and_iff_right hall).symm

section Reported

variable {a : Attributes} {text : String} {c : Chain}

/-- Of a text that is parsed everything is reported. -/
theorem parseChain_events (h : (parseChain a text).chain = .ok c) :
    (parseChain a text).events =
      (readChain a.symbols text.toList).notes.filterMap Note.event? := by
  rw [parseChain, Reading.within, Parsed.within_of_forall (parseChain_eq_ok_iff.mp h).1]

/-- Quotes are reported as not closed if the text ends within them. -/
theorem parseChain_openQuotes (h : (parseChain a text).chain = .ok c) :
    (parseChain a text).openQuotes =
      if ((scan a.symbols text.toList).settle a.symbols).place.isQuotes then 1 else 0 := by
  rw [Parsed.openQuotes, parseChain_events h, List.countP_filterMap,
    ← ScanState.count_quoteUnterminated]
  refine List.countP_congr ?_
  intro n hn
  cases n <;> simp [Note.event?, LogEvent.isQuoteUnterminated, Note.isQuoteUnterminated]

/-- The sub-chains reported as not closed are those in which the text ends. -/
theorem parseChain_openSubChains (h : (parseChain a text).chain = .ok c) :
    (parseChain a text).openSubChains =
      ((scan a.symbols text.toList).settle a.symbols).depth := by
  rw [Parsed.openSubChains, parseChain_events h, List.countP_filterMap,
    ← ScanState.count_subChainUnterminated]
  refine List.countP_congr ?_
  intro n hn
  cases n <;> simp [Note.event?, LogEvent.isSubChainUnterminated, Note.isSubChainUnterminated]

end Reported

end ChatCommands
