import ChatCommands.Chain.Parse

/-!
# What the reader does with one character

The steps of the reader by the place it stands at, and what an invocation comes to at its end,
whether a delimiter, the end of the sub-chain or the end of the text brings it.

## Main definitions

* `ScanState.read`: reading a text from any state
* `Symbols.Inner`: characters that end no argument
* `Place.isOpen`, `Place.isQuotes`, `Place.isPending`: the places at which an invocation can end,
  those within quotes, and those behind a backslash
* `ScanState.endWord`: the argument that is being read has ended
* `ScanState.EndsAs`: what the end of an invocation makes of a state

## Main results

* `ScanState.scan_isPending`: which texts leave a backslash pending
* `ScanState.EndsAs.step`, `ScanState.EndsAs.close`: what a character that ends the invocation, and
  the end of the text, make of a state
* `ScanState.close_outer`: at the end no sub-chain is open
-/

namespace ChatCommands

variable {y : Symbols}

/-- A character that ends no argument. -/
structure Symbols.Inner (y : Symbols) (c : Char) : Prop where
  notBlank : blank c = false
  notDelimiter : c ≠ y.delimiter
  notSubEnd : c ≠ y.subEnd

/-- Whether the place is outside of quotes and no backslash is pending. -/
def Place.isOpen : Place → Bool
  | nameEscape => false
  | argumentEscape _ => false
  | quotes _ _ => false
  | quotesEscape _ _ => false
  | _ => true

namespace Place

/-- Whether the place is within quotes, and no backslash is pending. -/
def isQuotes : Place → Bool
  | quotes _ _ => true
  | _ => false

/-- Whether a backslash is pending. -/
def isPending : Place → Bool
  | nameEscape => true
  | argumentEscape _ => true
  | quotesEscape _ _ => true
  | _ => false

/-- Every place is within quotes, has a backslash pending, or is one at which an invocation can
end. -/
theorem isOpen_of_not {q : Place} (hp : q.isPending = false) (hq : q.isQuotes = false) :
    q.isOpen = true := by
  cases q <;> simp_all [isPending, isQuotes, isOpen]

end Place

namespace ScanState

variable {s : ScanState} {o : List (Draft × List Piece)} {d : Draft} {p : List Piece}
  {t : List Char} {n : List Note} {c : Char}

/-- Reads a text. -/
def read (y : Symbols) (s : ScanState) (text : List Char) : ScanState := text.foldl (step y) s

@[simp] theorem read_nil (s : ScanState) : s.read y [] = s := rfl

@[simp] theorem read_cons (s : ScanState) (c : Char) (t : List Char) :
    s.read y (c :: t) = (s.step y c).read y t := rfl

@[simp] theorem read_append (s : ScanState) (t u : List Char) :
    s.read y (t ++ u) = (s.read y t).read y u := List.foldl_append

theorem scan_eq_read (text : List Char) : scan y text = read y {} text := rfl

/-- Ends the argument that is being read, if one is. -/
def endWord (y : Symbols) (s : ScanState) : ScanState :=
  match s.place with
  | .argument p => s.endArgument y p
  | _ => s

theorem ends_of_inner (h : y.Inner c) : s.ends y c = false := by
  simp [ends, h.notDelimiter, h.notSubEnd]

/-- A character in an argument that does not end it. -/
theorem step_argument (h : y.Inner c) (he : o = [] → c ≠ '\\') :
    step y ⟨o, d, .argument p, n⟩ c = readMarked y ⟨o, d, .argument p, n⟩ p c := by
  -- Within sub-chains a backslash is a character like any other.
  have hn : escapes ⟨o, d, .argument p, n⟩ c = false := by
    cases o <;> simp_all [escapes]
  simp [step, readArgument, h.notBlank, ends_of_inner h, hn]

/-- A character between arguments that does not end the invocation begins an argument. -/
theorem step_between (h : y.Inner c) :
    step y ⟨o, d, .between, n⟩ c = step y ⟨o, d, .argument [], n⟩ c := by
  simp [step, readBetween, readArgument, h.notBlank, ends_of_inner h, escapes, readMarked, openSub,
    depth]

/-- A character before the name that is no blank begins it. -/
theorem step_lead (hb : blank c = false) :
    step y ⟨o, d, .lead, n⟩ c = step y ⟨o, d, .name, n⟩ c := by
  simp only [step, hb, Bool.false_eq_true, reduceIte]
  rfl

/-- A blank behind an argument ends it, and between arguments it changes nothing. -/
theorem step_blank (hp : s.place = .between ∨ ∃ p, s.place = .argument p) (hb : blank c = true) :
    s.step y c = s.endWord y := by
  obtain ⟨o, d, place, n⟩ := s
  rcases hp with rfl | ⟨p, rfl⟩
  · simp [step, readBetween, hb, endWord]
  · simp [step, readArgument, hb, endWord]

/-- At an open place a character that ends the invocation ends the argument before it. -/
theorem step_of_ends (hp : s.place.isOpen) (hb : blank c = false) (ha : c ≠ y.argsDelimiter)
    (he : s.ends y c = true) : s.step y c = (s.endWord y).readEnd y c := by
  obtain ⟨o, d, place, n⟩ := s
  cases place <;>
    simp_all [Place.isOpen, step, readName, readGap, readBetween, readArgument, endWord, ends]

theorem settle_of_isOpen (hp : s.place.isOpen) : s.settle y = s := by
  obtain ⟨o, d, place, n⟩ := s
  cases place <;> simp_all [Place.isOpen, settle]

/-- At an open place the end of the text ends the argument before the invocation. -/
theorem endChain_of_isOpen (hp : s.place.isOpen) :
    s.endChain y = (s.endWord y).endInvocation := by
  obtain ⟨o, d, place, n⟩ := s
  cases place <;> simp_all [Place.isOpen, endChain, endWord]

/-! ## Pending backslashes -/

theorem endInvocation_place (s : ScanState) : s.endInvocation.place = .lead := by
  simp only [endInvocation]
  split
  · split <;> rfl
  · rfl

theorem endChain_place (s : ScanState) : (s.endChain y).place = .lead := by
  obtain ⟨o, d, place, n⟩ := s
  cases place <;> exact endInvocation_place _

theorem readEnd_isPending (s : ScanState) (c : Char) :
    (s.readEnd y c).place.isPending = false := by
  have hp := s.endInvocation_place
  simp only [readEnd]
  split
  · rw [hp]
    rfl
  · generalize s.endInvocation = t at hp ⊢
    obtain ⟨- | ⟨⟨d, ps⟩, o⟩, d', place, n⟩ := t
    · rw [closeSub, hp]
      rfl
    · rfl

theorem readMarked_isPending (s : ScanState) (p : List Piece) (c : Char) :
    (s.readMarked y p c).place.isPending = false := by
  unfold readMarked
  split
  · rfl
  · split <;> rfl

/-- If a backslash is pending behind a character, then it is that character, and within sub-chains
it stands in quotes. -/
def Pends (c : Char) (s : ScanState) : Prop :=
  s.place.isPending = true → c = '\\' ∧ (s.outer = [] ∨ s.place.quoted = true)

theorem pends_of_not (h : s.place.isPending = false) : s.Pends c := by
  intro hp
  rw [h] at hp
  cases hp

theorem pends_of_escapes (h : s.escapes c = true) (q : Place) : Pends c { s with place := q } := by
  simp only [escapes, Bool.and_eq_true, List.isEmpty_iff, beq_iff_eq] at h
  exact fun _ => ⟨h.2, .inl h.1⟩

theorem readArgument_pends (s : ScanState) (p : List Piece) (c : Char) :
    (s.readArgument y p c).Pends c := by
  unfold readArgument
  split
  · exact pends_of_not rfl
  · split
    · exact pends_of_not (readEnd_isPending _ c)
    · split
      next he => exact pends_of_escapes he _
      · exact pends_of_not (readMarked_isPending s p c)

theorem readBetween_pends (s : ScanState) (c : Char) : (s.readBetween y c).Pends c := by
  unfold readBetween
  split
  · exact pends_of_not rfl
  · split
    · exact pends_of_not (readEnd_isPending s c)
    · exact s.readArgument_pends [] c

theorem readGap_pends (s : ScanState) (c : Char) : (s.readGap y c).Pends c := by
  unfold readGap
  split
  · exact pends_of_not rfl
  · split
    · exact pends_of_not rfl
    · exact s.readBetween_pends c

theorem readName_pends (s : ScanState) (c : Char) : (s.readName y c).Pends c := by
  unfold readName
  split
  · exact pends_of_not rfl
  · split
    · exact pends_of_not rfl
    · split
      · exact s.readBetween_pends c
      · split
        next he => exact pends_of_escapes he _
        · exact pends_of_not rfl

theorem readQuotes_pends (s : ScanState) (p : List Piece) (t : List Char) (c : Char) :
    (s.readQuotes y p t c).Pends c := by
  unfold readQuotes
  split
  next hc => exact fun _ => ⟨hc, .inr rfl⟩
  · split <;> exact pends_of_not rfl

theorem step_pends (s : ScanState) (c : Char) : (s.step y c).Pends c := by
  obtain ⟨o, d, place, n⟩ := s
  cases place with
  | lead =>
    simp only [step]
    split
    · exact pends_of_not rfl
    · exact readName_pends _ c
  | name => exact readName_pends _ c
  | gap => exact readGap_pends _ c
  | between => exact readBetween_pends _ c
  | argument p => exact readArgument_pends _ p c
  | quotes p t => exact readQuotes_pends _ p t c
  | quotesEscape p t =>
    simp only [step]
    split
    · exact pends_of_not rfl
    · split
      · exact readArgument_pends _ _ c
      · exact readQuotes_pends _ _ _ c
  | _ => exact pends_of_not rfl

/-- A backslash is pending only behind a text that ends in one, and within sub-chains only in
quotes. -/
theorem scan_isPending {text : List Char} (h : (scan y text).place.isPending = true) :
    text.getLast? = some '\\' ∧ ((scan y text).outer = [] ∨ (scan y text).place.quoted = true) := by
  rcases List.eq_nil_or_concat text with rfl | ⟨t, c, rfl⟩
  · cases h
  · rw [List.concat_eq_append] at h ⊢
    rw [scan_eq_read, read_append] at h ⊢
    obtain ⟨rfl, hq⟩ := step_pends _ c h
    exact ⟨List.getLast?_concat, hq⟩

/-- Where no backslash is pending there is none to settle. -/
theorem settle_of_not_isPending (h : s.place.isPending = false) : s.settle y = s := by
  obtain ⟨o, d, place, n⟩ := s
  cases place with
  | nameEscape => cases h
  | argumentEscape p => cases h
  | quotesEscape p t => cases h
  | _ => rfl

/-! ## Open sub-chains -/

@[simp] theorem endWord_outer (s : ScanState) : (s.endWord y).outer = s.outer := by
  obtain ⟨o, d, place, n⟩ := s
  cases place <;> rfl

@[simp] theorem endInvocation_outer (s : ScanState) : s.endInvocation.outer = s.outer := by
  simp only [endInvocation]
  split
  · split <;> rfl
  · rfl

@[simp] theorem closeSub_outer (s : ScanState) : s.closeSub.outer = s.outer.tail := by
  obtain ⟨- | ⟨⟨d, ps⟩, o⟩, d', place, n⟩ := s <;> rfl

@[simp] theorem endChain_outer (s : ScanState) : (s.endChain y).outer = s.outer := by
  obtain ⟨o, d, place, n⟩ := s
  cases place <;> exact endInvocation_outer _

/-- Each sub-chain that is ended was open. -/
theorem endAll_outer (k : Nat) (s : ScanState) : (endAll y k s).outer = s.outer.drop k := by
  induction k generalizing s with
  | zero => exact endChain_outer s
  | succ k ih => rw [endAll, ih, closeSub_outer, note, endChain_outer, List.drop_tail]

/-- At the end of a text no sub-chain is open. -/
theorem close_outer (s : ScanState) : (s.close y).outer = [] := by
  rw [close, endAll_outer]
  exact List.drop_length

/-! ## States in which an invocation may end -/

/-- A state in which an invocation may end, and what its end makes of it. -/
structure EndsAs (y : Symbols) (s u : ScanState) : Prop where
  isOpen : s.place.isOpen
  eq : (s.endWord y).endInvocation = u

namespace EndsAs

variable {u : ScanState}

theorem outer (h : EndsAs y s u) : s.outer = u.outer := by
  simp [← h.eq]

theorem depth (h : EndsAs y s u) : s.depth = u.depth := by
  rw [ScanState.depth, h.outer, ScanState.depth]

/-- A character at which the invocation ends. -/
theorem step (h : EndsAs y s u) (hb : blank c = false) (ha : c ≠ y.argsDelimiter)
    (he : s.ends y c = true) : s.step y c = if c = y.delimiter then u else u.closeSub := by
  rw [step_of_ends h.isOpen hb ha he, readEnd, h.eq]

theorem settle (h : EndsAs y s u) : s.settle y = s := settle_of_isOpen h.isOpen

/-- The end of a chain ends the invocation. -/
theorem endChain (h : EndsAs y s u) : s.endChain y = u := by
  rw [endChain_of_isOpen h.isOpen, h.eq]

/-- The end of the text ends an invocation that no sub-chain surrounds. -/
theorem close (h : EndsAs y s u) (ho : u.outer = []) : s.close y = u := by
  have hd : s.depth = 0 := by simp [ScanState.depth, h.outer, ho]
  rw [ScanState.close, h.settle, hd, endAll, h.endChain]

end EndsAs

end ScanState

end ChatCommands
