import ChatCommands.Proofs.Chain.Canonical
import ChatCommands.Proofs.Chain.Notes

/-!
# The shape of what is read

Whatever a text is, the chain that is read from it is canonical, and it nests no deeper than the
limit. This holds for any symbols: they may coincide, be blanks or be the backslash. The proof is
an invariant of the reader. All that it keeps, the drafts of the open chains and the pieces of the
arguments around them, fits at its depth, provided that no sub-chain beyond the limit has been
noted.

## Main definitions

* `ChainFits`, `PieceFits`, `DraftFits`: what may be kept so many sub-chains deep
* `ScanState.Fits`: the invariant

## Main results

* `argumentOf_shape`: pieces that fit make an argument that does
* `ScanState.step_fits`: a character keeps the invariant
* `parseChain_canonical`: what is parsed is canonical
-/

namespace ChatCommands

variable {y : Symbols} {L k : Nat}

/-! ## Canonical trees, piece by piece -/

theorem canonicalChain_append {nested : Bool} {b c : Chain} :
    CanonicalChain y nested (b ++ c) ↔ CanonicalChain y nested b ∧ CanonicalChain y nested c := by
  induction b with
  | nil => simp [CanonicalChain]
  | cons i b ih =>
    cases i with
    | call name as => simp [CanonicalChain, ih, and_assoc]

theorem chainDepth_append (b c : Chain) :
    chainDepth (b ++ c) = max (chainDepth b) (chainDepth c) := by
  induction b with
  | nil => simp [chainDepth]
  | cons i b ih =>
    cases i with
    | call name as => simp [chainDepth, ih, max_assoc]

theorem canonicalArguments_append {as bs : List Argument} :
    CanonicalArguments y (as ++ bs) ↔ CanonicalArguments y as ∧ CanonicalArguments y bs := by
  induction as with
  | nil => simp [CanonicalArguments]
  | cons a as ih => simp [CanonicalArguments, ih, and_assoc]

theorem argumentsDepth_append (as bs : List Argument) :
    argumentsDepth (as ++ bs) = max (argumentsDepth as) (argumentsDepth bs) := by
  induction as with
  | nil => simp [argumentsDepth]
  | cons a as ih => simp [argumentsDepth, ih, max_assoc]

/-! ## The parts that pieces make -/

theorem joinText_ne_nil (s : List Char) (ps : List Part) : joinText s ps ≠ [] := by
  rcases ps with - | ⟨(t | - | c), ps⟩ <;> simp [joinText]

theorem partsOf_ne_nil {ps : List Piece} (h : ps ≠ []) : partsOf ps ≠ [] := by
  cases ps with
  | nil => exact absurd rfl h
  | cons p ps =>
    cases p with
    | plain s => exact joinText_ne_nil s _
    | literal s => exact joinText_ne_nil s _
    | sub c => exact List.cons_ne_nil _ _

/-- Text put before parts is no neighbour of another text. -/
theorem isChain_joinText (s : List Char) {ps : List Part}
    (h : ps.IsChain fun p q => p.isText = false ∨ q.isText = false) :
    (joinText s ps).IsChain fun p q => p.isText = false ∨ q.isText = false := by
  rcases ps with - | ⟨(t | - | c), ps⟩
  · exact .singleton _
  · -- The text goes into the one that stands there, which had no text behind it.
    rcases ps with - | ⟨q, ps⟩
    · exact .singleton _
    · rw [List.isChain_cons_cons] at h
      exact List.isChain_cons_cons.mpr ⟨.inr (h.1.resolve_left (by simp [Part.isText])), h.2⟩
  · exact List.isChain_cons_cons.mpr ⟨.inr rfl, h⟩
  · exact List.isChain_cons_cons.mpr ⟨.inr rfl, h⟩

theorem isChain_partsOf (ps : List Piece) :
    (partsOf ps).IsChain fun p q => p.isText = false ∨ q.isText = false := by
  induction ps with
  | nil => exact .nil
  | cons p ps ih =>
    cases p with
    | plain s => exact isChain_joinText s ih
    | literal s => exact isChain_joinText s ih
    | sub c => exact ih.cons fun _ _ => .inl rfl

/-- Parts are texts or come from sub-chains among the pieces. -/
theorem mem_partsOf {ps : List Piece} {p : Part} (h : p ∈ partsOf ps) :
    p.isText = true ∨ ∃ c, p = .sub c ∧ .sub c ∈ ps := by
  have hj {s : List Char} {qs : List Part} (hp : p ∈ joinText s qs) : p.isText = true ∨ p ∈ qs := by
    rcases qs with - | ⟨(t | - | c), qs⟩
    · exact .inl (List.mem_singleton.mp hp ▸ rfl)
    · rcases List.mem_cons.mp hp with rfl | hp
      · exact .inl rfl
      · exact .inr (List.mem_cons_of_mem _ hp)
    · rcases List.mem_cons.mp hp with rfl | hp
      · exact .inl rfl
      · exact .inr hp
    · rcases List.mem_cons.mp hp with rfl | hp
      · exact .inl rfl
      · exact .inr hp
  induction ps with
  | nil => cases h
  | cons q ps ih =>
    -- What comes from the pieces behind the first is found among all of them.
    have ih (hp : p ∈ partsOf ps) : p.isText = true ∨ ∃ c, p = .sub c ∧ .sub c ∈ q :: ps :=
      (ih hp).imp_right fun ⟨c, hc, hm⟩ => ⟨c, hc, List.mem_cons_of_mem _ hm⟩
    cases q with
    | plain s => exact (hj h).elim .inl ih
    | literal s => exact (hj h).elim .inl ih
    | sub c =>
      rcases List.mem_cons.mp h with rfl | h
      · exact .inr ⟨c, rfl, List.mem_cons_self⟩
      · exact ih h

theorem canonicalParts_of_forall {ps : List Part} (h : ∀ p ∈ ps, CanonicalPart y p) :
    CanonicalParts y ps := by
  induction ps with
  | nil => trivial
  | cons p ps ih =>
    exact ⟨h p List.mem_cons_self, ih fun q hq => h q (List.mem_cons_of_mem _ hq)⟩

theorem partsDepth_le {ps : List Part} {n : Nat} (h : ∀ p ∈ ps, partDepth p ≤ n) :
    partsDepth ps ≤ n := by
  induction ps with
  | nil => exact Nat.zero_le n
  | cons p ps ih =>
    exact max_le (h p List.mem_cons_self) (ih fun q hq => h q (List.mem_cons_of_mem _ hq))

/-! ## What fits at a depth -/

/-- A chain that is canonical `k` sub-chains deep and nests no deeper than `L` sub-chains, those
around it included. -/
structure ChainFits (y : Symbols) (L k : Nat) (c : Chain) : Prop where
  canonical : CanonicalChain y (decide (0 < k)) c
  depth : k + chainDepth c ≤ L

/-- A piece of an argument that fits `k` sub-chains deep. -/
def PieceFits (y : Symbols) (L k : Nat) (p : Piece) : Prop :=
  ∀ c, p = .sub c → ChainFits y L (k + 1) c

/-- A draft that fits `k` sub-chains deep. -/
structure DraftFits (y : Symbols) (L k : Nat) (d : Draft) : Prop where
  done : ChainFits y L k d.done
  name : 0 < k → ∀ c ∈ d.name, blank c = false ∧
    c ∉ [y.argsDelimiter, y.subStart, y.subEnd, y.delimiter]
  arguments : CanonicalArguments y d.arguments
  depth : k + argumentsDepth d.arguments ≤ L

theorem pieceFits_plain (s : List Char) : PieceFits y L k (.plain s) := nofun

theorem pieceFits_literal (s : List Char) : PieceFits y L k (.literal s) := nofun

theorem ChainFits.piece {c : Chain} (h : ChainFits y L (k + 1) c) : PieceFits y L k (.sub c) := by
  intro c' hc
  cases hc
  exact h

/-- Pieces that fit with one more of them. -/
theorem forall_pieceFits_concat {ps : List Piece} {p : Piece} (hs : ∀ p ∈ ps, PieceFits y L k p)
    (hp : PieceFits y L k p) : ∀ q ∈ ps ++ [p], PieceFits y L k q := by
  intro q hq
  rcases List.mem_append.mp hq with hq | hq
  · exact hs q hq
  · exact List.mem_singleton.mp hq ▸ hp

/-- **Pieces that fit** make an argument of a canonical shape that does. -/
theorem argumentOf_shape {ps : List Piece} (hne : ps ≠ []) (hk : k ≤ L)
    (h : ∀ p ∈ ps, PieceFits y L k p) :
    CanonicalShape (argumentOf y ps) ∧ CanonicalParts y (argumentOf y ps) ∧
      k + partsDepth (argumentOf y ps) ≤ L := by
  unfold argumentOf
  split
  · refine ⟨⟨by simp, by simp, .inl rfl⟩, ⟨trivial, trivial⟩, ?_⟩
    simpa [partsDepth, partDepth] using hk
  · refine ⟨⟨partsOf_ne_nil hne, isChain_partsOf ps, .inr ?_⟩, ?_, ?_⟩
    · intro p hp
      rcases mem_partsOf hp with ht | ⟨c, rfl, -⟩
      · cases p with
        | previous => cases ht
        | _ => rfl
      · rfl
    · refine canonicalParts_of_forall ?_
      intro p hp
      rcases mem_partsOf hp with ht | ⟨c, rfl, hc⟩
      · cases p with
        | sub c => cases ht
        | _ => trivial
      · exact (h _ hc c rfl).canonical
    · have hd : partsDepth (partsOf ps) ≤ L - k := by
        refine partsDepth_le ?_
        intro p hp
        rcases mem_partsOf hp with ht | ⟨c, rfl, hc⟩
        · cases p with
          | sub c => cases ht
          | _ => exact Nat.zero_le _
        · have hc := (h _ hc c rfl).depth
          rw [partDepth]
          omega
      omega

namespace DraftFits

variable {d : Draft}

theorem level_le (h : DraftFits y L k d) : k ≤ L := (Nat.le_add_right _ _).trans h.depth

/-- Nothing has been read of a chain at a depth within the limit. -/
theorem fresh (h : k ≤ L) : DraftFits y L k {} where
  done := ⟨trivial, h⟩
  name := by simp
  arguments := trivial
  depth := h

/-- One more argument. -/
theorem addArgument (h : DraftFits y L k d) {a : Argument} (hs : CanonicalShape a)
    (hp : CanonicalParts y a) (hd : k + partsDepth a ≤ L) : DraftFits y L k (d.addArgument a) where
  done := h.done
  name := h.name
  arguments := canonicalArguments_append.mpr ⟨h.arguments, hs, hp, trivial⟩
  depth := by
    have hold := h.depth
    simp only [Draft.addArgument, argumentsDepth_append, argumentsDepth]
    omega

/-- One more character in the name, which within sub-chains has no meaning there. -/
theorem addName (h : DraftFits y L k d) {c : Char} (hc : 0 < k → blank c = false ∧
    c ∉ [y.argsDelimiter, y.subStart, y.subEnd, y.delimiter]) :
    DraftFits y L k { d with name := d.name ++ [c] } where
  done := h.done
  name := by
    intro hk x hx
    rcases List.mem_append.mp hx with hx | hx
    · exact h.name hk x hx
    · exact List.mem_singleton.mp hx ▸ hc hk
  arguments := h.arguments
  depth := h.depth

/-- The invocation of the draft is dropped. -/
theorem drop (h : DraftFits y L k d) : DraftFits y L k { done := d.done } where
  done := h.done
  name := by simp
  arguments := trivial
  depth := h.level_le

/-- The invocation of the draft is complete. -/
theorem complete (h : DraftFits y L k d) (hn : d.name ≠ []) :
    DraftFits y L k { done := d.done ++ [.call (String.ofList d.name) d.arguments] } where
  done := by
    refine ⟨canonicalChain_append.mpr ⟨h.done.canonical, ⟨?_, ?_⟩, h.arguments, trivial⟩, ?_⟩
    · simpa using hn
    · simpa using h.name
    · have hd := h.depth
      have hold := h.done.depth
      simp only [chainDepth_append, chainDepth]
      omega
  name := by simp
  arguments := trivial
  depth := h.level_le

end DraftFits

namespace ScanState

/-! ## The invariant of the reader -/

/-- The drafts of the enclosing chains fit, with the pieces of the arguments around sub-chains. -/
def FramesFit (y : Symbols) (L : Nat) : List (Draft × List Piece) → Prop
  | [] => True
  | (d, ps) :: o =>
    DraftFits y L o.length d ∧ (∀ p ∈ ps, PieceFits y L o.length p) ∧ FramesFit y L o

/-- What is kept at a place fits. An argument is ended behind its first piece only, and in names
there are backslashes outside of sub-chains only. -/
def PlaceFits (y : Symbols) (L : Nat) (o : List (Draft × List Piece)) : Place → Prop
  | .nameEscape => o = []
  | .argument ps => ps ≠ [] ∧ ∀ p ∈ ps, PieceFits y L o.length p
  | .argumentEscape ps | .quotes ps _ | .quotesEscape ps _ => ∀ p ∈ ps, PieceFits y L o.length p
  | _ => True

/-- All that the reader keeps fits. -/
structure Fits (y : Symbols) (L : Nat) (s : ScanState) : Prop where
  frames : FramesFit y L s.outer
  draft : DraftFits y L s.depth s.draft
  place : PlaceFits y L s.outer s.place

section Reading

variable {s : ScanState} {ps : List Piece} {c : Char}

/-- At a place where nothing is kept, everything else has to fit. -/
theorem Fits.moveTo (h : s.Fits y L) {q : Place} (hq : PlaceFits y L s.outer q) :
    Fits y L { s with place := q } := ⟨h.frames, h.draft, hq⟩

/-- One more character in the name. -/
theorem Fits.addName (h : s.Fits y L) (hc : s.outer ≠ [] → blank c = false ∧
    c ∉ [y.argsDelimiter, y.subStart, y.subEnd, y.delimiter]) :
    Fits y L { s with draft := { s.draft with name := s.draft.name ++ [c] }, place := .name } :=
  ⟨h.frames, h.draft.addName fun hk => hc (List.ne_nil_of_length_pos hk), trivial⟩

theorem endInvocation_fits (h : s.Fits y L) : s.endInvocation.Fits y L := by
  simp only [endInvocation]
  split
  · split
    · exact ⟨h.frames, h.draft.drop, trivial⟩
    · exact ⟨h.frames, h.draft.drop, trivial⟩
  next hn => exact ⟨h.frames, h.draft.complete (by simpa using hn), trivial⟩

theorem endArgument_fits (h : s.Fits y L) (hne : ps ≠ [])
    (hps : ∀ p ∈ ps, PieceFits y L s.depth p) : (s.endArgument y ps).Fits y L := by
  obtain ⟨hs, hp, hd⟩ := argumentOf_shape (y := y) hne h.draft.level_le hps
  exact ⟨h.frames, h.draft.addArgument hs hp hd, trivial⟩

/-- The chain that a sub-chain holds fits as a piece of the argument around it. -/
theorem closeSub_fits (h : s.Fits y L) : s.closeSub.Fits y L := by
  obtain ⟨o, d, place, n⟩ := s
  cases o with
  | nil => exact h
  | cons f o =>
    obtain ⟨hd, hps, ho⟩ := h.frames
    have hc : ChainFits y L (o.length + 1) d.done := h.draft.done
    exact ⟨ho, hd, by simp, forall_pieceFits_concat hps hc.piece⟩

theorem openSub_fits (h : s.Fits y L) (hps : ∀ p ∈ ps, PieceFits y L s.depth p)
    (hw : (s.openSub ps).Within L) : (s.openSub ps).Fits y L := by
  have hlevel : s.depth + 1 ≤ L := by
    have hn := hw (.opened (s.depth + 1)) (by simp [openSub])
    simpa [Note.exceeds] using hn
  exact ⟨⟨h.draft, hps, h.frames⟩, .fresh hlevel, trivial⟩

theorem readEnd_fits (h : s.Fits y L) (c : Char) : (s.readEnd y c).Fits y L := by
  simp only [readEnd]
  split
  · exact endInvocation_fits h
  · exact closeSub_fits (endInvocation_fits h)

theorem readMarked_fits (h : s.Fits y L) (hps : ∀ p ∈ ps, PieceFits y L s.depth p)
    (hw : (s.readMarked y ps c).Within L) : (s.readMarked y ps c).Fits y L := by
  unfold readMarked at hw ⊢
  by_cases hq : c = y.quoteStart
  · rw [if_pos hq]
    exact h.moveTo (q := .quotes ps []) hps
  rw [if_neg hq] at hw ⊢
  by_cases hs : c = y.subStart
  · rw [if_pos hs] at hw ⊢
    exact openSub_fits h hps hw
  · rw [if_neg hs]
    exact h.moveTo (q := .argument _)
      ⟨by simp, forall_pieceFits_concat hps (pieceFits_plain _)⟩

/-- A character that does not end the argument may be its first. -/
theorem readArgument_fits (h : s.Fits y L) (hps : ∀ p ∈ ps, PieceFits y L s.depth p)
    (hne : ps ≠ [] ∨ blank c = false ∧ s.ends y c = false)
    (hw : (s.readArgument y ps c).Within L) : (s.readArgument y ps c).Fits y L := by
  unfold readArgument at hw ⊢
  by_cases hb : blank c = true
  · rw [if_pos hb]
    exact endArgument_fits h (hne.resolve_right (by simp [hb])) hps
  rw [if_neg hb] at hw ⊢
  by_cases he : s.ends y c = true
  · rw [if_pos he]
    exact readEnd_fits (endArgument_fits h (hne.resolve_right (by simp [he])) hps) c
  rw [if_neg he] at hw ⊢
  by_cases hx : s.escapes c = true
  · rw [if_pos hx]
    exact h.moveTo (q := .argumentEscape ps) hps
  · rw [if_neg hx] at hw ⊢
    exact readMarked_fits h hps hw

theorem readBetween_fits (h : s.Fits y L) (hw : (s.readBetween y c).Within L) :
    (s.readBetween y c).Fits y L := by
  unfold readBetween at hw ⊢
  by_cases hb : blank c = true
  · rw [if_pos hb]
    exact h.moveTo (q := .between) trivial
  rw [if_neg hb] at hw ⊢
  by_cases he : s.ends y c = true
  · rw [if_pos he]
    exact readEnd_fits h c
  · rw [if_neg he] at hw ⊢
    exact readArgument_fits h (by simp) (.inr ⟨by simpa using hb, by simpa using he⟩) hw

theorem readGap_fits (h : s.Fits y L) (hw : (s.readGap y c).Within L) :
    (s.readGap y c).Fits y L := by
  unfold readGap at hw ⊢
  by_cases hb : blank c = true
  · rw [if_pos hb]
    exact h.moveTo (q := .gap) trivial
  rw [if_neg hb] at hw ⊢
  by_cases ha : c = y.argsDelimiter
  · rw [if_pos ha]
    exact h.moveTo (q := .between) trivial
  · rw [if_neg ha] at hw ⊢
    exact readBetween_fits h hw

theorem readName_fits (h : s.Fits y L) (hw : (s.readName y c).Within L) :
    (s.readName y c).Fits y L := by
  unfold readName at hw ⊢
  by_cases hb : blank c = true
  · rw [if_pos hb]
    exact h.moveTo (q := .gap) trivial
  rw [if_neg hb] at hw ⊢
  by_cases ha : c = y.argsDelimiter
  · rw [if_pos ha]
    exact h.moveTo (q := .between) trivial
  rw [if_neg ha] at hw ⊢
  by_cases he : (c = y.subStart || s.ends y c) = true
  · rw [if_pos he] at hw ⊢
    exact readBetween_fits h hw
  rw [if_neg he] at hw ⊢
  by_cases hx : s.escapes c = true
  · rw [if_pos hx]
    refine h.moveTo (q := .nameEscape) ?_
    simp only [escapes, Bool.and_eq_true, List.isEmpty_iff] at hx
    exact hx.1
  · -- What is left for a name within sub-chains is none of the characters that end it.
    rw [if_neg hx]
    refine h.addName ?_
    intro ho
    simp only [ends, List.isEmpty_eq_false_iff.mpr ho, Bool.not_false, Bool.true_and,
      Bool.or_eq_true, decide_eq_true_eq, beq_iff_eq, not_or] at he
    exact ⟨by simpa using hb, by simp [ha, he]⟩

theorem readQuotes_fits (h : s.Fits y L) (hps : ∀ p ∈ ps, PieceFits y L s.depth p)
    (text : List Char) : (s.readQuotes y ps text c).Fits y L := by
  unfold readQuotes
  split
  · exact h.moveTo (q := .quotesEscape ps text) hps
  · split
    · exact h.moveTo (q := .argument _)
        ⟨by simp, forall_pieceFits_concat hps (pieceFits_literal _)⟩
    · exact h.moveTo (q := .quotes ps _) hps

/-- **A character** keeps the invariant, unless it opens a sub-chain beyond the limit. -/
theorem step_fits (h : s.Fits y L) (hw : (s.step y c).Within L) : (s.step y c).Fits y L := by
  obtain ⟨o, d, place, n⟩ := s
  have hp := h.place
  cases place with
  | lead =>
    simp only [step] at hw ⊢
    split at hw
    next hb =>
      rw [if_pos hb]
      exact h
    next hb =>
      rw [if_neg hb]
      exact readName_fits h hw
  | name => exact readName_fits h hw
  | nameEscape => exact h.addName fun ho => absurd hp ho
  | gap => exact readGap_fits h hw
  | between => exact readBetween_fits h hw
  | argument ps => exact readArgument_fits h hp.2 (.inl hp.1) hw
  | argumentEscape ps =>
    exact h.moveTo (q := .argument _) ⟨by simp, forall_pieceFits_concat hp (pieceFits_literal _)⟩
  | quotes ps text => exact readQuotes_fits h hp text
  | quotesEscape ps text =>
    have hq : ∀ p ∈ ps ++ [.literal text], PieceFits y L o.length p :=
      forall_pieceFits_concat hp (pieceFits_literal _)
    simp only [step] at hw ⊢
    by_cases hc : c = y.quoteEnd
    · rw [if_pos hc]
      exact h.moveTo (q := .quotes ps _) hp
    rw [if_neg hc] at hw ⊢
    by_cases he : '\\' = y.quoteEnd
    · rw [if_pos he] at hw ⊢
      exact readArgument_fits h hq (.inl (by simp)) hw
    · rw [if_neg he]
      exact readQuotes_fits h hp _

theorem read_fits {text : List Char} (h : s.Fits y L) (hw : (s.read y text).Within L) :
    (s.read y text).Fits y L := by
  induction text generalizing s with
  | nil => exact h
  | cons c text ih => exact ih (step_fits h (hw.of_adds (read_adds _ text))) hw

/-! ## The end of the text -/

theorem settle_fits (h : s.Fits y L) (hw : (s.settle y).Within L) : (s.settle y).Fits y L := by
  obtain ⟨o, d, place, n⟩ := s
  have hp := h.place
  cases place with
  | nameEscape => exact h.addName fun ho => absurd hp ho
  | argumentEscape ps => exact readMarked_fits h hp hw
  | quotesEscape ps text =>
    simp only [settle]
    split
    · exact h.moveTo (q := .argument _) ⟨by simp, forall_pieceFits_concat hp (pieceFits_literal _)⟩
    · exact h.moveTo (q := .quotes ps _) hp
  | _ => exact h

theorem endChain_fits (h : s.Fits y L) : (s.endChain y).Fits y L := by
  obtain ⟨o, d, place, n⟩ := s
  have hp := h.place
  cases place with
  | quotes ps text =>
    have hn : Fits y L (note ⟨o, d, .quotes ps text, n⟩ .quoteUnterminated) :=
      ⟨h.frames, h.draft, h.place⟩
    exact endInvocation_fits
      (endArgument_fits hn (by simp) (forall_pieceFits_concat hp (pieceFits_literal _)))
  | argument ps => exact endInvocation_fits (endArgument_fits h hp.1 hp.2)
  | _ => exact endInvocation_fits h

theorem endAll_fits (n : Nat) (h : s.Fits y L) : (endAll y n s).Fits y L := by
  induction n generalizing s with
  | zero => exact endChain_fits h
  | succ n ih =>
    have he := endChain_fits h
    exact ih (closeSub_fits ⟨he.frames, he.draft, he.place⟩)

end Reading

/-- What is read fits under a limit that its notes stay within. -/
theorem readChain_fits {text : List Char}
    (h : ∀ n ∈ (readChain y text).notes, n.exceeds L = false) :
    ChainFits y L 0 (readChain y text).chain := by
  have hclose : ((scan y text).close y).Within L := h
  have hsettle : ((scan y text).settle y).Within L := hclose.of_adds (endAll_adds _ _)
  have hscan : (scan y text).Within L := hsettle.of_adds (settle_adds _)
  have hstart : ({} : ScanState).Fits y L := ⟨trivial, .fresh (Nat.zero_le L), trivial⟩
  have hfits : (scan y text).Fits y L := read_fits hstart hscan
  have hend : ((scan y text).close y).Fits y L := endAll_fits _ (settle_fits hfits hsettle)
  have hdepth : ((scan y text).close y).depth = 0 := by rw [depth, close_outer]; rfl
  exact hdepth ▸ hend.draft.done

end ScanState

/-- **Every parse has a canonical shape**: if a text is parsed, then on every level of its chain
invocations have names, within sub-chains names without the characters that end them there, and
arguments have parts, of which no two texts stand side by side and the previous result stands alone;
and sub-chains nest no deeper than the limit. -/
theorem parseChain_canonical (a : Attributes) (text : String) {c : Chain}
    (h : (parseChain a text).chain = .ok c) :
    CanonicalChain a.symbols false c ∧ chainDepth c ≤ a.maxDepth := by
  obtain ⟨hn, rfl⟩ := parseChain_eq_ok_iff.mp h
  have hfits := ScanState.readChain_fits hn
  exact ⟨hfits.canonical, by simpa using hfits.depth⟩

/-- The backslash is the delimiter and ends quotes, a blank ends sub-chains, and a letter stands for
the previous result. -/
theorem parseChain_canonical_degenerate :
    let a : Attributes := {
      symbols := { delimiter := '\\', subEnd := ' ', quoteEnd := '\\', previous := 'p' },
      maxDepth := 2 }
    let c : Chain := [.call "a" [[.previous], [.text "xq"],
      [.sub [.call "b" [[.text "p", .sub [.call "c" [[.previous]], .call "d" []]]]]]]]
    (parseChain a "a p x\"q\\ [b p[c p\\d").chain = .ok c ∧
      CanonicalChain a.symbols false c ∧ chainDepth c ≤ a.maxDepth := by
  have hc : (parseChain {
      symbols := { delimiter := '\\', subEnd := ' ', quoteEnd := '\\', previous := 'p' },
      maxDepth := 2 } "a p x\"q\\ [b p[c p\\d").chain =
        .ok [.call "a" [[.previous], [.text "xq"],
          [.sub [.call "b" [[.text "p", .sub [.call "c" [[.previous]], .call "d" []]]]]]]] := by
    rfl
  exact ⟨hc, parseChain_canonical _ _ hc⟩

end ChatCommands
