import ChatCommands.Proofs.Chain.Notes
import Mathlib.Data.List.Induction

/-!
# The wording of a chain

What a chain says is found in its text. The names and texts of a chain, one after another as they
stand in the tree and with sub-chains in their places, are what is left of the text if some of its
characters are left out: nothing is said that was not written, and nothing is put in another place.
This holds for any symbols.

The proof is an invariant of the reader. All that it keeps has a wording, that of the drafts around
the innermost chain first, and what is read up to a backslash that is pending last. A character adds
itself to this wording, or nothing. One thing has to be known besides: a name grows only as long as
no argument stands behind it.

## Main definitions

* `chainWording`, `argumentWording`: the names and texts of a chain, of an argument, in their order
* `ScanState.wording`: the wording of what the reader keeps
* `ScanState.NamesFirst`: no argument stands behind a name that grows

## Main results

* `ScanState.step_wording`: a character adds itself to the wording at most
* `parseChain_wording`: the wording of a chain is a subsequence of its text
-/

namespace ChatCommands

open scoped List

mutual

/-- The names and texts of a chain in their order, those of sub-chains in their places. -/
def chainWording : Chain → List Char
  | [] => []
  | .call name arguments :: rest => name.toList ++ argumentsWording arguments ++ chainWording rest

/-- The names and texts in arguments. -/
def argumentsWording : List (List Part) → List Char
  | [] => []
  | a :: as => argumentWording a ++ argumentsWording as

/-- The names and texts in an argument. The previous result has no text of its own. -/
def argumentWording : List Part → List Char
  | [] => []
  | .text s :: ps => s.toList ++ argumentWording ps
  | .sub chain :: ps => chainWording chain ++ argumentWording ps
  | .previous :: ps => argumentWording ps

end

variable {y : Symbols}

theorem chainWording_append (b c : Chain) :
    chainWording (b ++ c) = chainWording b ++ chainWording c := by
  induction b with
  | nil => simp [chainWording]
  | cons i b ih =>
    obtain ⟨name, arguments⟩ := i
    simp only [List.cons_append, chainWording, ih, List.append_assoc]

theorem argumentsWording_append (as bs : List Argument) :
    argumentsWording (as ++ bs) = argumentsWording as ++ argumentsWording bs := by
  induction as with
  | nil => simp [argumentsWording]
  | cons a as ih => simp only [List.cons_append, argumentsWording, ih, List.append_assoc]

/-! ## Pieces -/

/-- The names and texts in a piece of an argument. -/
def Piece.wording : Piece → List Char
  | .plain s => s
  | .literal s => s
  | .sub chain => chainWording chain

/-- The names and texts in pieces. -/
def piecesWording (ps : List Piece) : List Char := ps.flatMap Piece.wording

theorem piecesWording_cons (p : Piece) (ps : List Piece) :
    piecesWording (p :: ps) = p.wording ++ piecesWording ps := List.flatMap_cons

theorem piecesWording_concat (ps : List Piece) (p : Piece) :
    piecesWording (ps ++ [p]) = piecesWording ps ++ p.wording := by
  rw [piecesWording, List.flatMap_append, List.flatMap_singleton, piecesWording]

theorem argumentWording_joinText (s : List Char) (ps : List Part) :
    argumentWording (joinText s ps) = s ++ argumentWording ps := by
  rcases ps with - | ⟨(t | - | c), ps⟩ <;> simp [joinText, argumentWording]

theorem argumentWording_partsOf (ps : List Piece) :
    argumentWording (partsOf ps) = piecesWording ps := by
  induction ps with
  | nil => simp [partsOf, argumentWording, piecesWording]
  | cons p ps ih =>
    rw [piecesWording_cons, ← ih]
    cases p with
    | plain s => exact argumentWording_joinText s _
    | literal s => exact argumentWording_joinText s _
    | sub c => rw [partsOf, argumentWording, Piece.wording]

/-- An argument says what its pieces say, or nothing if it stands for the previous result. -/
theorem argumentOf_wording (y : Symbols) (ps : List Piece) :
    argumentWording (argumentOf y ps) <+ piecesWording ps := by
  unfold argumentOf
  split
  · rw [argumentWording, argumentWording]
    apply List.nil_sublist
  · exact argumentWording_partsOf ps ▸ List.Sublist.refl _

/-! ## What the reader keeps -/

/-- The wording of a draft: the invocations that are complete, then the one that is being read. -/
def Draft.wording (d : Draft) : List Char :=
  chainWording d.done ++ (d.name ++ argumentsWording d.arguments)

/-- The wording of what is being read at a place. A backslash that is pending may be text. -/
def Place.wording : Place → List Char
  | .nameEscape => ['\\']
  | .argument pieces => piecesWording pieces
  | .argumentEscape pieces => piecesWording pieces ++ ['\\']
  | .quotes pieces text => piecesWording pieces ++ text
  | .quotesEscape pieces text => piecesWording pieces ++ (text ++ ['\\'])
  | _ => []

/-- The wording of the drafts around a chain, of which the outermost stands first in the text. -/
def outerWording : List (Draft × List Piece) → List Char
  | [] => []
  | (d, pieces) :: outer => outerWording outer ++ (d.wording ++ piecesWording pieces)

namespace ScanState

/-- The wording of all drafts. -/
def drafted (s : ScanState) : List Char := outerWording s.outer ++ s.draft.wording

/-- The wording of what the reader keeps. -/
def wording (s : ScanState) : List Char := s.drafted ++ s.place.wording

variable (s : ScanState) (pieces : List Piece) (c : Char)

theorem drafted_sublist : s.drafted <+ s.wording := List.sublist_append_left _ _

/-- An invocation keeps its wording where it ends, unless it has no name. -/
theorem endInvocation_wording : s.endInvocation.wording <+ s.drafted := by
  obtain ⟨o, ⟨done, name, arguments⟩, place, notes⟩ := s
  -- What has no name is dropped with its arguments.
  have hdrop : outerWording o ++ Draft.wording { done := done } ++ [] <+
      outerWording o ++ Draft.wording ⟨done, name, arguments⟩ := by
    simp [Draft.wording, argumentsWording]
  unfold endInvocation
  dsimp only
  split
  · split
    · exact hdrop
    · exact hdrop
  · simp [wording, drafted, Place.wording, Draft.wording, chainWording_append, chainWording,
      argumentsWording]

/-- A sub-chain keeps its complete invocations where it ends, behind the argument around it. -/
theorem closeSub_wording : s.closeSub.wording <+ s.wording := by
  obtain ⟨o, draft, place, notes⟩ := s
  cases o with
  | nil => exact List.Sublist.refl _
  | cons f o =>
    obtain ⟨d, pieces⟩ := f
    have hdone : chainWording draft.done <+ draft.wording := List.sublist_append_left _ _
    have hkept := hdone.trans (List.sublist_append_left _ place.wording)
    simpa [closeSub, wording, drafted, outerWording, Place.wording, piecesWording_concat,
      Piece.wording] using hkept

theorem openSub_wording : (s.openSub pieces).wording = s.drafted ++ piecesWording pieces := by
  simp [openSub, wording, drafted, outerWording, Place.wording, Draft.wording, chainWording,
    argumentsWording]

theorem endArgument_wording :
    (s.endArgument y pieces).wording <+ s.drafted ++ piecesWording pieces := by
  simpa [endArgument, wording, drafted, Place.wording, Draft.wording, Draft.addArgument,
    argumentsWording_append, argumentsWording] using argumentOf_wording y pieces

/-! ### Reading a character -/

theorem readEnd_wording : (s.readEnd y c).wording <+ s.drafted := by
  have hend := s.endInvocation_wording
  unfold readEnd
  dsimp only
  split
  · exact hend
  · exact (closeSub_wording _).trans hend

theorem readMarked_wording :
    (s.readMarked y pieces c).wording <+ s.drafted ++ (piecesWording pieces ++ [c]) := by
  unfold readMarked
  split
  · simp [wording, drafted, Place.wording]
  · split
    · rw [openSub_wording]
      simp
    · simp [wording, drafted, Place.wording, piecesWording_concat, Piece.wording]

theorem readArgument_wording :
    (s.readArgument y pieces c).wording <+ s.drafted ++ (piecesWording pieces ++ [c]) := by
  have hend : (s.endArgument y pieces).wording <+ s.drafted ++ (piecesWording pieces ++ [c]) := by
    apply (s.endArgument_wording pieces).trans
    simp
  unfold readArgument
  split
  · exact hend
  · split
    · -- The argument ends, and the invocation with it.
      exact ((readEnd_wording _ c).trans (drafted_sublist _)).trans hend
    · split
      next hescape =>
        -- The character is the backslash that is pending now.
        obtain rfl : c = '\\' := (by simpa [escapes] using hescape : _ ∧ c = '\\').2
        apply List.Sublist.refl
      · exact s.readMarked_wording pieces c

theorem readBetween_wording : (s.readBetween y c).wording <+ s.drafted ++ [c] := by
  unfold readBetween
  split
  · simp [wording, drafted, Place.wording]
  · split
    · exact (s.readEnd_wording c).trans (List.sublist_append_left _ _)
    · exact s.readArgument_wording [] c

theorem readGap_wording : (s.readGap y c).wording <+ s.drafted ++ [c] := by
  unfold readGap
  split
  · simp [wording, drafted, Place.wording]
  · split
    · simp [wording, drafted, Place.wording]
    · exact s.readBetween_wording c

theorem readQuotes_wording (text : List Char) :
    (s.readQuotes y pieces text c).wording <+
      s.drafted ++ (piecesWording pieces ++ (text ++ [c])) := by
  unfold readQuotes
  split
  next hescape =>
    subst hescape
    apply List.Sublist.refl
  · split
    · simp [wording, drafted, Place.wording, piecesWording_concat, Piece.wording]
    · apply List.Sublist.refl

/-! ### Names -/

/-- No argument stands behind a name that can still grow. -/
def NamesFirst (s : ScanState) : Prop :=
  match s.place with
  | .lead | .name | .nameEscape => s.draft.arguments = []
  | _ => True

variable {s}

/-- One more character in a name stands behind all that was read. -/
theorem wording_addName (h : s.draft.arguments = []) :
    wording { s with draft := { s.draft with name := s.draft.name ++ [c] }, place := .name } =
      s.drafted ++ [c] := by
  simp [wording, drafted, Draft.wording, Place.wording, h, argumentsWording]

theorem readName_wording (h : s.draft.arguments = []) :
    (s.readName y c).wording <+ s.drafted ++ [c] := by
  unfold readName
  split
  · simp [wording, drafted, Place.wording]
  · split
    · simp [wording, drafted, Place.wording]
    · split
      · exact s.readBetween_wording c
      · split
        next hescape =>
          obtain rfl : c = '\\' := (by simpa [escapes] using hescape : _ ∧ c = '\\').2
          apply List.Sublist.refl
        · exact wording_addName c h ▸ List.Sublist.refl _

/-- **A character** adds itself to the wording at most. -/
theorem step_wording (h : s.NamesFirst) : (s.step y c).wording <+ s.wording ++ [c] := by
  obtain ⟨o, draft, place, notes⟩ := s
  -- What a place keeps is part of the wording, and the character comes behind it.
  cases place with
  | lead =>
    simp only [step]
    split
    · apply List.sublist_append_left
    · apply (readName_wording c h).trans
      simp [wording, Place.wording]
  | name =>
    apply (readName_wording c h).trans
    simp [wording, Place.wording]
  | nameEscape =>
    simp only [step]
    rw [wording_addName c h]
    simp [wording, drafted, Place.wording]
  | gap =>
    apply (readGap_wording _ c).trans
    simp [wording, Place.wording]
  | between =>
    apply (readBetween_wording _ c).trans
    simp [wording, Place.wording]
  | argument pieces =>
    apply (readArgument_wording _ pieces c).trans
    simp [wording, Place.wording]
  | argumentEscape pieces =>
    simp [step, wording, drafted, Place.wording, piecesWording_concat, Piece.wording]
  | quotes pieces text =>
    apply (readQuotes_wording _ pieces c text).trans
    simp [wording, Place.wording]
  | quotesEscape pieces text =>
    simp only [step]
    split
    · simp [wording, drafted, Place.wording]
    · split
      · apply (readArgument_wording _ _ c).trans
        simp [wording, drafted, Place.wording, piecesWording_concat, Piece.wording]
      · apply (readQuotes_wording _ _ c _).trans
        simp [wording, drafted, Place.wording]

theorem readEnd_namesFirst (s : ScanState) : (s.readEnd y c).NamesFirst := by
  have hend : s.endInvocation.NamesFirst := by
    unfold endInvocation
    dsimp only
    split
    · split <;> rfl
    · rfl
  unfold readEnd
  dsimp only
  split
  · exact hend
  · unfold closeSub
    split
    · exact hend
    · trivial

theorem readArgument_namesFirst (s : ScanState) (pieces : List Piece) :
    (s.readArgument y pieces c).NamesFirst := by
  unfold readArgument
  split
  · trivial
  · split
    · exact readEnd_namesFirst c _
    · split
      · trivial
      · unfold readMarked
        split
        · trivial
        · split
          · rfl
          · trivial

theorem readBetween_namesFirst (s : ScanState) : (s.readBetween y c).NamesFirst := by
  unfold readBetween
  split
  · trivial
  · split
    · exact readEnd_namesFirst c s
    · exact readArgument_namesFirst c s []

theorem readName_namesFirst (h : s.draft.arguments = []) : (s.readName y c).NamesFirst := by
  unfold readName
  split
  · trivial
  · split
    · trivial
    · split
      · exact readBetween_namesFirst c s
      · split
        · exact h
        · exact h

theorem readQuotes_namesFirst (s : ScanState) (pieces : List Piece) (text : List Char) :
    (s.readQuotes y pieces text c).NamesFirst := by
  unfold readQuotes
  split
  · trivial
  · split <;> trivial

theorem step_namesFirst (h : s.NamesFirst) : (s.step y c).NamesFirst := by
  obtain ⟨o, draft, place, notes⟩ := s
  cases place with
  | lead =>
    simp only [step]
    split
    · exact h
    · exact readName_namesFirst c h
  | name => exact readName_namesFirst c h
  | nameEscape => exact h
  | gap =>
    simp only [step, readGap]
    split
    · trivial
    · split
      · trivial
      · exact readBetween_namesFirst c _
  | between => exact readBetween_namesFirst c _
  | argument pieces => exact readArgument_namesFirst c _ pieces
  | argumentEscape pieces => trivial
  | quotes pieces text => exact readQuotes_namesFirst c _ pieces text
  | quotesEscape pieces text =>
    simp only [step]
    split
    · trivial
    · split
      · exact readArgument_namesFirst c _ _
      · exact readQuotes_namesFirst c _ _ _

/-- **What the reader keeps of a text** is worded as in the text. -/
theorem scan_wording (text : List Char) :
    (scan y text).NamesFirst ∧ (scan y text).wording <+ text := by
  -- Induction on the text read so far, of which the last character was read last.
  induction text using List.reverseRecOn with
  | nil => exact ⟨rfl, by simp [scan, wording, drafted, outerWording, Draft.wording, Place.wording,
      chainWording, argumentsWording]⟩
  | append_singleton text c ih =>
    obtain ⟨hnames, hword⟩ := ih
    rw [scan, List.foldl_append]
    refine ⟨step_namesFirst c hnames, (step_wording c hnames).trans ?_⟩
    apply hword.append_right

/-! ## The end of the text -/

theorem settle_wording (h : s.NamesFirst) : (s.settle y).wording <+ s.wording := by
  obtain ⟨o, draft, place, notes⟩ := s
  cases place with
  | nameEscape =>
    simp only [settle]
    rw [wording_addName _ h]
    apply List.Sublist.refl
  | argumentEscape pieces =>
    apply (readMarked_wording _ pieces _).trans
    apply List.Sublist.refl
  | quotesEscape pieces text =>
    simp only [settle]
    split
    · simp [wording, drafted, Place.wording, piecesWording_concat, Piece.wording]
    · apply List.Sublist.refl
  | _ => apply List.Sublist.refl

theorem endChain_wording (s : ScanState) : (s.endChain y).wording <+ s.wording := by
  obtain ⟨o, draft, place, notes⟩ := s
  have hargument (pieces : List Piece) (notes : List Note) :
      (endInvocation (endArgument y ⟨o, draft, place, notes⟩ pieces)).wording <+
        drafted ⟨o, draft, place, notes⟩ ++ piecesWording pieces :=
    ((endInvocation_wording _).trans (drafted_sublist _)).trans (endArgument_wording _ pieces)
  cases place with
  | quotes pieces text =>
    apply (hargument _ _).trans
    simp [wording, drafted, Place.wording, piecesWording_concat, Piece.wording]
  | argument pieces => exact hargument pieces notes
  | _ => exact (endInvocation_wording _).trans (drafted_sublist _)

theorem endAll_wording (n : Nat) (s : ScanState) : (endAll y n s).wording <+ s.wording := by
  induction n generalizing s with
  | zero => exact endChain_wording s
  | succ n ih => exact ((ih _).trans (closeSub_wording _)).trans (endChain_wording s)

theorem close_wording (h : s.NamesFirst) : (s.close y).wording <+ s.wording :=
  (endAll_wording _ _).trans (settle_wording h)

end ScanState

/-- **A chain says nothing that was not written, and in the order in which it was written**: the
names and texts of what is parsed, one after another, are a subsequence of the text. So they are no
longer than the text. -/
theorem parseChain_wording (a : Attributes) (text : String) {c : Chain}
    (h : (parseChain a text).chain = .ok c) :
    chainWording c <+ text.toList ∧ (chainWording c).length ≤ text.length := by
  obtain ⟨-, rfl⟩ := parseChain_eq_ok_iff.mp h
  obtain ⟨hnames, hword⟩ := ScanState.scan_wording (y := a.symbols) text.toList
  have hdone : chainWording (readChain a.symbols text.toList).chain <+
      ((scan a.symbols text.toList).close a.symbols).wording := by
    -- At the end no sub-chain is open, and what is complete stands first.
    simp only [readChain, ScanState.wording, ScanState.drafted, ScanState.close_outer,
      outerWording, Draft.wording, List.nil_append, List.append_assoc]
    apply List.sublist_append_left
  have hwritten := (hdone.trans (ScanState.close_wording hnames)).trans hword
  exact ⟨hwritten, hwritten.length_le.trans_eq text.length_toList⟩

/-- The backslash is the delimiter and ends quotes, and a letter stands for the previous result,
which has no text where it stands alone. The last sub-chain has no name before it and is dropped. -/
theorem parseChain_wording_coinciding :
    let a : Attributes := {
      symbols := { delimiter := '\\', subEnd := ';', quoteEnd := '\\', previous := 'p' },
      maxDepth := 3 }
    let text := "a:p x\"q\\ [b p;[c\\[d;e"
    ∃ c, (parseChain a text).chain = .ok c ∧ chainWording c = "axqbc".toList ∧
      chainWording c <+ text.toList ∧ (chainWording c).length ≤ text.length := by
  have hc : (parseChain {
      symbols := { delimiter := '\\', subEnd := ';', quoteEnd := '\\', previous := 'p' },
      maxDepth := 3 } "a:p x\"q\\ [b p;[c\\[d;e").chain =
        .ok [.call "a" [[.previous], [.text "xq"],
          [.sub [.call "b" [[.previous]]], .sub [.call "c" []]]]] := by
    rfl
  refine ⟨_, hc, ?_, parseChain_wording _ _ hc⟩
  simp [chainWording, argumentsWording, argumentWording]

end ChatCommands
