import ChatCommands.Chain.Parse
import Mathlib.Data.List.Induction

/-!
# How many invocations a text has

Every invocation of a chain has a name, and the first character of a name is read for it alone. So a
chain has no more invocations than its text has characters, those of sub-chains included. The proof
is a potential of the reader: the invocations of everything that it keeps, and one more for every
name that has begun. A character raises it by one at most, and nothing that ends raises it.

## Main definitions

* `chainCalls`, `argumentCalls`: the invocations of a chain, of an argument
* `ScanState.calls`: the invocations of what the reader keeps

## Main results

* `ScanState.step_calls`: a character begins one name at most
* `parseChain_calls_le`: a chain has no more invocations than its text has characters
-/

namespace ChatCommands

mutual

/-- The invocations of a chain, those of sub-chains included. -/
def chainCalls : Chain → Nat
  | [] => 0
  | .call _ arguments :: rest => argumentsCalls arguments + 1 + chainCalls rest

/-- The invocations in arguments. -/
def argumentsCalls : List (List Part) → Nat
  | [] => 0
  | a :: as => argumentCalls a + argumentsCalls as

/-- The invocations in an argument. -/
def argumentCalls : List Part → Nat
  | [] => 0
  | .sub chain :: ps => chainCalls chain + argumentCalls ps
  | .text _ :: ps => argumentCalls ps
  | .previous :: ps => argumentCalls ps

end

variable {y : Symbols}

theorem chainCalls_append (b c : Chain) : chainCalls (b ++ c) = chainCalls b + chainCalls c := by
  induction b with
  | nil => simp [chainCalls]
  | cons i b ih =>
    obtain ⟨name, arguments⟩ := i
    simp only [List.cons_append, chainCalls, ih]
    omega

theorem argumentsCalls_append (as bs : List Argument) :
    argumentsCalls (as ++ bs) = argumentsCalls as + argumentsCalls bs := by
  induction as with
  | nil => simp [argumentsCalls]
  | cons a as ih =>
    simp only [List.cons_append, argumentsCalls, ih]
    omega

/-! ## Pieces -/

/-- The invocations in pieces. -/
def piecesCalls : List Piece → Nat
  | [] => 0
  | .sub chain :: ps => chainCalls chain + piecesCalls ps
  | .plain _ :: ps => piecesCalls ps
  | .literal _ :: ps => piecesCalls ps

@[simp] theorem piecesCalls_concat_plain (ps : List Piece) (s : List Char) :
    piecesCalls (ps ++ [.plain s]) = piecesCalls ps := by
  induction ps with
  | nil => rfl
  | cons p ps ih => cases p <;> simp [piecesCalls, ih]

@[simp] theorem piecesCalls_concat_literal (ps : List Piece) (s : List Char) :
    piecesCalls (ps ++ [.literal s]) = piecesCalls ps := by
  induction ps with
  | nil => rfl
  | cons p ps ih => cases p <;> simp [piecesCalls, ih]

@[simp] theorem piecesCalls_concat_sub (ps : List Piece) (c : Chain) :
    piecesCalls (ps ++ [.sub c]) = piecesCalls ps + chainCalls c := by
  induction ps with
  | nil => simp [piecesCalls]
  | cons p ps ih => cases p <;> simp [piecesCalls, ih, Nat.add_assoc]

theorem argumentCalls_joinText (s : List Char) (ps : List Part) :
    argumentCalls (joinText s ps) = argumentCalls ps := by
  rcases ps with - | ⟨(t | - | c), ps⟩ <;> simp [joinText, argumentCalls]

theorem argumentCalls_partsOf (ps : List Piece) : argumentCalls (partsOf ps) = piecesCalls ps := by
  induction ps with
  | nil => simp [partsOf, argumentCalls, piecesCalls]
  | cons p ps ih =>
    cases p with
    | plain s => simp [partsOf, argumentCalls_joinText, ih, piecesCalls]
    | literal s => simp [partsOf, argumentCalls_joinText, ih, piecesCalls]
    | sub c => simp [partsOf, argumentCalls, ih, piecesCalls]

theorem argumentCalls_le (y : Symbols) (ps : List Piece) :
    argumentCalls (argumentOf y ps) ≤ piecesCalls ps := by
  unfold argumentOf
  split
  · simp [argumentCalls]
  · exact Nat.le_of_eq (argumentCalls_partsOf ps)

/-! ## The reader -/

/-- The invocations of a draft; a name that has begun will be one. -/
def Draft.calls (d : Draft) : Nat :=
  chainCalls d.done + argumentsCalls d.arguments + if d.name.isEmpty then 0 else 1

/-- The invocations of what is being read at a place of a draft. A backslash that is pending in a
name may be what the name begins with. -/
def Place.calls (d : Draft) : Place → Nat
  | .nameEscape => if d.name.isEmpty then 1 else 0
  | .argument pieces => piecesCalls pieces
  | .argumentEscape pieces => piecesCalls pieces
  | .quotes pieces _ => piecesCalls pieces
  | .quotesEscape pieces _ => piecesCalls pieces
  | _ => 0

namespace ScanState

/-- The invocations of the drafts around the innermost chain. -/
def outerCalls (s : ScanState) : Nat :=
  s.outer.foldr (fun x n => x.1.calls + piecesCalls x.2 + n) 0

/-- The invocations of all drafts. -/
def draftCalls (s : ScanState) : Nat := s.outerCalls + s.draft.calls

/-- The invocations of what the reader keeps. -/
def calls (s : ScanState) : Nat := s.draftCalls + s.place.calls s.draft

variable (s : ScanState) (pieces : List Piece) (c : Char)

theorem endInvocation_calls : s.endInvocation.calls ≤ s.draftCalls := by
  unfold endInvocation
  dsimp only
  split
  · -- What has no name is dropped with its arguments.
    split <;>
      simp [calls, draftCalls, outerCalls, note, Draft.calls, Place.calls, argumentsCalls] <;>
      omega
  next hname =>
    simp [calls, draftCalls, outerCalls, Draft.calls, Place.calls, chainCalls_append, chainCalls,
      argumentsCalls, hname]
    omega

theorem closeSub_calls : s.closeSub.calls ≤ s.calls := by
  unfold closeSub
  split
  · exact Nat.le_refl _
  next d pieces outer h =>
    simp [calls, draftCalls, outerCalls, Draft.calls, Place.calls, h]
    omega

theorem openSub_calls : (s.openSub pieces).calls = s.draftCalls + piecesCalls pieces := by
  simp [openSub, calls, draftCalls, outerCalls, Draft.calls, Place.calls, chainCalls,
    argumentsCalls]
  omega

theorem endArgument_calls :
    (s.endArgument y pieces).draftCalls ≤ s.draftCalls + piecesCalls pieces := by
  have h := argumentCalls_le y pieces
  simp [endArgument, draftCalls, outerCalls, Draft.calls, Draft.addArgument, argumentsCalls_append,
    argumentsCalls]
  omega

theorem readEnd_calls : (s.readEnd y c).calls ≤ s.draftCalls := by
  have h := s.endInvocation_calls
  unfold readEnd
  dsimp only
  split
  · exact h
  · exact Nat.le_trans (closeSub_calls _) h

theorem readMarked_calls : (s.readMarked y pieces c).calls ≤ s.draftCalls + piecesCalls pieces := by
  unfold readMarked
  split
  · exact Nat.le_refl _
  · split
    · exact Nat.le_of_eq (s.openSub_calls pieces)
    · simp [calls, draftCalls, outerCalls, Place.calls]

theorem readArgument_calls :
    (s.readArgument y pieces c).calls ≤ s.draftCalls + piecesCalls pieces := by
  unfold readArgument
  split
  · exact s.endArgument_calls pieces
  · split
    · exact Nat.le_trans (readEnd_calls _ c) (s.endArgument_calls pieces)
    · split
      · exact Nat.le_refl _
      · exact s.readMarked_calls pieces c

theorem readBetween_calls : (s.readBetween y c).calls ≤ s.draftCalls := by
  unfold readBetween
  split
  · exact Nat.le_refl _
  · split
    · exact s.readEnd_calls c
    · exact s.readArgument_calls [] c

theorem readGap_calls : (s.readGap y c).calls ≤ s.draftCalls := by
  unfold readGap
  split
  · exact Nat.le_refl _
  · split
    · exact Nat.le_refl _
    · exact s.readBetween_calls c

/-- Only here a name may begin. -/
theorem readName_calls : (s.readName y c).calls ≤ s.draftCalls + 1 := by
  unfold readName
  split
  · exact Nat.le_succ _
  · split
    · exact Nat.le_succ _
    · split
      · exact Nat.le_trans (s.readBetween_calls c) (Nat.le_succ _)
      · split
        · simp only [calls, draftCalls, outerCalls, Place.calls]
          split <;> omega
        · simp [calls, draftCalls, outerCalls, Draft.calls, Place.calls]
          omega

theorem readQuotes_calls (text : List Char) :
    (s.readQuotes y pieces text c).calls ≤ s.draftCalls + piecesCalls pieces := by
  unfold readQuotes
  split
  · exact Nat.le_refl _
  · split
    · simp [calls, draftCalls, outerCalls, Place.calls]
    · exact Nat.le_refl _

/-- **A character** begins one name at most. -/
theorem step_calls : (s.step y c).calls ≤ s.calls + 1 := by
  unfold step
  split
  next h =>
    split
    · exact Nat.le_succ _
    · exact Nat.le_trans (s.readName_calls c) (by simp [calls])
  next h => exact Nat.le_trans (s.readName_calls c) (by simp [calls])
  next h =>
    -- The name that the backslash has begun is counted already.
    simp only [calls, draftCalls, outerCalls, Draft.calls, Place.calls, h]
    simp
    omega
  next h => exact Nat.le_trans (s.readGap_calls c) (by simp [calls]; omega)
  next h => exact Nat.le_trans (s.readBetween_calls c) (by simp [calls]; omega)
  next pieces h =>
    refine Nat.le_trans (s.readArgument_calls pieces c) ?_
    simp [calls, Place.calls, h]
  next pieces h =>
    simp [calls, draftCalls, outerCalls, Place.calls, h]
  next pieces text h =>
    refine Nat.le_trans (s.readQuotes_calls pieces c text) ?_
    simp [calls, Place.calls, h]
  next pieces text h =>
    have hcalls : s.calls = s.draftCalls + piecesCalls pieces := by
      simp [calls, Place.calls, h]
    split
    · rw [hcalls]
      exact Nat.le_succ _
    · split
      · refine Nat.le_trans (s.readArgument_calls _ c) ?_
        rw [hcalls, piecesCalls_concat_literal]
        exact Nat.le_succ _
      · refine Nat.le_trans (s.readQuotes_calls pieces c _) ?_
        rw [hcalls]
        exact Nat.le_succ _

/-- What the reader keeps of a text. -/
theorem scan_calls (text : List Char) : (scan y text).calls ≤ text.length := by
  -- Induction on the text read so far, of which the last character was read last.
  induction text using List.reverseRecOn with
  | nil => simp [scan, calls, draftCalls, outerCalls, Draft.calls, Place.calls, chainCalls,
      argumentsCalls]
  | append_singleton text c ih =>
    have h := step_calls (y := y) (scan y text) c
    rw [scan, List.foldl_append, List.length_append]
    exact Nat.le_trans h (Nat.succ_le_succ ih)

/-! ## The end of the text -/

theorem settle_calls : (s.settle y).calls ≤ s.calls := by
  unfold settle
  split
  next h =>
    simp [calls, draftCalls, outerCalls, Draft.calls, Place.calls, h]
    split <;> omega
  next pieces h =>
    refine Nat.le_trans (s.readMarked_calls pieces '\\') ?_
    simp [calls, Place.calls, h]
  next pieces text h =>
    split <;> simp [calls, draftCalls, outerCalls, Place.calls, h]
  · exact Nat.le_refl _

theorem endChain_calls : (s.endChain y).calls ≤ s.calls := by
  unfold endChain
  split
  next pieces text h =>
    refine Nat.le_trans (endInvocation_calls _) (Nat.le_trans (endArgument_calls _ _) ?_)
    simp [calls, draftCalls, outerCalls, note, Place.calls, h]
  next pieces h =>
    refine Nat.le_trans (endInvocation_calls _) (Nat.le_trans (s.endArgument_calls pieces) ?_)
    simp [calls, Place.calls, h]
  · exact Nat.le_trans s.endInvocation_calls (Nat.le_add_right _ _)

theorem note_calls (n : Note) : (s.note n).calls = s.calls := rfl

theorem endAll_calls (n : Nat) : (endAll y n s).calls ≤ s.calls := by
  induction n generalizing s with
  | zero => exact s.endChain_calls
  | succ n ih =>
    refine Nat.le_trans (ih _) (Nat.le_trans (closeSub_calls _) ?_)
    rw [note_calls]
    exact s.endChain_calls

theorem close_calls : (s.close y).calls ≤ s.calls :=
  Nat.le_trans (endAll_calls _ _) s.settle_calls

end ScanState

/-- **A chain has no more invocations than its text has characters.** -/
theorem parseChain_calls_le {a : Attributes} {text : String} {c : Chain}
    (h : (parseChain a text).chain = .ok c) : chainCalls c ≤ text.length := by
  have hc : c = (readChain a.symbols text.toList).chain := by
    simp only [parseChain, Reading.within, Parsed.within] at h
    split at h
    · cases h
    · exact (Except.ok.inj h).symm
  subst hc
  have hread := Nat.le_trans ((scan a.symbols text.toList).close_calls (y := a.symbols))
    (ScanState.scan_calls text.toList)
  rw [String.length_toList] at hread
  refine Nat.le_trans ?_ hread
  simp only [readChain, ScanState.calls, ScanState.draftCalls, Draft.calls]
  omega

end ChatCommands
