import ChatCommands.Proofs.Chain.Joining
import Mathlib.Data.List.Induction

/-!
# How deep a text nests

Whether a text is refused is told by the notes of its reading, and these are made of sub-chains that
are opened, whatever becomes of them afterwards. So the depths that are noted are those that the
reader comes to: sub-chains that are open at once after some beginning of the text, or at its end,
where a pending backslash may open one more. No limit has a part in this, so that texts are read
alike under all limits that do not refuse them.

## Main definitions

* `ScanState.Nests`: what a character does to the sub-chains that are open
* `OpenAtOnce`: so many sub-chains of a text are open at once at some point

## Main results

* `opened_mem_notes`: the depths that are noted are those that the reader comes to
* `depth_le_count`: no more sub-chains are open than the text has characters that open one
* `parseChain_isError_iff`: a text is refused exactly if it nests deeper than the limit
* `parseChain_mono`: a text that is parsed is parsed alike under greater limits
-/

namespace ChatCommands

variable {y : Symbols}

namespace ScanState

/-- What reading does to the sub-chains that are open: it opens one more, which only one character
does and which is noted, or it opens none and may close some. -/
inductive Nests (y : Symbols) (c : Char) (s t : ScanState) : Prop where
  | opens (hc : c = y.subStart) (hd : t.depth = s.depth + 1)
      (hn : t.notes = s.notes ++ [.opened (s.depth + 1)])
  | keeps (hd : t.depth ≤ s.depth) (hn : s.Adds Note.isDropped t)

namespace Nests

variable {c : Char} {s t : ScanState}

theorem of_eq (hd : t.depth = s.depth) (hn : t.notes = s.notes) : Nests y c s t :=
  .keeps (Nat.le_of_eq hd) (.of_eq hn)

/-- Only the sub-chains and the notes of the state before count. -/
theorem of_same {r : ScanState} (h : Nests y c r t) (hd : r.depth = s.depth)
    (hn : r.notes = s.notes) : Nests y c s t := by
  cases h with
  | opens hc hd' hn' => exact .opens hc (hd ▸ hd') (hd ▸ hn ▸ hn')
  | keeps hd' hn' => exact .keeps (hd ▸ hd') (Adds.trans (.of_eq hn) hn')

/-- A sub-chain is opened one at a time. -/
theorem depth_le (h : Nests y c s t) : t.depth ≤ s.depth + if c = y.subStart then 1 else 0 := by
  cases h with
  | opens hc hd hn => rw [hd, if_pos hc]
  | keeps hd hn => exact Nat.le_add_right_of_le hd

/-- A depth that is noted has been noted before, unless it is the one that was come to. -/
theorem of_mem (h : Nests y c s t) {n : Nat} (hn : .opened n ∈ t.notes) :
    .opened n ∈ s.notes ∨ t.depth = n := by
  cases h with
  | opens hc hd hs =>
    rw [hs, List.mem_append, List.mem_singleton, Note.opened.injEq] at hn
    exact hn.imp_right fun hn => hd.trans hn.symm
  | keeps hd hs =>
    obtain ⟨l, hl, hp⟩ := hs
    rw [hl, List.mem_append] at hn
    -- A note of arguments that were dropped tells of no depth.
    have hno : .opened n ∉ l := fun hm => Bool.false_ne_true (hp _ hm)
    exact hn.imp_right fun hm => absurd hm hno

end Nests

/-- All depths up to that of the state have been noted. -/
def Told (s : ScanState) : Prop := ∀ n, 0 < n → n ≤ s.depth → .opened n ∈ s.notes

theorem Told.opens {c : Char} {s t : ScanState} (h : s.Told) (ho : Nests y c s t) : t.Told := by
  intro n hpos hn
  cases ho with
  -- Only the depth that is come to is new, and that is noted with it.
  | opens hc hd hs =>
    rw [hs, List.mem_append, List.mem_singleton, Note.opened.injEq]
    rcases Nat.lt_or_ge s.depth n with hlt | hle
    · exact .inr (by omega)
    · exact .inl (h n hpos hle)
  | keeps hd hs => exact hs.isPrefix.subset (h n hpos (hn.trans hd))

/-! ## One character -/

theorem readEnd_nests (s : ScanState) (c : Char) : Nests y c s (s.readEnd y c) := by
  refine .keeps ?_ (s.readEnd_adds c)
  simp only [readEnd]
  split
  · rw [depth, endInvocation_outer, depth]
  · rw [depth, closeSub_outer, endInvocation_outer, List.length_tail, depth]
    exact Nat.sub_le _ _

theorem readMarked_nests (s : ScanState) (ps : List Piece) (c : Char) :
    Nests y c s (s.readMarked y ps c) := by
  unfold readMarked
  split
  · exact .of_eq rfl rfl
  · split
    next hc => exact .opens hc rfl rfl
    · exact .of_eq rfl rfl

theorem readArgument_nests (s : ScanState) (ps : List Piece) (c : Char) :
    Nests y c s (s.readArgument y ps c) := by
  unfold readArgument
  split
  · exact .of_eq rfl rfl
  · split
    · -- The argument ends first, which leaves the sub-chains and the notes as they are.
      have h : Nests y c (s.endArgument y ps) _ := readEnd_nests _ c
      exact h.of_same rfl rfl
    · split
      · exact .of_eq rfl rfl
      · exact s.readMarked_nests ps c

theorem readBetween_nests (s : ScanState) (c : Char) : Nests y c s (s.readBetween y c) := by
  unfold readBetween
  split
  · exact .of_eq rfl rfl
  · split
    · exact s.readEnd_nests c
    · exact s.readArgument_nests [] c

theorem readGap_nests (s : ScanState) (c : Char) : Nests y c s (s.readGap y c) := by
  unfold readGap
  split
  · exact .of_eq rfl rfl
  · split
    · exact .of_eq rfl rfl
    · exact s.readBetween_nests c

theorem readName_nests (s : ScanState) (c : Char) : Nests y c s (s.readName y c) := by
  unfold readName
  split
  · exact .of_eq rfl rfl
  · split
    · exact .of_eq rfl rfl
    · split
      · exact s.readBetween_nests c
      · split <;> exact .of_eq rfl rfl

theorem readQuotes_nests (s : ScanState) (ps : List Piece) (t : List Char) (c : Char) :
    Nests y c s (s.readQuotes y ps t c) := by
  unfold readQuotes
  split
  · exact .of_eq rfl rfl
  · split <;> exact .of_eq rfl rfl

/-- **A character** opens at most one sub-chain. -/
theorem step_nests (s : ScanState) (c : Char) : Nests y c s (s.step y c) := by
  obtain ⟨o, d, place, n⟩ := s
  -- One case for each place that reads something; a backslash that is pending opens nothing.
  cases place with
  | lead =>
    simp only [step]
    split
    · exact .of_eq rfl rfl
    · exact readName_nests _ c
  | name => exact readName_nests _ c
  | gap => exact readGap_nests _ c
  | between => exact readBetween_nests _ c
  | argument ps => exact readArgument_nests _ ps c
  | quotes ps t => exact readQuotes_nests _ ps t c
  | quotesEscape ps t =>
    simp only [step]
    split
    · exact .of_eq rfl rfl
    · split
      · exact readArgument_nests _ _ c
      · exact readQuotes_nests _ _ _ c
  | _ => exact .of_eq rfl rfl

/-- A pending backslash opens at most one sub-chain at the end of the text. -/
theorem settle_nests (s : ScanState) : Nests y '\\' s (s.settle y) := by
  obtain ⟨o, d, place, n⟩ := s
  cases place with
  | argumentEscape ps => exact readMarked_nests _ ps _
  | quotesEscape ps t =>
    simp only [settle]
    split <;> exact .of_eq rfl rfl
  | _ => exact .of_eq rfl rfl

/-! ## A whole text -/

theorem scan_concat (text : List Char) (c : Char) :
    scan y (text ++ [c]) = (scan y text).step y c := by
  rw [scan_eq_read, read_append]
  rfl

theorem scan_told (text : List Char) : (scan y text).Told := by
  -- Induction on the text from its end: reading goes on by one character at a time.
  induction text using List.reverseRecOn with
  | nil => exact fun n hpos hn => absurd hpos (Nat.not_lt.mpr hn)
  | append_singleton text c ih =>
    rw [scan_concat]
    exact ih.opens (step_nests _ c)

/-- A depth that is noted is that behind some beginning of the text. -/
theorem scan_of_mem {text : List Char} {n : Nat} (hn : .opened n ∈ (scan y text).notes) :
    ∃ l, l <+: text ∧ (scan y l).depth = n := by
  induction text using List.reverseRecOn with
  | nil => cases hn
  | append_singleton text c ih =>
    rw [scan_concat] at hn
    rcases (step_nests _ c).of_mem hn with hn | hd
    · obtain ⟨l, hl, hd⟩ := ih hn
      exact ⟨l, hl.trans (List.prefix_append _ _), hd⟩
    · exact ⟨text ++ [c], List.prefix_refl _, by rw [scan_concat, hd]⟩

/-- What is noted behind a beginning of the text stays noted. -/
theorem scan_notes_subset {l text : List Char} (h : l <+: text) :
    (scan y l).notes ⊆ (scan y text).notes := by
  obtain ⟨u, rfl⟩ := h
  rw [scan_eq_read, scan_eq_read, read_append]
  exact (read_adds _ u).isPrefix.subset

/-- The end of the text notes no depth but the one that a pending backslash opens. -/
theorem opened_mem_close (s : ScanState) (n : Nat) :
    .opened n ∈ (s.close y).notes ↔ .opened n ∈ (s.settle y).notes := by
  obtain ⟨l, hl, hlate⟩ := endAll_adds (y := y) (s.settle y).depth (s.settle y)
  rw [close, hl, List.mem_append]
  refine ⟨fun h => h.resolve_right ?_, .inl⟩
  intro hn
  exact Bool.false_ne_true (hlate _ hn)

theorem scan_depth_le (text : List Char) : (scan y text).depth ≤ text.count y.subStart := by
  induction text using List.reverseRecOn with
  | nil => exact Nat.zero_le _
  | append_singleton text c ih =>
    have h := (step_nests (y := y) (scan y text) c).depth_le
    rw [scan_concat, List.count_append, List.count_singleton]
    simp only [beq_iff_eq]
    omega

/-- A backslash that is pending in quotes opens nothing. -/
theorem settle_depth_of_quoted {s : ScanState} (h : s.place.quoted = true) :
    (s.settle y).depth = s.depth := by
  obtain ⟨o, d, place, n⟩ := s
  cases place with
  | argumentEscape ps => cases h
  | quotesEscape ps t =>
    simp only [settle]
    split <;> rfl
  | _ => rfl

/-- **No more sub-chains are open** than the text has characters that open one. -/
theorem depth_le_count (text : List Char) :
    ((scan y text).settle y).depth ≤ text.count y.subStart := by
  cases hp : (scan y text).place.isPending with
  | false =>
    rw [settle_of_not_isPending hp]
    exact scan_depth_le text
  | true =>
    obtain ⟨hlast, ho | hq⟩ := scan_isPending hp
    · -- Outside of sub-chains the pending backslash is the only character that opens one.
      have h := (settle_nests (y := y) (scan y text)).depth_le
      rw [depth, depth, ho, List.length_nil, Nat.zero_add] at h
      refine h.trans ?_
      split
      next hc => exact List.count_pos_iff.mpr (hc ▸ List.mem_of_getLast? hlast)
      · exact Nat.zero_le _
    · rw [settle_depth_of_quoted hq]
      exact scan_depth_le text

end ScanState

/-! ## Texts under a limit -/

/-- At some point `n` sub-chains of a text are open at once: behind a beginning of it, or at its
end, where a backslash that is still pending stands for itself. Sub-chains whose invocation is
dropped afterwards count as well. -/
def OpenAtOnce (y : Symbols) (text : List Char) (n : Nat) : Prop :=
  (∃ l, l <+: text ∧ (scan y l).depth = n) ∨ ((scan y text).settle y).depth = n

open ScanState in
/-- **The depths that are noted** are those that the reader comes to. -/
theorem opened_mem_notes (text : List Char) {n : Nat} (hn : 0 < n) :
    .opened n ∈ (readChain y text).notes ↔ OpenAtOnce y text n := by
  have hs := settle_nests (y := y) (scan y text)
  rw [readChain, opened_mem_close]
  constructor
  · intro h
    exact (hs.of_mem h).imp scan_of_mem id
  · rintro (⟨l, hl, rfl⟩ | rfl)
    · have h := scan_notes_subset hl (scan_told l _ hn (Nat.le_refl _))
      exact (settle_adds _).isPrefix.subset h
    · exact (scan_told text).opens hs _ hn (Nat.le_refl _)

/-- A text is refused exactly if it nests deeper than the limit. -/
theorem parseChain_isError_iff (a : Attributes) (text : String) :
    (parseChain a text).chain = .error (tooDeep a.maxDepth) ↔
      ∃ n, a.maxDepth < n ∧ OpenAtOnce a.symbols text.toList n := by
  have hiff (n : Nat) (hn : a.maxDepth < n) :=
    opened_mem_notes (y := a.symbols) text.toList (Nat.zero_lt_of_lt hn)
  constructor
  · intro h
    simp only [parseChain, Reading.within, Parsed.within] at h
    split at h
    next hany =>
      obtain ⟨note, hmem, he⟩ := List.any_eq_true.mp hany
      cases note with
      | opened n => exact ⟨n, of_decide_eq_true he, (hiff n (of_decide_eq_true he)).mp hmem⟩
      | _ => cases he
    · cases h
  · rintro ⟨n, hn, ho⟩
    have hany : (readChain a.symbols text.toList).notes.any (Note.exceeds a.maxDepth) = true :=
      List.any_eq_true.mpr ⟨_, (hiff n hn).mpr ho, decide_eq_true hn⟩
    simp only [parseChain, Reading.within, Parsed.within, hany, if_true]

/-- A text that is parsed is parsed alike under greater limits. -/
theorem parseChain_mono {a a' : Attributes} {text : String} {c : Chain}
    (hs : a'.symbols = a.symbols) (hd : a.maxDepth ≤ a'.maxDepth)
    (h : (parseChain a text).chain = .ok c) : (parseChain a' text).chain = .ok c := by
  obtain ⟨hn, hc⟩ := parseChain_eq_ok_iff.mp h
  rw [parseChain_eq_ok_iff, hs]
  refine ⟨?_, hc⟩
  intro n hm
  cases n with
  | opened k =>
    have hk : ¬ a.maxDepth < k := of_decide_eq_false (hn _ hm)
    exact decide_eq_false (by omega)
  | _ => rfl

/-- A text with few characters that open a sub-chain is parsed. -/
theorem parseChain_of_count_le {a : Attributes} {text : String}
    (h : text.toList.count a.symbols.subStart ≤ a.maxDepth) :
    ∃ c, (parseChain a text).chain = .ok c := by
  rcases hp : (parseChain a text).chain with f | c
  · -- A refused text would have more sub-chains open at once than characters to open them.
    obtain rfl := eq_tooDeep_of_parseChain hp
    obtain ⟨n, hn, ho⟩ := (parseChain_isError_iff a text).mp hp
    have hle : n ≤ text.toList.count a.symbols.subStart := by
      rcases ho with ⟨l, hl, rfl⟩ | rfl
      · exact (ScanState.scan_depth_le l).trans (hl.sublist.count_le _)
      · exact ScanState.depth_le_count text.toList
    omega
  · exact ⟨c, rfl⟩

end ChatCommands
