import ChatCommands.Proofs.Chain.Canonical
import ChatCommands.Proofs.Chain.Joining

/-!
# Closing what a text leaves open

A text that ends within quotes or sub-chains means what it means with their ends written behind
it. The ends need not be read as such: the end of a sub-chain may be a blank, or a symbol that has
another meaning first. Then it does nothing that the end of the text would not do, and that closes
the sub-chain all the same.

No symbol may be the backslash here. One that begins a sub-chain or quotes would open them only at
the end of the text, where it is known that nothing follows it.

## Main definitions

* `ScanState.EndsLike`: two states of which the end of the text makes the same chain

## Main results

* `ScanState.EndsAs.step_subEnd_cases`: what the end of a sub-chain does where an invocation can end
* `ScanState.endsLike_quoteEnd`, `ScanState.endsLike_subEnd`: the end of quotes and the ends of
  sub-chains make no difference at the end of the text
* `parseChain_closed`: closing what is open changes nothing
-/

namespace ChatCommands

variable {y : Symbols}

namespace ScanState

variable {s t u : ScanState} {o : List (Draft × List Piece)} {d : Draft} {q : Place}
  {n : List Note}

/-! ## The chain does not depend on the notes -/

theorem after_nil (ns : List Note) (s : ScanState) :
    s.after [] ns = { s with notes := ns ++ s.notes } := by
  have hd (d : Draft) : d.after [] = d := rfl
  have hf (o : List (Draft × List Piece)) : framesAfter [] o = o := by
    induction o with
    | nil => rfl
    | cons f o ih => cases o <;> simp_all [framesAfter]
  cases ho : s.outer <;> simp [after, draftAfter, hd, hf, ho]

/-- Ending the chains in which a text ends does not look at the notes. -/
theorem endAll_draft (k : Nat) (o : List (Draft × List Piece)) (d : Draft) (q : Place)
    (n m : List Note) : (endAll y k ⟨o, d, q, n⟩).draft = (endAll y k ⟨o, d, q, m⟩).draft := by
  have h (ns : List Note) :
      (endAll y k ⟨o, d, q, ns⟩).draft = (endAll y k ⟨o, d, q, []⟩).draft := by
    have ha := endAll_after (y := y) [] ns ⟨o, d, q, []⟩ k
    rw [after_nil, after_nil] at ha
    simpa using congrArg draft ha
  rw [h n, h m]

/-- The end of the text begins with the end of the innermost chain. -/
theorem endAll_congr (h : s.endChain y = t.endChain y) (k : Nat) :
    endAll y k s = endAll y k t := by
  cases k with
  | zero => exact h
  | succ k => rw [endAll, endAll, h]

/-- The end of the text makes the same of states of which the end of an invocation does. -/
theorem EndsAs.close_eq (h : EndsAs y s u) (h' : EndsAs y t u) : s.close y = t.close y := by
  rw [ScanState.close, ScanState.close, h.settle, h'.settle, h.depth, h'.depth]
  exact endAll_congr (h.endChain.trans h'.endChain.symm) u.depth

/-! ## Ends that make no difference -/

/-- The end of the text makes the same chain of two states, and goes beyond a limit with neither of
them if it does not with the first. -/
structure EndsLike (y : Symbols) (s t : ScanState) : Prop where
  draft : (s.close y).draft = (t.close y).draft
  within : ∀ limit, (s.close y).Within limit → (t.close y).Within limit

namespace EndsLike

theorem refl (s : ScanState) : EndsLike y s s := ⟨rfl, fun _ => id⟩

theorem of_eq (h : s.close y = t.close y) : EndsLike y s t :=
  ⟨congrArg ScanState.draft h, fun _ hs => h ▸ hs⟩

theorem trans (h : EndsLike y s t) (h' : EndsLike y t u) : EndsLike y s u :=
  ⟨h.draft.trans h'.draft, fun limit hs => h'.within limit (h.within limit hs)⟩

end EndsLike

/-- At the end of the text nothing goes beyond the limit that has not done so before. -/
theorem close_within_iff (hs : s.settle y = s) {limit : Nat} :
    (s.close y).Within limit ↔ s.Within limit := by
  rw [close, hs]
  exact ⟨fun h => h.of_adds (endAll_adds _ s), fun h => h.adds_late (endAll_adds _ s)⟩

/-- **The end of quotes**: the text may as well end without it. -/
theorem endsLike_quoteEnd (hq : y.quoteEnd ≠ '\\') (h : s.place.isQuotes = true) :
    EndsLike y s (s.step y y.quoteEnd) ∧ (s.step y y.quoteEnd).place.isOpen ∧
      (s.step y y.quoteEnd).outer = s.outer := by
  obtain ⟨o, d, place, n⟩ := s
  cases place with
  | quotes p text =>
    have hstep : step y ⟨o, d, .quotes p text, n⟩ y.quoteEnd =
        ⟨o, d, .argument (p ++ [.literal text]), n⟩ := by
      simp only [step, readQuotes, if_neg hq, if_pos]
    -- Both end the same argument, so that but for the note they end alike from there.
    have hall (k : Nat) : endAll y k ⟨o, d, .quotes p text, n⟩ =
        endAll y k ⟨o, d, .argument (p ++ [.literal text]), n ++ [.quoteUnterminated]⟩ :=
      endAll_congr (by rfl) k
    rw [hstep]
    refine ⟨⟨?_, ?_⟩, rfl, rfl⟩
    · have hd := congrArg draft (hall o.length)
      exact hd.trans (endAll_draft ..)
    · intro limit hw
      rw [close_within_iff rfl] at hw ⊢
      exact hw
  | _ => cases h

/-- Where the reader stands is of no account for the end of the invocation. -/
theorem endInvocation_moved (o : List (Draft × List Piece)) (d : Draft) (q q' : Place)
    (n : List Note) : endInvocation ⟨o, d, q, n⟩ = endInvocation ⟨o, d, q', n⟩ := by
  obtain ⟨done, name, as⟩ := d
  cases name <;> cases as <;> rfl

theorem endsAs_gap (q : Place) : EndsAs y ⟨o, d, .gap, n⟩ (endInvocation ⟨o, d, q, n⟩) :=
  ⟨rfl, endInvocation_moved ..⟩

theorem endsAs_between (q : Place) : EndsAs y ⟨o, d, .between, n⟩ (endInvocation ⟨o, d, q, n⟩) :=
  ⟨rfl, endInvocation_moved ..⟩

/-- An invocation that has ended does not end again. -/
theorem endsAs_endInvocation (s : ScanState) : EndsAs y s.endInvocation s.endInvocation where
  isOpen := by rw [endInvocation_place]; rfl
  eq := by
    obtain ⟨o, ⟨done, name, as⟩, place, n⟩ := s
    cases name <;> cases as <;> rfl

/-- A blank leaves it to what follows to end the invocation. -/
theorem EndsAs.step_blank {c : Char} (h : EndsAs y s u) (hb : blank c = true) :
    EndsAs y (s.step y c) u := by
  obtain ⟨o, d, place, n⟩ := s
  obtain ⟨hp, rfl⟩ := h
  cases place with
  | lead =>
    simp only [ScanState.step, hb, reduceIte]
    exact ⟨rfl, rfl⟩
  | name =>
    simp only [ScanState.step, readName, hb, reduceIte]
    exact endsAs_gap .name
  | gap =>
    simp only [ScanState.step, readGap, hb, reduceIte]
    exact endsAs_gap .gap
  | between =>
    simp only [ScanState.step, readBetween, hb, reduceIte]
    exact endsAs_between .between
  | argument p =>
    simp only [ScanState.step, readArgument, hb, reduceIte]
    exact ⟨rfl, rfl⟩
  | _ => cases hp

/-- The delimiter of arguments ends nothing up to the name. Behind it, it ends the invocation if it
is a symbol that does. -/
theorem EndsAs.step_argsDelimiter (h : EndsAs y s u) (hb : blank y.argsDelimiter = false)
    (he : s.ends y y.argsDelimiter = true) :
    EndsAs y (s.step y y.argsDelimiter) u ∨
      s.step y y.argsDelimiter = if y.argsDelimiter = y.delimiter then u else u.closeSub := by
  obtain ⟨o, d, place, n⟩ := s
  obtain ⟨hp, rfl⟩ := h
  cases place with
  | lead =>
    simp only [ScanState.step, readName, hb, Bool.false_eq_true, reduceIte]
    exact .inl (endsAs_between .lead)
  | name =>
    simp only [ScanState.step, readName, hb, Bool.false_eq_true, reduceIte]
    exact .inl (endsAs_between .name)
  | gap =>
    simp only [ScanState.step, readGap, hb, Bool.false_eq_true, reduceIte]
    exact .inl (endsAs_between .gap)
  | between =>
    simp only [ScanState.step, readBetween, hb, he, Bool.false_eq_true, reduceIte]
    exact .inr rfl
  | argument p =>
    simp only [ScanState.step, readArgument, hb, he, Bool.false_eq_true, reduceIte]
    exact .inr rfl
  | _ => cases hp

/-- **The end of a sub-chain** closes the one that is open, or leaves it to what follows to do
so. -/
theorem EndsAs.step_subEnd_cases (h : EndsAs y s u) (ho : s.outer ≠ []) :
    EndsAs y (s.step y y.subEnd) u ∨ s.step y y.subEnd = u.closeSub := by
  have he : s.ends y y.subEnd = true := by
    simp [ends, ho]
  -- Where it is the delimiter too, it ends the invocation and no more.
  have hends (v : ScanState) (hv : v = if y.subEnd = y.delimiter then u else u.closeSub) :
      EndsAs y v u ∨ v = u.closeSub := by
    subst hv
    split
    · exact .inl (h.eq ▸ endsAs_endInvocation _)
    · exact .inr rfl
  by_cases hb : blank y.subEnd = true
  · exact .inl (h.step_blank hb)
  rw [Bool.not_eq_true] at hb
  by_cases ha : y.subEnd = y.argsDelimiter
  · rw [ha] at hb he hends ⊢
    rcases h.step_argsDelimiter hb he with hs | hs
    · exact .inl hs
    · exact hends _ hs
  · exact hends _ (h.step hb ha he)

/-- To close a sub-chain makes no difference: the end of the text closes it in the same way. -/
theorem EndsAs.closeSub (h : EndsAs y s u) (ho : s.outer ≠ []) : EndsLike y s u.closeSub := by
  obtain ⟨- | ⟨⟨d, ps⟩, o⟩, d', q, n⟩ := u
  · exact absurd h.outer ho
  have hclose : s.close y =
      endAll y o.length ⟨o, d, .argument (ps ++ [.sub d'.done]),
        n ++ [.subChainUnterminated (o.length + 1)]⟩ := by
    have hk : s.depth = o.length + 1 := h.depth
    rw [ScanState.close, h.settle, hk, endAll, h.endChain]
    rfl
  -- From here on both end the chains around the sub-chain; one lacks the note of the sub-chain.
  refine ⟨?_, ?_⟩
  · rw [hclose]
    exact endAll_draft ..
  · intro limit hw
    rw [hclose] at hw
    rw [close_within_iff rfl]
    have hn := hw.of_adds (endAll_adds _ _)
    exact fun m hm => hn m (List.mem_append_left _ hm)

/-- **The end of a sub-chain**: where an invocation can end, the text may as well end without it. -/
theorem endsLike_subEnd (hp : s.place.isOpen) (ho : s.outer ≠ []) :
    EndsLike y s (s.step y y.subEnd) ∧ (s.step y y.subEnd).place.isOpen ∧
      s.depth ≤ (s.step y y.subEnd).depth + 1 := by
  obtain ⟨u, h⟩ : ∃ u, EndsAs y s u := ⟨_, hp, rfl⟩
  rcases h.step_subEnd_cases ho with hs | hs
  · -- The sub-chain is still open, and the end of the text finds what it would have found before.
    refine ⟨.of_eq (h.close_eq hs), hs.isOpen, ?_⟩
    rw [hs.depth, h.depth]
    exact Nat.le_succ _
  · rw [hs]
    refine ⟨h.closeSub ho, ?_, ?_⟩
    · obtain ⟨- | ⟨⟨d, ps⟩, o⟩, d', q, n⟩ := u
      · exact absurd h.outer ho
      · rfl
    · rw [h.depth, depth, depth, closeSub_outer, List.length_tail]
      omega

/-- As many ends as there are open sub-chains make no difference. -/
theorem endsLike_subEnds {k : Nat} (hp : s.place.isOpen) (hk : k ≤ s.depth) :
    EndsLike y s (s.read y (List.replicate k y.subEnd)) := by
  induction k generalizing s with
  | zero => exact .refl s
  | succ k ih =>
    have ho : s.outer ≠ [] := by
      intro ho
      rw [depth, ho] at hk
      exact Nat.not_succ_le_zero k hk
    obtain ⟨hlike, hopen, hdepth⟩ := endsLike_subEnd (y := y) hp ho
    rw [List.replicate_succ, read_cons]
    exact hlike.trans (ih hopen (by omega))

/-! ## Symbols without the backslash -/

/-- A pending backslash opens nothing if it is no symbol. -/
theorem settle_depth (h : '\\' ∉ y.quoteEnd :: y.openers) (s : ScanState) :
    (s.settle y).depth = s.depth := by
  simp only [Symbols.openers, List.mem_cons, List.not_mem_nil, or_false, not_or] at h
  obtain ⟨hquote, -, -, -, hsub, -, hstart⟩ := h
  obtain ⟨o, d, place, n⟩ := s
  cases place with
  | argumentEscape ps => simp only [settle, readMarked, if_neg hsub, if_neg hstart, depth]
  | quotesEscape ps text => simp only [settle, if_neg hquote, depth]
  | _ => rfl

/-- Where a backslash is pending within a sub-chain, the text ends within quotes. -/
theorem settle_isQuotes (h : '\\' ≠ y.quoteEnd) {text : List Char}
    (hp : (scan y text).place.isPending = true) (ho : (scan y text).outer ≠ []) :
    ((scan y text).settle y).place.isQuotes = true := by
  have hq := (scan_isPending hp).2.resolve_left ho
  generalize scan y text = s at hp hq ⊢
  obtain ⟨o, d, place, n⟩ := s
  cases place with
  | quotesEscape ps t =>
    simp only [settle, if_neg h]
    rfl
  | quotes ps t => cases hp
  | _ => cases hq

/-- **Closing what a text leaves open**, quotes first, makes no difference. -/
theorem endsLike_closed (h : '\\' ∉ y.quoteEnd :: y.openers) {text : List Char} {j k : Nat}
    (hj : j = if ((scan y text).settle y).place.isQuotes then 1 else 0)
    (hk : k = ((scan y text).settle y).depth) (hlast : 0 < j → text.getLast? ≠ some '\\') :
    EndsLike y (scan y text)
      (scan y (text ++ (List.replicate j y.quoteEnd ++ List.replicate k y.subEnd))) := by
  have hquote : '\\' ≠ y.quoteEnd := fun e => h (e ▸ List.mem_cons_self)
  rw [settle_depth h] at hk
  rw [scan_eq_read (text ++ _), read_append, read_append, ← scan_eq_read]
  by_cases hq : ((scan y text).settle y).place.isQuotes = true
  · -- The text ends within quotes, and no backslash is pending there.
    rw [if_pos hq] at hj
    have hp : (scan y text).place.isPending = false := by
      rw [Bool.eq_false_iff]
      exact fun hp => hlast (hj ▸ Nat.one_pos) (scan_isPending hp).1
    rw [settle_of_not_isPending hp] at hq
    obtain ⟨hlike, hopen, houter⟩ := endsLike_quoteEnd hquote.symm hq
    rw [hj, List.replicate_one, read_cons, read_nil]
    exact hlike.trans (endsLike_subEnds hopen (by rw [hk, depth, depth, houter]))
  · -- Only sub-chains are open, if anything is.
    rw [if_neg hq] at hj
    rw [hj, List.replicate_zero, read_nil]
    by_cases ho : (scan y text).outer = []
    · rw [hk, depth, ho]
      exact .refl _
    have hp : (scan y text).place.isPending = false := by
      rw [Bool.eq_false_iff]
      exact fun hp => hq (settle_isQuotes hquote hp ho)
    rw [settle_of_not_isPending hp] at hq
    exact endsLike_subEnds (Place.isOpen_of_not hp (by simpa using hq)) hk.le

end ScanState

/-- **Closing what a text leaves open changes nothing.** If no symbol is the backslash and a text is
parsed that ends within quotes or sub-chains, but not in a backslash within quotes, then its quotes
are reported once, its sub-chains once each, and the text with their ends behind it is parsed as the
same chain. -/
theorem parseChain_closed (a : Attributes)
    (h : '\\' ∉ a.symbols.quoteEnd :: a.symbols.openers) (t : String) {c : Chain}
    (hc : (parseChain a t).chain = .ok c)
    (ht : 0 < (parseChain a t).openQuotes → t.toList.getLast? ≠ some '\\') :
    (parseChain a t).openQuotes ≤ 1 ∧
      (parseChain a t).openSubChains = (scan a.symbols t.toList).depth ∧
      (parseChain a (t ++ String.ofList
        (List.replicate (parseChain a t).openQuotes a.symbols.quoteEnd ++
          List.replicate (parseChain a t).openSubChains a.symbols.subEnd))).chain = .ok c := by
  refine ⟨?_, ?_, ?_⟩
  · rw [parseChain_openQuotes hc]
    split <;> omega
  · rw [parseChain_openSubChains hc, ScanState.settle_depth h]
  · obtain ⟨hn, rfl⟩ := parseChain_eq_ok_iff.mp hc
    have hlike := ScanState.endsLike_closed h (parseChain_openQuotes hc)
      (parseChain_openSubChains hc) ht
    rw [parseChain_eq_ok_iff, String.toList_append, String.toList_ofList]
    exact ⟨hlike.within _ hn, congrArg Draft.done hlike.draft.symm⟩

/-- A text that ends within quotes in the second of two sub-chains, where one character ends quotes
and sub-chains and parts invocations as well. -/
theorem parseChain_closed_coinciding :
    let a : Attributes := { symbols := { subEnd := '>', quoteEnd := '>' } }
    let c : Chain :=
      [.call "a" [[.text "x", .sub [.call "b" [[.sub [.call "c" [[.text "y>z"]]]]]]]]]
    '\\' ∉ a.symbols.quoteEnd :: a.symbols.openers ∧
      (parseChain a "a x[b [c \"y\\>z").chain = .ok c ∧
      (parseChain a "a x[b [c \"y\\>z").openQuotes = 1 ∧
      (parseChain a "a x[b [c \"y\\>z").openSubChains = 2 ∧
      (parseChain a "a x[b [c \"y\\>z>>>").chain = .ok c := by
  have ha : '\\' ∉ ({ subEnd := '>', quoteEnd := '>' } : Symbols).quoteEnd ::
      ({ subEnd := '>', quoteEnd := '>' } : Symbols).openers := by decide
  have hc : (parseChain { symbols := { subEnd := '>', quoteEnd := '>' } }
      "a x[b [c \"y\\>z").chain =
        .ok [.call "a" [[.text "x", .sub [.call "b" [[.sub [.call "c" [[.text "y>z"]]]]]]]]] := by
    rfl
  have hlast : "a x[b [c \"y\\>z".toList.getLast? ≠ some '\\' := by decide
  have hclosed := parseChain_closed { symbols := { subEnd := '>', quoteEnd := '>' } } ha
    "a x[b [c \"y\\>z" hc fun _ => hlast
  exact ⟨ha, hc, by decide, by decide, hclosed.2.2⟩

end ChatCommands
