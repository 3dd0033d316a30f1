import ChatCommands.Proofs.Log.Tokens

/-!
# Which tokens are covered

Scrubbing replaces tokens from the left, and none that overlap. So a token need not be replaced as
it stands: one that is found before it may begin within it, or take its beginning away. A token that
is found is as long as it can be, so that a token that begins where nothing has been taken is
covered whole. One whose beginning was taken may be covered as well, if it ends where the one before
it ends, or earlier. Otherwise it is cut off: what stands behind the cut is no beginning of a token,
and is copied.

## Main definitions

* `StandsAt`: a stretch stands at a place of a text
* `Covered`, `Copied`: a placeholder stands for a character, or the character itself does
* `CutOff`: a token that is replaced takes the beginning of what stands at a place, and no more

## Main results

* `StandsAt.apart`: stretches do not overlap
* `exists_hasScrubbed`: what scrubbing has done behind the first part of a text
* `token_covered`: a token is covered whole exactly if it is not cut off
* `token_uncovered`: a token whose key is copied, as an assignment takes the word before it
-/

namespace ChatCommands

variable {s t w : List Char} {i j n : Nat} {x y : Stretch} {c : Char}

/-- The number of characters that stretches take of a text. -/
def Stretch.extent (l : List Stretch) : Nat := (l.flatMap Stretch.source).length

@[simp] theorem extent_nil : Stretch.extent [] = 0 := rfl

@[simp] theorem extent_append (l m : List Stretch) :
    Stretch.extent (l ++ m) = Stretch.extent l + Stretch.extent m := by
  simp [Stretch.extent]

@[simp] theorem extent_cons (x : Stretch) (l : List Stretch) :
    Stretch.extent (x :: l) = x.source.length + Stretch.extent l := by
  simp [Stretch.extent]

theorem extent_shown (l : List Char) : Stretch.extent (l.map .shown) = l.length := by
  induction l with
  | nil => rfl
  | cons c l ih =>
    rw [List.map_cons, extent_cons, ih, List.length_cons, Nat.add_comm]
    rfl

/-- A stretch stands at a place of a text. -/
def StandsAt (s : List Char) (i : Nat) (x : Stretch) : Prop :=
  ∃ before behind, stretches s = before ++ x :: behind ∧ Stretch.extent before = i

/-- A placeholder stands for the character in a place. -/
def Covered (s : List Char) (j : Nat) : Prop :=
  ∃ i w, StandsAt s i (.token w) ∧ i ≤ j ∧ j < i + w.length

/-- The character in a place is shown. -/
def Copied (s : List Char) (j : Nat) : Prop := ∃ c, StandsAt s j (.shown c)

/-- A token that is replaced begins before a place and ends behind it, within the next `n`
characters. -/
def CutOff (s : List Char) (i n : Nat) : Prop :=
  ∃ k w, StandsAt s k (.token w) ∧ k < i ∧ i < k + w.length ∧ k + w.length < i + n

/-- Two stretches are one, or one of them ends before the other begins. -/
theorem StandsAt.apart (hx : StandsAt s i x) (hy : StandsAt s j y) :
    (i = j ∧ x = y) ∨ i + x.source.length ≤ j ∨ j + y.source.length ≤ i := by
  obtain ⟨before, behind, hl, rfl⟩ := hx
  obtain ⟨before', behind', hl', rfl⟩ := hy
  rcases List.append_eq_append_iff.mp (hl.symm.trans hl') with ⟨m, rfl, hm⟩ | ⟨m, rfl, hm⟩
  · cases m with
    | nil => exact .inl ⟨by simp, (List.cons.inj hm).1⟩
    | cons z m =>
      obtain ⟨rfl, -⟩ := List.cons.inj hm
      refine .inr (.inl ?_)
      simp only [extent_append, extent_cons]
      omega
  · cases m with
    | nil => exact .inl ⟨by simp, (List.cons.inj hm).1.symm⟩
    | cons z m =>
      obtain ⟨rfl, -⟩ := List.cons.inj hm
      refine .inr (.inr ?_)
      simp only [extent_append, extent_cons]
      omega

/-- A character that is shown is not covered. -/
theorem Copied.not_covered (h : Copied s j) : ¬Covered s j := by
  rintro ⟨i, w, hw, hle, hlt⟩
  obtain ⟨c, hc⟩ := h
  rcases hw.apart hc with ⟨-, heq⟩ | hbefore | hbehind
  · cases heq
  · have hbefore : i + w.length ≤ j := hbefore
    omega
  · have hbehind : j + 1 ≤ i := hbehind
    omega

/-- Characters that are shown one after another are copied. -/
theorem copied_of_shown {before : List Stretch} {l : List Char}
    (h : stretches s = before ++ l.map .shown) (hi : i < l.length) :
    Copied s (Stretch.extent before + i) := by
  have hsplit : l = l.take i ++ l[i] :: l.drop (i + 1) := by
    rw [List.getElem_cons_drop, List.take_append_drop]
  refine ⟨l[i], before ++ (l.take i).map .shown, (l.drop (i + 1)).map .shown, ?_, ?_⟩
  · rw [h, List.append_assoc, ← List.map_cons, ← List.map_append, ← hsplit]
  · rw [extent_append, extent_shown, List.length_take_of_le (Nat.le_of_lt hi)]

/-! ## Behind the first part of a text -/

/-- What is still to be skipped is left out. -/
theorem stretchesFrom_drop (n : Nat) (s : List Char) :
    stretchesFrom n s = stretchesFrom 0 (s.drop n) := by
  induction s generalizing n with
  | nil => rw [List.drop_nil, stretchesFrom, stretchesFrom]
  | cons c s ih =>
    cases n with
    | zero => rfl
    | succ n => exact ih n

/-- What scrubbing has done behind the first part `s` of a text that goes on with `t`. If it is
within a token then, that token is the last one that has begun, and behind it stands none of the
characters that tokens begin with. -/
structure HasScrubbed (n : Nat) (s t : List Char) (before : List Stretch) : Prop where
  stretches : stretchesFrom n (s ++ t) = before ++ stretchesFrom (pendingAfter n s t) t
  extent : Stretch.extent before + n = s.length + pendingAfter n s t
  last : pendingAfter n s t = 0 ∨ before = [] ∨
    ∃ front w, before = front ++ [.token w] ∧ Stretch.extent front + n < s.length ∧
      ∀ c, (t.drop (pendingAfter n s t)).head? = some c → dottedKeyChar c = false

variable {before : List Stretch}

theorem HasScrubbed.nil (n : Nat) (t : List Char) : HasScrubbed n [] t [] :=
  ⟨rfl, by simp [pendingAfter], .inr (.inl rfl)⟩

/-- A character that belongs to a token already replaced is passed over. -/
theorem HasScrubbed.skip (h : HasScrubbed n s t before) :
    HasScrubbed (n + 1) (c :: s) t before := by
  refine ⟨h.stretches, ?_, h.last.imp_right (.imp_right ?_)⟩
  · have hextent := h.extent
    rw [pendingAfter, List.length_cons]
    omega
  · rintro ⟨front, w, rfl, hlt, hend⟩
    exact ⟨front, w, rfl, Nat.succ_lt_succ hlt, hend⟩

/-- A character at which no token is found is shown. -/
theorem HasScrubbed.shown (h : HasScrubbed 0 s t before)
    (hnone : tokenLength? (c :: (s ++ t)) = none) :
    HasScrubbed 0 (c :: s) t (.shown c :: before) := by
  have hpending : pendingAfter 0 (c :: s) t = pendingAfter 0 s t := by
    rw [pendingAfter, hnone]
    rfl
  have hextent := h.extent
  refine ⟨?_, ?_, ?_⟩
  · rw [hpending, List.cons_append, stretchesFrom, hnone]
    exact congrArg (_ :: ·) h.stretches
  · rw [hpending, extent_cons, List.length_cons, Stretch.source, List.length_singleton]
    omega
  · rw [hpending]
    rcases h.last with hzero | rfl | ⟨front, w, rfl, hlt, hend⟩
    · exact .inl hzero
    · rw [extent_nil] at hextent
      exact .inl (by omega)
    · refine .inr (.inr ⟨.shown c :: front, w, rfl, ?_, hend⟩)
      rw [extent_cons, List.length_cons, Stretch.source, List.length_singleton]
      omega

/-- A token that is found is replaced. -/
theorem HasScrubbed.token {b : List Char} (h : HasScrubbed w.length s t before)
    (heq : s ++ t = w ++ b) (hsome : tokenLength? (c :: (s ++ t)) = some (w.length + 1))
    (hnext : ∀ d, b.head? = some d → dottedKeyChar d = false) :
    HasScrubbed 0 (c :: s) t (.token (c :: w) :: before) := by
  have hpending : pendingAfter 0 (c :: s) t = pendingAfter w.length s t := by
    rw [pendingAfter, hsome]
    rfl
  have htake : (c :: (s ++ t)).take (w.length + 1) = c :: w := by
    rw [heq, List.take_succ_cons, List.take_left]
  have hextent := h.extent
  refine ⟨?_, ?_, ?_⟩
  · rw [hpending, List.cons_append, stretchesFrom, hsome]
    dsimp only
    rw [htake]
    exact congrArg (_ :: ·) h.stretches
  · rw [hpending, extent_cons, List.length_cons, Stretch.source, List.length_cons]
    omega
  · rw [hpending]
    rcases h.last with hzero | rfl | ⟨front, v, rfl, hlt, hend⟩
    · exact .inl hzero
    · -- The token goes on up to the end of the first part, or behind it.
      rw [extent_nil, Nat.zero_add] at hextent
      refine .inr (.inr ⟨[], c :: w, rfl, Nat.succ_pos s.length, ?_⟩)
      have hdrop : t.drop (pendingAfter w.length s t) = b := by
        have hskip : (s ++ t).drop (s.length + pendingAfter w.length s t) =
            t.drop (pendingAfter w.length s t) := by
          rw [← List.drop_drop, List.drop_left]
        rw [← hskip, ← hextent, heq, List.drop_left]
      rw [hdrop]
      exact hnext
    · refine .inr (.inr ⟨.token (c :: w) :: front, v, rfl, ?_, hend⟩)
      rw [extent_cons, List.length_cons, Stretch.source, List.length_cons]
      omega

theorem exists_hasScrubbed (n : Nat) (s t : List Char) : ∃ before, HasScrubbed n s t before := by
  -- The recursion is that of scrubbing: a character is passed over, shown, or begins a token.
  induction s generalizing n with
  | nil => exact ⟨[], .nil n t⟩
  | cons c s ih =>
    cases n with
    | succ n =>
      obtain ⟨before, h⟩ := ih n
      exact ⟨before, h.skip⟩
    | zero =>
      cases htoken : tokenLength? (c :: (s ++ t)) with
      | none =>
        obtain ⟨before, h⟩ := ih 0
        exact ⟨_, h.shown htoken⟩
      | some m =>
        obtain ⟨w, b, heq, rfl, -, -, hnext⟩ := exists_of_tokenLength?_cons htoken
        obtain ⟨before, h⟩ := ih w.length
        exact ⟨_, h.token heq htoken hnext⟩

/-! ## Where a token begins -/

/-- Where nothing has been taken, a token is replaced with all that follows it. -/
theorem exists_token_of_free {a b : List Char} (hw : IsToken w)
    (h : pendingAfter 0 a (w ++ b) = 0) :
    ∃ v, StandsAt (a ++ (w ++ b)) a.length (.token v) ∧ w.length ≤ v.length := by
  obtain ⟨before, hl, hextent, -⟩ := exists_hasScrubbed 0 a (w ++ b)
  rw [h] at hl hextent
  obtain ⟨m, hm, hle⟩ := hw.found b
  obtain ⟨c, w, rfl, -⟩ := hw.exists_cons
  rw [List.cons_append] at hl hm ⊢
  obtain ⟨v, b', heq, rfl, -⟩ := exists_of_tokenLength?_cons hm
  rw [stretchesFrom, hm] at hl
  refine ⟨_, ⟨before, _, hl, by omega⟩, ?_⟩
  rw [heq, List.take_succ_cons, List.take_left]
  exact hle

/-- Where the beginning of a text has been taken, the token that took it was replaced, and what
stands behind that token is copied. -/
theorem exists_token_of_taken {a t : List Char} (h : 0 < pendingAfter 0 a t) :
    (∃ k v, StandsAt (a ++ t) k (.token v) ∧ k < a.length ∧
      k + v.length = a.length + pendingAfter 0 a t) ∧
      (pendingAfter 0 a t < t.length → Copied (a ++ t) (a.length + pendingAfter 0 a t)) := by
  obtain ⟨before, hl, hextent, hzero | rfl | ⟨front, v, rfl, hlt, hend⟩⟩ := exists_hasScrubbed 0 a t
  · omega
  · rw [extent_nil] at hextent
    omega
  · refine ⟨⟨_, v, ⟨front, stretchesFrom (pendingAfter 0 a t) t, ?_, rfl⟩, hlt, ?_⟩,
      fun hlength => ?_⟩
    · rw [stretches, hl, List.append_assoc]
      rfl
    · simpa [Stretch.source] using hextent
    · -- No token begins behind one that is as long as it can be.
      obtain ⟨d, rest, hrest⟩ :=
        List.exists_cons_of_ne_nil (List.ne_nil_of_length_pos (l := t.drop (pendingAfter 0 a t))
          (by rw [List.length_drop]; omega))
      have hd : dottedKeyChar d = false := hend d (by rw [hrest]; rfl)
      have hnone : tokenLength? (d :: rest) = none := by
        rw [Option.eq_none_iff_forall_ne_some]
        intro m hm
        obtain ⟨-, -, -, -, -, hkey, -⟩ := exists_of_tokenLength?_cons hm
        rw [hd] at hkey
        cases hkey
      refine ⟨d, front ++ [.token v], stretchesFrom 0 rest, ?_, by omega⟩
      rw [stretches, hl, stretchesFrom_drop (pendingAfter 0 a t), hrest, stretchesFrom, hnone]

/-! ## Covered tokens -/

/-- All that stands within a token that is replaced is covered, and nothing cuts it off. -/
theorem StandsAt.covers (h : StandsAt s i (.token w)) (hle : i ≤ j) (hend : j + n ≤ i + w.length)
    (hn : 0 < n) : (∀ l, j ≤ l → l < j + n → Covered s l ∧ ¬Copied s l) ∧ ¬CutOff s j n := by
  constructor
  · intro l hl hlt
    have hcovered : Covered s l := ⟨i, w, h, by omega, by omega⟩
    exact ⟨hcovered, fun hcopied => hcopied.not_covered hcovered⟩
  · rintro ⟨k, v, hv, hk, hinto, hshort⟩
    rcases hv.apart h with ⟨rfl, heq⟩ | hbefore | hbehind
    · rw [Stretch.token.inj heq] at hshort
      omega
    · have hbefore : k + v.length ≤ i := hbefore
      omega
    · have hbehind : i + w.length ≤ k := hbehind
      omega

/-- **A token is covered whole exactly if it is not cut off.** -/
theorem covered_iff {a b : List Char} (hw : IsToken w) :
    (∀ j, a.length ≤ j → j < a.length + w.length →
      Covered (a ++ (w ++ b)) j ∧ ¬Copied (a ++ (w ++ b)) j) ↔
        ¬CutOff (a ++ (w ++ b)) a.length w.length := by
  obtain ⟨c, w', rfl, -⟩ := hw.exists_cons
  rcases Nat.eq_zero_or_pos (pendingAfter 0 a (c :: w' ++ b)) with hfree | htaken
  · -- The token begins where nothing has been taken.
    obtain ⟨v, hv, hle⟩ := exists_token_of_free hw hfree
    obtain ⟨hcovered, hwhole⟩ := hv.covers (Nat.le_refl _) (Nat.add_le_add_left hle _)
      (Nat.succ_pos w'.length)
    exact iff_of_true hcovered hwhole
  · obtain ⟨⟨k, v, hv, hk, hend⟩, hcopied⟩ := exists_token_of_taken htaken
    rcases Nat.lt_or_ge (pendingAfter 0 a (c :: w' ++ b)) (c :: w').length with hcut | hall
    · -- The token before it ends within it, and what stands there is copied.
      refine iff_of_false (fun hcovered => ?_) (not_not_intro ⟨k, v, hv, hk, by omega, by omega⟩)
      have hshown := hcopied (by rw [List.length_append]; omega)
      exact (hcovered _ (Nat.le_add_right _ _) (Nat.add_lt_add_left hcut _)).2 hshown
    · obtain ⟨hcovered, hwhole⟩ := hv.covers (n := (c :: w').length) (Nat.le_of_lt hk) (by omega)
        (Nat.succ_pos w'.length)
      exact iff_of_true hcovered hwhole

/-- **Which tokens scrubbing covers.** Its stretches account for what it makes of a text. A token
that stands anywhere in the text is covered whole, with none of its characters copied, exactly if no
token that is replaced begins before it and ends within it. -/
theorem token_covered (s : String) :
    Accounts s.toList (scrub s).toList (stretches s.toList) ∧
      ∀ a w b, s.toList = a ++ (w ++ b) → IsToken w →
        ((∀ j, a.length ≤ j → j < a.length + w.length →
          Covered s.toList j ∧ ¬Copied s.toList j) ↔ ¬CutOff s.toList a.length w.length) := by
  refine ⟨?_, fun a w b hs hw => ?_⟩
  · rw [scrub, String.toList_ofList]
    exact accounts_stretches s.toList
  · rw [hs]
    exact covered_iff hw

/-- A dotted token that begins within the key of a header is covered with it. -/
theorem token_covered_overlapping :
    let s := "Bot /aaaaaaaaaaaaaaaaaaaa.bbbbb.cccccccccccccccccccc!"
    let w := "aaaaaaaaaaaaaaaaaaaa.bbbbb.cccccccccccccccccccc".toList
    s.toList = "Bot /".toList ++ (w ++ ['!']) ∧ IsToken w ∧ scrub s = "***REDACTED***!" ∧
      ∀ j, 5 ≤ j → j < 5 + 47 → Covered s.toList j ∧ ¬Copied s.toList j := by
  intro s w
  have hs : s.toList = "Bot /".toList ++ (w ++ ['!']) := by decide
  have hw : IsToken w := by
    have hform : w = "aaaaaaaaaaaaaaaaaaaa".toList ++ '.' :: ("bbbbb".toList ++
        '.' :: "cccccccccccccccccccc".toList) := by decide
    rw [hform]
    exact .dotted (by decide) (by decide) (by decide) (List.all_eq_true.mp rfl)
  have hwhole : StandsAt s.toList 0 (.token ("Bot /".toList ++ w)) :=
    ⟨[], [.shown '!'], by decide +kernel, rfl⟩
  refine ⟨hs, hw, by decide +kernel, ((token_covered s).2 _ w _ hs hw).mpr ?_⟩
  exact (hwhole.covers (n := 47) (Nat.zero_le 5) (by decide) (by decide)).2

/-- An assignment takes the word of the header that is its value, and the key of the header is
copied, as the blank ends the assignment. -/
theorem token_uncovered :
    let s := "CHAINBOT_TOKEN=Bot abcdefghij0123456789"
    let w := "Bot abcdefghij0123456789".toList
    s.toList = "CHAINBOT_TOKEN=".toList ++ (w ++ []) ∧ IsToken w ∧
      scrub s = "***REDACTED*** abcdefghij0123456789" ∧
      ∀ j, 18 ≤ j → j < 18 + 21 → Copied s.toList j ∧ ¬Covered s.toList j := by
  intro s w
  have hw : IsToken w := by
    have hform : w = "Bot".toList ++ ([' '] ++ "abcdefghij0123456789".toList) := by decide
    rw [hform]
    have hsecret : SecretKey "abcdefghij0123456789".toList :=
      ⟨by decide, List.all_eq_true.mp rfl⟩
    exact .header (by decide) (by decide) (List.all_eq_true.mp rfl) hsecret
  have hl : stretches s.toList = [.token "CHAINBOT_TOKEN=Bot".toList] ++
      " abcdefghij0123456789".toList.map .shown := by decide +kernel
  refine ⟨by decide, hw, by decide +kernel, fun j hle hlt => ?_⟩
  obtain ⟨i, rfl⟩ := Nat.exists_eq_add_of_le hle
  have hcopied : Copied s.toList (18 + i) := copied_of_shown hl (Nat.lt_of_add_lt_add_left hlt)
  exact ⟨hcopied, hcopied.not_covered⟩

end ChatCommands
