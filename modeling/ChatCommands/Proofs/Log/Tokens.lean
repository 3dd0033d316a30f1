import ChatCommands.Proofs.Log.Redaction
import Mathlib.Data.List.TakeWhile

/-!
# Tokens

What a token is can be said without the search for it: a header, a dotted token or an assignment, of
whatever length its runs allow. The search finds one wherever one begins, and takes the longest. A
token begins with a character that may stand between the dots of a dotted token, and behind one that
is as long as it can be no such character stands. So a token that is found is never followed by
another at once.

Scrubbing goes through a text once, and every character of it is either shown or belongs to a token
that is replaced as a whole.

## Main definitions

* `IsToken`: the texts that are tokens
* `Stretch`: a character that is shown, or a token that is replaced
* `stretches`: what scrubbing does with a text, stretch by stretch
* `Accounts`: stretches tell how a text becomes another one

## Main results

* `exists_of_tokenLength?`: what is found is a token, and no longer one begins there
* `IsToken.found`: a token is found where one begins
* `accounts_stretches`: stretches account for scrubbing
-/

namespace ChatCommands

variable {s t w b : List Char} {n : Nat} {c : Char} {p : Char → Bool}

/-- A text that has one of the forms of tokens. -/
inductive IsToken : List Char → Prop
  | header {lead gap key : List Char} (hlead : lead ∈ headerWords) (hgap : gap ≠ [])
      (hblank : ∀ c ∈ gap, blank c = true) (hkey : SecretKey key) : IsToken (lead ++ (gap ++ key))
  | dotted {first second third : List Char} (hfirst : 20 ≤ first.length)
      (hsecond : 5 ≤ second.length) (hthird : 20 ≤ third.length)
      (hkey : ∀ c ∈ first ++ (second ++ third), dottedKeyChar c = true) :
      IsToken (first ++ '.' :: (second ++ '.' :: third))
  | assignment {value : List Char} (hvalue : value ≠ []) (hblank : ∀ c ∈ value, blank c = false) :
      IsToken ("CHAINBOT_TOKEN=".toList ++ value)

theorem dottedKeyChar_of_blank (h : blank c = true) : dottedKeyChar c = false := by
  rw [Bool.eq_false_iff]
  intro hkey
  simpa [headerKeyChar_of_blank h] using headerKeyChar_of_dotted c hkey

theorem dottedKeyChar_of_header (h : headerKeyChar c = false) : dottedKeyChar c = false := by
  rw [Bool.eq_false_iff]
  intro hkey
  simpa [h] using headerKeyChar_of_dotted c hkey

/-- A token begins with a character of the keys of dotted tokens. -/
theorem IsToken.exists_cons (h : IsToken w) : ∃ c w', w = c :: w' ∧ dottedKeyChar c = true := by
  cases h with
  | header hlead _ _ _ =>
    simp only [headerWords, List.mem_cons, List.not_mem_nil, or_false] at hlead
    rcases hlead with rfl | rfl
    · exact ⟨'B', _, rfl, by decide⟩
    · exact ⟨'B', _, rfl, by decide⟩
  | @dotted first _ _ hfirst _ _ hkey =>
    cases first with
    | nil => exact absurd hfirst (by decide)
    | cons c first => exact ⟨c, _, rfl, hkey c (by simp)⟩
  | assignment _ _ => exact ⟨'C', _, rfl, by decide⟩

/-! ## What is found -/

/-- A run is what a text begins with, up to a character that does not satisfy the test. -/
theorem exists_of_runOf? {least : Nat} (h : runOf? p least s = some n) :
    ∃ u v, s = u ++ v ∧ n = u.length ∧ least ≤ u.length ∧ (∀ c ∈ u, p c = true) ∧
      ∀ c, v.head? = some c → p c = false := by
  unfold runOf? at h
  split at h
  next hle =>
    refine ⟨s.takeWhile p, s.dropWhile p, List.takeWhile_append_dropWhile.symm,
      (Option.some.inj h).symm, hle, fun c hc => List.mem_takeWhile_imp hc, fun c hc => ?_⟩
    have hhead := List.head?_dropWhile_not p s
    rw [hc] at hhead
    simpa using hhead
  · cases h

theorem exists_of_leadLength? {lead : String} (h : leadLength? lead s = some n) :
    ∃ v, s = lead.toList ++ v ∧ n = lead.toList.length := by
  obtain ⟨hn, v, hv⟩ := prefix_of_leadLength? h
  exact ⟨v, hv.symm, hn⟩

/-- A header that is found, as long as it can be. -/
theorem exists_of_headerLength? (h : headerLength? s = some n) :
    ∃ lead gap key b, s = lead ++ (gap ++ (key ++ b)) ∧ n = (lead ++ (gap ++ key)).length ∧
      lead ∈ headerWords ∧ gap ≠ [] ∧ (∀ c ∈ gap, blank c = true) ∧ SecretKey key ∧
      ∀ c, b.head? = some c → headerKeyChar c = false := by
  obtain ⟨word, hword, h⟩ := Option.bind_eq_some_iff.mp h
  obtain ⟨m, hm, h⟩ := Option.bind_eq_some_iff.mp h
  obtain ⟨k, hk, h⟩ := Option.bind_eq_some_iff.mp h
  obtain ⟨lead, hlead, v, rfl, rfl⟩ :
      ∃ lead ∈ headerWords, ∃ v, s = lead ++ v ∧ word = lead.length := by
    rcases hbot : leadLength? "Bot" s with - | l
    · rw [hbot] at hword
      obtain ⟨v, hv⟩ := exists_of_leadLength? hword
      exact ⟨_, by simp [headerWords], v, hv⟩
    · rw [hbot] at hword
      obtain rfl := Option.some.inj hword
      obtain ⟨v, hv⟩ := exists_of_leadLength? hbot
      exact ⟨_, by simp [headerWords], v, hv⟩
  rw [List.drop_left] at hm
  obtain ⟨gap, v, rfl, rfl, hgap, hblank, -⟩ := exists_of_runOf? hm
  rw [← List.append_assoc, ← List.length_append, List.drop_left] at hk
  obtain ⟨key, b, rfl, rfl, hlong, hkey, hend⟩ := exists_of_runOf? hk
  refine ⟨lead, gap, key, b, rfl, ?_, hlead, List.length_pos_iff.mp hgap, hblank, ⟨hlong, hkey⟩,
    hend⟩
  rw [← Option.some.inj h]
  simp [Nat.add_assoc]

/-- A dotted token that is found, as long as it can be. -/
theorem exists_of_dottedLength? (h : dottedLength? s = some n) :
    ∃ first second third b, s = first ++ '.' :: (second ++ '.' :: (third ++ b)) ∧
      n = (first ++ '.' :: (second ++ '.' :: third)).length ∧
      20 ≤ first.length ∧ 5 ≤ second.length ∧ 20 ≤ third.length ∧
      (∀ c ∈ first ++ (second ++ third), dottedKeyChar c = true) ∧
      ∀ c, b.head? = some c → dottedKeyChar c = false := by
  obtain ⟨n₁, h₁, h⟩ := Option.bind_eq_some_iff.mp h
  obtain ⟨d₁, hd₁, h⟩ := Option.bind_eq_some_iff.mp h
  obtain ⟨n₂, h₂, h⟩ := Option.bind_eq_some_iff.mp h
  obtain ⟨d₂, hd₂, h⟩ := Option.bind_eq_some_iff.mp h
  obtain ⟨n₃, h₃, h⟩ := Option.bind_eq_some_iff.mp h
  -- Each run begins behind what was found before it.
  obtain ⟨first, v, rfl, rfl, hfirst, hkey₁, -⟩ := exists_of_runOf? h₁
  rw [List.drop_left] at hd₁
  obtain ⟨v, rfl, rfl⟩ := exists_of_leadLength? hd₁
  rw [← List.append_assoc, ← List.length_append, List.drop_left] at h₂
  obtain ⟨second, v, rfl, rfl, hsecond, hkey₂, -⟩ := exists_of_runOf? h₂
  rw [← List.append_assoc, ← List.append_assoc, ← List.length_append, ← List.length_append,
    List.drop_left] at hd₂
  obtain ⟨v, rfl, rfl⟩ := exists_of_leadLength? hd₂
  rw [← List.append_assoc, ← List.append_assoc, ← List.append_assoc, ← List.length_append,
    ← List.length_append, ← List.length_append, List.drop_left] at h₃
  obtain ⟨third, b, rfl, rfl, hthird, hkey₃, hend⟩ := exists_of_runOf? h₃
  refine ⟨first, second, third, b, rfl, ?_, hfirst, hsecond, hthird, ?_, hend⟩
  · rw [← Option.some.inj h]
    simp
    omega
  · intro c hc
    simp only [List.mem_append] at hc
    rcases hc with hc | hc | hc
    · exact hkey₁ c hc
    · exact hkey₂ c hc
    · exact hkey₃ c hc

/-- An assignment that is found goes on up to a blank. -/
theorem exists_of_assignmentLength? (h : assignmentLength? s = some n) :
    ∃ value b, s = "CHAINBOT_TOKEN=".toList ++ (value ++ b) ∧
      n = ("CHAINBOT_TOKEN=".toList ++ value).length ∧ value ≠ [] ∧
      (∀ c ∈ value, blank c = false) ∧ ∀ c, b.head? = some c → blank c = true := by
  obtain ⟨m, hm, h⟩ := Option.bind_eq_some_iff.mp h
  obtain ⟨k, hk, h⟩ := Option.bind_eq_some_iff.mp h
  obtain ⟨v, rfl, rfl⟩ := exists_of_leadLength? hm
  rw [List.drop_left] at hk
  obtain ⟨value, b, rfl, rfl, hlong, hblank, hend⟩ := exists_of_runOf? hk
  refine ⟨value, b, rfl, ?_, List.length_pos_iff.mp hlong, by simpa using hblank,
    by simpa using hend⟩
  rw [← Option.some.inj h, List.length_append]

/-- **What is found is a token**, and behind it stands none of the characters that a token can begin
with. -/
theorem exists_of_tokenLength? (h : tokenLength? s = some n) :
    ∃ w b, s = w ++ b ∧ n = w.length ∧ IsToken w ∧
      ∀ c, b.head? = some c → dottedKeyChar c = false := by
  rcases tokenLength?_cases h with h | h | h
  · obtain ⟨lead, gap, key, b, rfl, rfl, hlead, hgap, hblank, hkey, hend⟩ :=
      exists_of_headerLength? h
    exact ⟨_, b, by simp, rfl, .header hlead hgap hblank hkey,
      fun c hc => dottedKeyChar_of_header (hend c hc)⟩
  · obtain ⟨first, second, third, b, rfl, rfl, hfirst, hsecond, hthird, hkey, hend⟩ :=
      exists_of_dottedLength? h
    exact ⟨_, b, by simp, rfl, .dotted hfirst hsecond hthird hkey, hend⟩
  · obtain ⟨value, b, rfl, rfl, hvalue, hblank, hend⟩ := exists_of_assignmentLength? h
    exact ⟨_, b, by simp, rfl, .assignment hvalue hblank,
      fun c hc => dottedKeyChar_of_blank (hend c hc)⟩

/-! ## What begins with a token -/

theorem runOf?_extend {least : Nat} {u : List Char} (hu : ∀ c ∈ u, p c = true)
    (hle : least ≤ u.length) (v : List Char) :
    runOf? p least (u ++ v) = some (u.length + runLength p v) := by
  have hrun : runLength p (u ++ v) = u.length + runLength p v := by
    rw [runLength, List.takeWhile_append_of_pos hu, List.length_append, runLength]
  rw [runOf?, hrun, if_pos (by omega)]

theorem leadLength?_append (lead : String) (v : List Char) :
    leadLength? lead (lead.toList ++ v) = some lead.toList.length := by
  rw [leadLength?, if_pos (List.isPrefixOf_iff_prefix.mpr (List.prefix_append _ _))]

/-- No header begins where so many key characters stand that a blank does not come in time. -/
theorem headerLength?_eq_none {first : List Char} (hlong : 20 ≤ first.length)
    (hkey : ∀ c ∈ first, dottedKeyChar c = true) (v : List Char) :
    headerLength? (first ++ v) = none := by
  rw [Option.eq_none_iff_forall_ne_some]
  intro n h
  obtain ⟨lead, gap, key, b, heq, -, hlead, hgap, hblank, -⟩ := exists_of_headerLength? h
  obtain ⟨g, gap, rfl⟩ := List.exists_cons_of_ne_nil hgap
  have hshort := (headerWords_spec hlead).2.1
  -- The first blank stands among the key characters.
  have hg : (first ++ v)[lead.length]? = some g := by
    rw [heq, List.getElem?_append_right (Nat.le_refl _), Nat.sub_self]
    rfl
  rw [List.getElem?_append_left (by omega)] at hg
  have hkey := hkey g (List.mem_of_getElem? hg)
  rw [dottedKeyChar_of_blank (hblank g List.mem_cons_self)] at hkey
  cases hkey

theorem dottedLength?_extend {first second third : List Char} (hfirst : 20 ≤ first.length)
    (hsecond : 5 ≤ second.length) (hthird : 20 ≤ third.length)
    (hkey : ∀ c ∈ first ++ (second ++ third), dottedKeyChar c = true) (b : List Char) :
    dottedLength? (first ++ '.' :: (second ++ '.' :: (third ++ b))) =
      some ((first ++ '.' :: (second ++ '.' :: third)).length + runLength dottedKeyChar b) := by
  have hstop (v : List Char) : ∀ c, ('.' :: v).head? = some c → dottedKeyChar c = false := by
    rintro c hc
    obtain rfl := Option.some.inj hc
    decide
  have h₁ := runOf?_append (fun c hc => hkey c (by simp [hc]))
    (hstop (second ++ '.' :: (third ++ b))) hfirst
  have h₂ := runOf?_append (fun c hc => hkey c (by simp [hc])) (hstop (third ++ b)) hsecond
  have h₃ := runOf?_extend (fun c hc => hkey c (by simp [hc])) hthird b
  have hdot (v : List Char) : leadLength? "." ('.' :: v) = some 1 := leadLength?_append "." v
  -- What stands behind a run and its dot, and behind so much of that.
  have hdrop (u v : List Char) (k : Nat) : (u ++ '.' :: v).drop (u.length + 1 + k) = v.drop k := by
    rw [← List.drop_drop, ← List.drop_drop, List.drop_left]
    rfl
  have hbehind (v : List Char) :
      (first ++ '.' :: (second ++ '.' :: v)).drop (first.length + 1 + second.length + 1) = v := by
    rw [Nat.add_assoc, hdrop]
    exact hdrop second v 0
  simp only [dottedLength?, Option.bind_eq_bind, h₁, Option.bind_some, List.drop_left, hdot,
    hdrop _ _ 0, List.drop_zero, h₂, hdrop _ _ second.length, hbehind, h₃]
  simp
  omega

theorem headerLength?_extend {lead gap key : List Char} (hlead : lead ∈ headerWords)
    (hgap : gap ≠ []) (hblank : ∀ c ∈ gap, blank c = true) (hkey : SecretKey key) (b : List Char) :
    headerLength? (lead ++ (gap ++ (key ++ b))) =
      some ((lead ++ (gap ++ key)).length + runLength headerKeyChar b) := by
  -- The key goes on as far as key characters follow.
  have hkey' : SecretKey (key ++ b.takeWhile headerKeyChar) := by
    refine ⟨by rw [List.length_append]; exact Nat.le_add_right_of_le hkey.long, fun c hc => ?_⟩
    rcases List.mem_append.mp hc with hc | hc
    · exact hkey.key c hc
    · exact List.mem_takeWhile_imp hc
  have hend (c : Char) (hc : (b.dropWhile headerKeyChar).head? = some c) :
      headerKeyChar c = false := by
    have hhead := List.head?_dropWhile_not headerKeyChar b
    rw [hc] at hhead
    simpa using hhead
  have hheader := headerLength?_of_header hkey' hlead hblank hgap hend
  rw [List.append_assoc, List.takeWhile_append_dropWhile] at hheader
  rw [hheader, runLength]
  simp only [List.length_append, Nat.add_assoc]

theorem assignmentLength?_extend {value : List Char} (hvalue : value ≠ [])
    (hblank : ∀ c ∈ value, blank c = false) (b : List Char) :
    assignmentLength? ("CHAINBOT_TOKEN=".toList ++ (value ++ b)) =
      some (("CHAINBOT_TOKEN=".toList ++ value).length + runLength (fun c => !blank c) b) := by
  have hrun := runOf?_extend (p := fun c => !blank c) (by simpa using hblank)
    (List.length_pos_iff.mpr hvalue) b
  rw [assignmentLength?, leadLength?_append]
  simp only [Option.bind_eq_bind, Option.bind_some, List.drop_left, hrun, List.length_append,
    Nat.add_assoc]
  rfl

/-- **A token is found where one begins**, with all of it. -/
theorem IsToken.found (h : IsToken w) (b : List Char) :
    ∃ n, tokenLength? (w ++ b) = some n ∧ w.length ≤ n := by
  cases h with
  | header hlead hgap hblank hkey =>
    refine ⟨_, ?_, Nat.le_add_right _ (runLength headerKeyChar b)⟩
    rw [tokenLength?, List.append_assoc, List.append_assoc,
      headerLength?_extend hlead hgap hblank hkey b]
    rfl
  | @dotted first second third hfirst hsecond hthird hkey =>
    refine ⟨_, ?_, Nat.le_add_right _ (runLength dottedKeyChar b)⟩
    have hnone := headerLength?_eq_none hfirst (fun c hc => hkey c (by simp [hc]))
      ('.' :: (second ++ '.' :: (third ++ b)))
    rw [tokenLength?, List.append_assoc, List.cons_append, List.append_assoc, List.cons_append,
      hnone, dottedLength?_extend hfirst hsecond hthird hkey b]
    rfl
  | @assignment value hvalue hblank =>
    refine ⟨_, ?_, Nat.le_add_right _ (runLength (fun c => !blank c) b)⟩
    -- The name is no header word, and no run of key characters that is long enough.
    have hheader : headerLength? ("CHAINBOT_TOKEN=".toList ++ (value ++ b)) = none := rfl
    have hdotted : dottedLength? ("CHAINBOT_TOKEN=".toList ++ (value ++ b)) = none := rfl
    rw [tokenLength?, List.append_assoc, hheader, hdotted, assignmentLength?_extend hvalue hblank b]
    rfl

/-- A token that is found is not empty: it begins with the first character of the text, one of those
of the keys of dotted tokens. -/
theorem exists_of_tokenLength?_cons (h : tokenLength? (c :: s) = some n) :
    ∃ w b, s = w ++ b ∧ n = w.length + 1 ∧ IsToken (c :: w) ∧ dottedKeyChar c = true ∧
      ∀ d, b.head? = some d → dottedKeyChar d = false := by
  obtain ⟨w, b, heq, rfl, hw, hend⟩ := exists_of_tokenLength? h
  obtain ⟨d, w, rfl, hd⟩ := hw.exists_cons
  rw [List.cons_append] at heq
  obtain ⟨rfl, rfl⟩ := List.cons.inj heq
  exact ⟨w, b, rfl, rfl, hw, hd, hend⟩

/-! ## Stretches -/

/-- What scrubbing does with the next characters of a text. -/
inductive Stretch where
  /-- A character that is shown. -/
  | shown (c : Char)
  /-- A token that is replaced. -/
  | token (w : List Char)
  deriving DecidableEq, Repr

namespace Stretch

/-- What stands in the text. -/
def source : Stretch → List Char
  | shown c => [c]
  | token w => w

/-- What is written for it. -/
def written : Stretch → List Char
  | shown c => [c]
  | token _ => placeholder

end Stretch

/-- The stretches of a text of which the first `n` characters belong to a token already replaced. -/
def stretchesFrom : Nat → List Char → List Stretch
  | _, [] => []
  | n + 1, _ :: s => stretchesFrom n s
  | 0, c :: s =>
    match tokenLength? (c :: s) with
    | some n => .token ((c :: s).take n) :: stretchesFrom (n - 1) s
    | none => .shown c :: stretchesFrom 0 s

/-- What scrubbing does with a text, stretch by stretch. -/
def stretches (s : List Char) : List Stretch := stretchesFrom 0 s

/-- Stretches tell how a text becomes another one: characters are kept, and tokens are replaced. -/
structure Accounts (s t : List Char) (l : List Stretch) : Prop where
  source : l.flatMap Stretch.source = s
  written : l.flatMap Stretch.written = t
  tokens : ∀ w, .token w ∈ l → IsToken w

theorem accounts_stretchesFrom (n : Nat) (s : List Char) :
    Accounts (s.drop n) (scrubFrom n s) (stretchesFrom n s) := by
  induction s generalizing n with
  | nil => exact ⟨(List.drop_nil).symm, rfl, nofun⟩
  | cons c s ih =>
    cases n with
    | succ n => exact ih n
    | zero =>
      unfold scrubFrom stretchesFrom
      cases h : tokenLength? (c :: s) with
      | none =>
        obtain ⟨hsource, hwritten, htokens⟩ := ih 0
        refine ⟨congrArg (c :: ·) hsource, congrArg (c :: ·) hwritten, fun w hw => ?_⟩
        exact htokens w (by simpa using hw)
      | some n =>
        obtain ⟨hsource, hwritten, htokens⟩ := ih (n - 1)
        obtain ⟨w, b, rfl, rfl, hw, -, -⟩ := exists_of_tokenLength?_cons h
        have htake : (c :: (w ++ b)).take (w.length + 1) = c :: w := by
          rw [List.take_succ_cons, List.take_left]
        dsimp only
        rw [htake]
        refine ⟨?_, ?_, fun v hv => ?_⟩
        · rw [List.flatMap_cons, hsource]
          simp [Stretch.source]
        · rw [List.flatMap_cons, hwritten]
          rfl
        · rcases List.mem_cons.mp hv with hv | hv
          · exact Stretch.token.inj hv ▸ hw
          · exact htokens v hv

/-- **Scrubbing keeps characters and replaces tokens**, and does nothing else. -/
theorem accounts_stretches (s : List Char) : Accounts s (scrubFrom 0 s) (stretches s) :=
  accounts_stretchesFrom 0 s

end ChatCommands
