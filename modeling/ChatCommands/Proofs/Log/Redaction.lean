import ChatCommands.Log.Redaction
import Mathlib.Data.List.Basic
import Mathlib.Data.List.Infix

/-!
# What redaction hides

A key stays hidden where it stands behind the word of an authorization header, as far as the header
is found. A text is read from the left, and a token that begins before the word may take it away, so
that the key behind it is shown: a key run that the word belongs to, or an assignment that goes on
up to the blank. Where nothing of that kind stands before the word, the header is found and its key
is replaced, whatever else there is in the text, and nothing that is put in the place of tokens
makes up the key again.

## Main definitions

* `SecretKey`: what may stand behind the word of a header
* `Shielded`: a key stands in a text behind free header words alone
* `pendingAfter`: how much of a token is still to be skipped within a text

## Main results

* `tokenLength?_le`: no token takes away a free header word
* `exists_of_scrubFrom`: what is shown of a text stands in it, and begins outside its tokens
* `not_infix_scrubFrom`: a shielded key is not shown
-/

namespace ChatCommands

variable {s t w x z : List Char} {n : Nat} {p : Char → Bool}

/-! ## Tokens at the beginning of a text -/

/-- The words of authorization headers. -/
def headerWords : List (List Char) := ["Bot".toList, "Bearer".toList]

/-- A key as it stands behind the word of a header. -/
structure SecretKey (w : List Char) : Prop where
  long : 20 ≤ w.length
  key : ∀ c ∈ w, headerKeyChar c = true

theorem of_lt_runLength {c : Char} (h : n < runLength p s) (hc : s[n]? = some c) :
    p c = true := by
  induction s generalizing n with
  | nil => cases h
  | cons d s ih =>
    rw [runLength, List.takeWhile_cons] at h
    split at h
    next hd =>
      cases n with
      | zero => exact Option.some.inj hc ▸ hd
      | succ n => exact ih (Nat.lt_of_succ_lt_succ h) hc
    · cases h

/-- The first characters of a text satisfy a test. -/
def Within (p : Char → Bool) (n : Nat) (s : List Char) : Prop :=
  ∀ i < n, ∀ c, s[i]? = some c → p c = true

theorem Within.add {m : Nat} (h : Within p n s) (h' : Within p m (s.drop n)) :
    Within p (n + m) s := by
  intro i hi c hc
  rcases Nat.lt_or_ge i n with hlt | hge
  · exact h i hlt c hc
  · refine h' (i - n) (by omega) c ?_
    rw [List.getElem?_drop, Nat.add_sub_cancel' hge]
    exact hc

theorem Within.mono {q : Char → Bool} (h : Within p n s) (hpq : ∀ c, p c = true → q c = true) :
    Within q n s := fun i hi c hc => hpq c (h i hi c hc)

/-- A character within the first ones, counted from a place in the text. -/
theorem Within.drop_get {m i : Nat} {c : Char} (h : Within p n (s.drop m)) (hle : m ≤ i)
    (hlt : i < m + n) (hc : s[i]? = some c) : p c = true := by
  refine h (i - m) (by omega) c ?_
  rw [List.getElem?_drop, Nat.add_sub_cancel' hle]
  exact hc

theorem within_of_runOf? {least : Nat} (h : runOf? p least s = some n) :
    least ≤ n ∧ Within p n s := by
  unfold runOf? at h
  split at h
  next hle =>
    obtain rfl := Option.some.inj h
    exact ⟨hle, fun i hi c hc => of_lt_runLength hi hc⟩
  · cases h

theorem prefix_of_leadLength? {lead : String} (h : leadLength? lead s = some n) :
    n = lead.toList.length ∧ lead.toList <+: s := by
  unfold leadLength? at h
  split at h
  next hp => exact ⟨(Option.some.inj h).symm, List.isPrefixOf_iff_prefix.mp hp⟩
  · cases h

theorem within_of_leadLength? {lead : String} (h : leadLength? lead s = some n)
    (hp : lead.toList.all p = true) : Within p n s := by
  obtain ⟨rfl, rest, rfl⟩ := prefix_of_leadLength? h
  intro i hi c hc
  rw [List.getElem?_append_left hi] at hc
  exact List.all_eq_true.mp hp c (List.mem_of_getElem? hc)

theorem headerKeyChar_of_dotted (c : Char) (h : dottedKeyChar c = true) :
    headerKeyChar c = true := by
  simp only [dottedKeyChar, headerKeyChar, Bool.or_eq_true, decide_eq_true_eq] at h ⊢
  tauto

/-- A token of a header: a word, blanks, and a long run of key characters. -/
theorem within_of_headerLength? (h : headerLength? s = some n) :
    ∃ word gap key, n = word + gap + key ∧ 20 ≤ key ∧ Within headerKeyChar word s ∧
      Within blank gap (s.drop word) ∧ Within headerKeyChar key (s.drop (word + gap)) := by
  obtain ⟨word, hword, h⟩ := Option.bind_eq_some_iff.mp h
  obtain ⟨gap, hgap, h⟩ := Option.bind_eq_some_iff.mp h
  obtain ⟨key, hkey, h⟩ := Option.bind_eq_some_iff.mp h
  obtain ⟨hlong, hkey⟩ := within_of_runOf? hkey
  refine ⟨word, gap, key, (Option.some.inj h).symm, hlong, ?_, (within_of_runOf? hgap).2, hkey⟩
  rcases hbot : leadLength? "Bot" s with - | m
  · rw [hbot] at hword
    exact within_of_leadLength? hword (by decide)
  · rw [hbot] at hword
    obtain rfl := Option.some.inj hword
    exact within_of_leadLength? hbot (by decide)

/-- A dotted token is made of key characters. -/
theorem within_of_dottedLength? (h : dottedLength? s = some n) : Within headerKeyChar n s := by
  obtain ⟨first, hfirst, h⟩ := Option.bind_eq_some_iff.mp h
  obtain ⟨dot, hdot, h⟩ := Option.bind_eq_some_iff.mp h
  obtain ⟨second, hsecond, h⟩ := Option.bind_eq_some_iff.mp h
  obtain ⟨dots, hdots, h⟩ := Option.bind_eq_some_iff.mp h
  obtain ⟨third, hthird, h⟩ := Option.bind_eq_some_iff.mp h
  obtain rfl := Option.some.inj h
  have hrun {least m : Nat} {s : List Char} (h : runOf? dottedKeyChar least s = some m) :
      Within headerKeyChar m s := (within_of_runOf? h).2.mono headerKeyChar_of_dotted
  have hstop {m : Nat} {s : List Char} (h : leadLength? "." s = some m) :
      Within headerKeyChar m s := within_of_leadLength? h (by decide)
  exact ((((hrun hfirst).add (hstop hdot)).add (hrun hsecond)).add (hstop hdots)).add
    (hrun hthird)

/-- An assignment of the bot's token goes on up to a blank. -/
theorem within_of_assignmentLength? (h : assignmentLength? s = some n) :
    "CHAINBOT_TOKEN=".toList <+: s ∧ Within (fun c => !blank c) n s := by
  obtain ⟨lead, hlead, h⟩ := Option.bind_eq_some_iff.mp h
  obtain ⟨value, hvalue, h⟩ := Option.bind_eq_some_iff.mp h
  obtain rfl := Option.some.inj h
  exact ⟨(prefix_of_leadLength? hlead).2,
    (within_of_leadLength? hlead (by decide)).add (within_of_runOf? hvalue).2⟩

/-! ## Free header words -/

/-- Nothing that stands at the end of a text takes a word behind it into a token: no key character
stands there, and no assignment goes on. -/
structure FreeEnd (x : List Char) : Prop where
  key : ∀ c, x.getLast? = some c → headerKeyChar c = false
  assignment : ∀ z, z <:+ x → (∀ c ∈ z, blank c = false) → ¬"CHAINBOT_TOKEN=".toList <+: z

theorem tokenLength?_cases (h : tokenLength? s = some n) :
    headerLength? s = some n ∨ dottedLength? s = some n ∨ assignmentLength? s = some n := by
  unfold tokenLength? at h
  rcases hheader : headerLength? s with - | m
  · rcases hdotted : dottedLength? s with - | m
    · rw [hheader, hdotted] at h
      exact .inr (.inr h)
    · rw [hheader, hdotted] at h
      exact .inr (.inl h)
  · rw [hheader] at h
    exact .inl h

theorem headerKeyChar_of_blank {c : Char} (h : blank c = true) : headerKeyChar c = false := by
  have hb : c.toNat ≤ 0x20 ∨ 0x85 ≤ c.toNat := by
    simp only [blank, Bool.or_eq_true, Bool.and_eq_true, decide_eq_true_eq, beq_iff_eq] at h
    omega
  have hne (d : Char) (hd : 0x20 < d.toNat ∧ d.toNat < 0x85) : c ≠ d := by
    rintro rfl
    omega
  have halpha : alphanumeric c = false := by
    rw [Bool.eq_false_iff]
    intro ha
    delta alphanumeric Char.isAlpha Char.isUpper Char.isLower Char.isDigit at ha
    simp only [Bool.or_eq_true, Bool.and_eq_true, decide_eq_true_eq, ge_iff_le,
      UInt32.le_iff_toNat_le] at ha
    have htoNat : c.toNat = c.val.toNat := rfl
    simp at ha
    omega
  simp [headerKeyChar, halpha, hne '_' (by decide), hne '.' (by decide), hne '/' (by decide),
    hne '-' (by decide)]

/-- The words of headers are short, begin with no blank, and are nothing of an assignment. -/
theorem headerWords_spec {lead : List Char} (h : lead ∈ headerWords) :
    0 < lead.length ∧ lead.length ≤ 6 ∧ ∀ c, lead[0]? = some c → blank c = false := by
  simp only [headerWords, List.mem_cons, List.not_mem_nil, or_false] at h
  rcases h with rfl | rfl
  · exact ⟨by decide, by decide, fun c hc => Option.some.inj hc ▸ rfl⟩
  · exact ⟨by decide, by decide, fun c hc => Option.some.inj hc ▸ rfl⟩

/-- **No token takes away a free header word**: a token that begins before the word ends before
it. -/
theorem tokenLength?_le {lead gap rest : List Char} (hx : FreeEnd x) (hz : z <:+ x) (hne : z ≠ [])
    (hlead : lead ∈ headerWords) (hgap : ∀ c ∈ gap, blank c = true) (hgap' : gap ≠ [])
    (h : tokenLength? (z ++ (lead ++ (gap ++ rest))) = some n) : n ≤ z.length := by
  obtain ⟨hpos, hshort, hfirst⟩ := headerWords_spec hlead
  obtain ⟨z', c, rfl⟩ : ∃ z' c, z = z' ++ [c] :=
    ⟨z.dropLast, z.getLast hne, (List.dropLast_append_getLast hne).symm⟩
  have hc : headerKeyChar c = false := by
    obtain ⟨x', rfl⟩ := hz
    exact hx.key c (by simp)
  -- What stands at the end of `z`, at the beginning of the word and at the beginning of the gap.
  have hend : (z' ++ [c] ++ (lead ++ (gap ++ rest)))[z'.length]? = some c := by simp
  obtain ⟨d, hd⟩ : ∃ d, lead[0]? = some d := ⟨lead[0], List.getElem?_eq_getElem hpos⟩
  have hword : (z' ++ [c] ++ (lead ++ (gap ++ rest)))[(z' ++ [c]).length]? = some d := by
    rw [List.getElem?_append_right (Nat.le_refl _), Nat.sub_self, List.getElem?_append_left hpos,
      hd]
  obtain ⟨g, gap', rfl⟩ := List.exists_cons_of_ne_nil hgap'
  have hblank : (z' ++ [c] ++ (lead ++ (g :: gap' ++ rest)))[(z' ++ [c]).length + lead.length]? =
      some g := by
    rw [List.getElem?_append_right (by omega), Nat.add_sub_cancel_left,
      List.getElem?_append_right (Nat.le_refl _), Nat.sub_self]
    rfl
  have hgkey : headerKeyChar g = false := headerKeyChar_of_blank (hgap g List.mem_cons_self)
  have hlength : (z' ++ [c]).length = z'.length + 1 := by simp
  rw [hlength] at hword hblank ⊢
  rw [← Nat.not_lt]
  intro hlt
  rcases tokenLength?_cases h with h | h | h
  · -- The end of `z` can only be in the gap of the header, which ends there, so that the word and
    -- the blank behind it would belong to the key.
    obtain ⟨word, gap, key, rfl, hlong, hfore, hbetween, hkey⟩ := within_of_headerLength? h
    have hle : word ≤ z'.length := by
      rw [← Nat.not_lt]
      intro hin
      exact absurd (hfore _ hin c hend) (by simp [hc])
    have hin : z'.length < word + gap := by
      rw [← Nat.not_le]
      intro hin
      exact absurd (hkey.drop_get hin (by omega) hend) (by simp [hc])
    have hover : word + gap ≤ z'.length + 1 := by
      rw [← Nat.not_lt]
      intro hover
      exact absurd (hbetween.drop_get (by omega) hover hword) (by simp [hfirst d hd])
    exact absurd (hkey.drop_get (by omega) (by omega) hblank) (by simp [hgkey])
  · exact absurd (within_of_dottedLength? h _ (by omega) c hend) (by simp [hc])
  · -- The assignment begins with `z`, or `z` ends within its name.
    obtain ⟨hpre, hvalue⟩ := within_of_assignmentLength? h
    rcases Nat.lt_or_ge z'.length 14 with hin | hlong
    · have hname : ("CHAINBOT_TOKEN=".toList.take 14).all headerKeyChar = true := by decide
      obtain ⟨r, hr⟩ := hpre
      rw [← hr, List.getElem?_append_left (Nat.lt_of_lt_of_le hin (by decide)),
        ← List.getElem?_take_of_lt hin] at hend
      exact absurd (List.all_eq_true.mp hname c (List.mem_of_getElem? hend)) (by simp [hc])
    · have hpre' : "CHAINBOT_TOKEN=".toList <+: z' ++ [c] := by
        refine List.prefix_of_prefix_length_le hpre (List.prefix_append _ _) ?_
        rw [hlength]
        exact Nat.succ_le_succ hlong
      refine hx.assignment _ hz (fun c' hc' => ?_) hpre'
      obtain ⟨i, hi⟩ := List.mem_iff_getElem?.mp hc'
      have hilt : i < (z' ++ [c]).length := (List.getElem?_eq_some_iff.mp hi).1
      rw [← List.getElem?_append_left hilt] at hi
      simpa using hvalue i (by omega) c' hi

/-! ## What is still to be skipped -/

/-- How much of a token is still to be skipped behind the first part of a text, where `n` characters
are at its beginning. -/
def pendingAfter : Nat → List Char → List Char → Nat
  | n, [], _ => n
  | n + 1, _ :: x, s => pendingAfter n x s
  | 0, c :: x, s => pendingAfter ((tokenLength? (c :: (x ++ s))).getD 1 - 1) x s

theorem pendingAfter_append (n : Nat) (x y s : List Char) :
    pendingAfter n (x ++ y) s = pendingAfter (pendingAfter n x (y ++ s)) y s := by
  induction x generalizing n with
  | nil => rw [List.nil_append, pendingAfter]
  | cons c x ih =>
    cases n with
    | zero => rw [List.cons_append, pendingAfter, pendingAfter, ih, List.append_assoc]
    | succ n => rw [List.cons_append, pendingAfter, pendingAfter, ih]

theorem pendingAfter_of_le (h : x.length ≤ n) (s : List Char) :
    pendingAfter n x s = n - x.length := by
  induction x generalizing n with
  | nil => rfl
  | cons c x ih =>
    rw [List.length_cons] at h ⊢
    obtain ⟨m, rfl⟩ : ∃ m, n = m + 1 := ⟨n - 1, by omega⟩
    rw [pendingAfter, ih (by omega)]
    omega

/-- Where every token ends before a text does, nothing is left to be skipped behind it. -/
theorem pendingAfter_eq_zero
    (h : ∀ z, z <:+ x → z ≠ [] → ∀ m, tokenLength? (z ++ s) = some m → m ≤ z.length)
    (hn : n ≤ x.length) : pendingAfter n x s = 0 := by
  induction x generalizing n with
  | nil => exact Nat.le_zero.mp hn
  | cons c x ih =>
    have ih {n : Nat} (hn : n ≤ x.length) : pendingAfter n x s = 0 :=
      ih (fun z hz => h z (hz.trans (List.suffix_cons c x))) hn
    cases n with
    | succ n => exact ih (Nat.le_of_succ_le_succ hn)
    | zero =>
      refine ih ?_
      cases htoken : tokenLength? (c :: (x ++ s)) with
      | none => exact Nat.zero_le _
      | some m =>
        have hm := h (c :: x) (List.suffix_refl _) (List.cons_ne_nil c x) m htoken
        exact Nat.sub_le_of_le_add hm

/-! ## What is shown -/

/-- A text that is longer than what stands before a character that it lacks stands behind it. -/
theorem infix_of_infix_append_cons {d : Char} {u v : List Char} (hd : d ∉ w)
    (hlong : u.length < w.length) (h : w <:+: u ++ d :: v) : w <:+: v := by
  obtain ⟨x, y, hxy⟩ := h
  rw [List.append_assoc] at hxy
  rcases List.append_eq_append_iff.mp hxy with ⟨m, rfl, hm⟩ | ⟨m, rfl, hm⟩
  · rcases List.append_eq_append_iff.mp hm with ⟨m', rfl, hm'⟩ | ⟨m', rfl, hm'⟩
    · simp only [List.length_append] at hlong
      omega
    · cases m' with
      | nil =>
        simp only [List.length_append, List.length_nil] at hlong
        omega
      | cons d' m' =>
        obtain ⟨rfl, -⟩ := List.cons_eq_cons.mp hm'
        simp at hd
  · cases m with
    | nil =>
      cases w with
      | nil => cases hlong
      | cons d' w =>
        obtain ⟨rfl, -⟩ := List.cons_eq_cons.mp hm
        simp at hd
    | cons d' m =>
      obtain ⟨-, hv⟩ := List.cons_eq_cons.mp hm
      exact ⟨m, y, by rw [List.append_assoc]; exact hv.symm⟩

/-- A text that shares nothing with a placeholder: it has no star, and is longer than what stands
between the stars. -/
structure Apart (w : List Char) : Prop where
  star : '*' ∉ w
  long : 8 < w.length

theorem SecretKey.apart (hw : SecretKey w) : Apart w where
  star h := by
    have hkey := hw.key _ h
    revert hkey
    decide
  long := Nat.lt_of_lt_of_le (by decide) hw.long

/-- No part of a placeholder belongs to a text that is shown and has no star. -/
theorem infix_of_infix_placeholder {l : List Char} (hw : Apart w)
    (h : w <:+: placeholder ++ l) : w <:+: l := by
  have hnone {v : List Char} (h : w <:+: '*' :: v) : w <:+: v :=
    infix_of_infix_append_cons (u := []) hw.star (Nat.lt_of_le_of_lt (Nat.zero_le 8) hw.long) h
  have hword {v : List Char} (h : w <:+: "REDACTED".toList ++ '*' :: v) : w <:+: v :=
    infix_of_infix_append_cons hw.star (Nat.lt_of_le_of_lt (by decide) hw.long) h
  exact hnone (hnone (hword (hnone (hnone (hnone h)))))

/-- What stands behind a placeholder begins behind it. -/
theorem exists_of_placeholder_append {u q l : List Char} (hw : Apart w)
    (h : placeholder ++ l = u ++ (w ++ q)) : ∃ u', l = u' ++ (w ++ q) := by
  rcases List.append_eq_append_iff.mp h with ⟨u', rfl, hl⟩ | ⟨r, hr, hl⟩
  · exact ⟨u', hl⟩
  · rcases List.append_eq_append_iff.mp hl with ⟨m, rfl, -⟩ | ⟨m, rfl, hm⟩
    · have hin : w <:+: placeholder ++ [] := ⟨u, m, by rw [hr, List.append_nil, List.append_assoc]⟩
      have hnil := List.infix_nil.mp (infix_of_infix_placeholder hw hin)
      exact absurd hw.long (by simp [hnil])
    · -- A text that began within the placeholder and went on behind it would have its last star.
      rcases List.eq_nil_or_concat r with rfl | ⟨r, c, rfl⟩
      · exact ⟨[], hm⟩
      · rw [List.concat_eq_append, ← List.append_assoc] at hr
        have hlast := congrArg List.getLast? hr
        rw [List.getLast?_concat] at hlast
        obtain rfl : '*' = c := Option.some.inj hlast
        exact absurd (by simp) hw.star

/-- Where a text is shown as it begins, no token begins. -/
theorem tokenLength?_eq_none {d : Char} {q : List Char} (hd : d ≠ '*')
    (h : scrubFrom 0 s = d :: q) : tokenLength? s = none := by
  cases s with
  | nil => cases h
  | cons c s =>
    unfold scrubFrom at h
    split at h
    · exact absurd (List.cons.inj h).1.symm hd
    · assumption

theorem exists_of_scrubFrom_append {q : List Char} (hw : '*' ∉ w) (h : scrubFrom 0 s = w ++ q) :
    ∃ b, s = w ++ b ∧ scrubFrom 0 b = q := by
  induction w generalizing s with
  | nil => exact ⟨s, rfl, h⟩
  | cons d w ih =>
    rw [List.mem_cons, not_or] at hw
    have hnone := tokenLength?_eq_none (Ne.symm hw.1) h
    cases s with
    | nil => cases h
    | cons c s =>
      unfold scrubFrom at h
      rw [hnone] at h
      obtain ⟨rfl, htail⟩ := List.cons.inj h
      obtain ⟨b, rfl, hb⟩ := ih hw.2 htail
      exact ⟨b, rfl, hb⟩

/-- **What is shown of a text stands in it**, and begins where nothing is left to be skipped. -/
theorem exists_of_scrubFrom {u q : List Char} (hw : Apart w)
    (h : scrubFrom n s = u ++ (w ++ q)) :
    ∃ a t, s = a ++ t ∧ pendingAfter n a t = 0 ∧ scrubFrom 0 t = w ++ q := by
  induction s generalizing n u with
  | nil =>
    have hnil : w = [] := by simp_all [scrubFrom]
    exact absurd hw.long (by simp [hnil])
  | cons c s ih =>
    -- Where the text is shown behind the first character, it stands there.
    have hbehind {m : Nat} {u : List Char} (hm : ∀ a t, s = a ++ t →
          pendingAfter n (c :: a) t = pendingAfter m a t)
        (h : scrubFrom m s = u ++ (w ++ q)) :
        ∃ a t, c :: s = a ++ t ∧ pendingAfter n a t = 0 ∧ scrubFrom 0 t = w ++ q := by
      obtain ⟨a, t, hab, hpending, hshown⟩ := ih h
      exact ⟨c :: a, t, by rw [hab, List.cons_append], by rw [hm a t hab, hpending], hshown⟩
    cases n with
    | succ n => exact hbehind (fun _ _ _ => rfl) h
    | zero =>
      have hshown := h
      unfold scrubFrom at h
      split at h
      next m hm =>
        obtain ⟨u', hu'⟩ := exists_of_placeholder_append hw h
        refine hbehind (fun a t hab => ?_) hu'
        rw [pendingAfter, ← hab, hm, Option.getD_some]
      next hnone =>
        cases u with
        | nil => exact ⟨[], c :: s, rfl, rfl, hshown⟩
        | cons d u =>
          refine hbehind (fun a t hab => ?_) (List.cons.inj h).2
          rw [pendingAfter, ← hab, hnone, Option.getD_none]

/-- What is shown of a text stands in it, outside its tokens. -/
theorem exists_of_infix_scrubFrom (hw : SecretKey w) (h : w <:+: scrubFrom n s) :
    ∃ a b, s = a ++ (w ++ b) ∧ pendingAfter n a (w ++ b) = 0 := by
  obtain ⟨u, q, hq⟩ := h
  rw [List.append_assoc] at hq
  obtain ⟨a, t, rfl, hpending, hshown⟩ := exists_of_scrubFrom hw.apart hq.symm
  obtain ⟨b, rfl, -⟩ := exists_of_scrubFrom_append hw.apart.star hshown
  exact ⟨a, b, rfl, hpending⟩

/-! ## Shielded keys -/

/-- A key stands behind a free header word, and nothing but the key. -/
structure ShieldedAt (a b : List Char) : Prop where
  header : ∃ x lead gap, a = x ++ (lead ++ gap) ∧ FreeEnd x ∧ lead ∈ headerWords ∧ gap ≠ [] ∧
    ∀ c ∈ gap, blank c = true
  ends : ∀ c, b.head? = some c → headerKeyChar c = false

/-- A key stands in a text behind free header words alone. -/
def Shielded (w t : List Char) : Prop := ∀ a b, t = a ++ (w ++ b) → ShieldedAt a b

/-- A key that is found at one place only is shielded if it stands behind a header there, with no
assignment in front of it. -/
theorem shielded_of_once (x lead gap b : List Char)
    (h : (∀ n ≤ (x ++ (lead ++ gap) ++ (w ++ b)).length,
        w <+: (x ++ (lead ++ gap) ++ (w ++ b)).drop n → n = (x ++ (lead ++ gap)).length) ∧
      ¬"CHAINBOT_TOKEN=".toList <:+: x ∧ x.getLast?.all (!headerKeyChar ·) = true ∧
      lead ∈ headerWords ∧ gap ≠ [] ∧ gap.all blank = true ∧
      b.head?.all (!headerKeyChar ·) = true) :
    Shielded w (x ++ (lead ++ gap) ++ (w ++ b)) := by
  obtain ⟨honce, hassign, hkey, hlead, hgap, hblank, hend⟩ := h
  intro a b' hab
  have hlength : a.length = (x ++ (lead ++ gap)).length := by
    refine honce a.length ?_ ?_
    · rw [hab, List.length_append]
      exact Nat.le_add_right _ _
    · rw [hab, List.drop_left]
      exact List.prefix_append w b'
  obtain ⟨rfl, hrest⟩ := List.append_inj hab hlength.symm
  obtain rfl := List.append_cancel_left hrest
  have hfree {o : Option Char} (ho : o.all (!headerKeyChar ·) = true) (c : Char)
      (hc : o = some c) : headerKeyChar c = false := by
    subst hc
    simpa using ho
  refine ⟨⟨x, lead, gap, rfl, ⟨hfree hkey, ?_⟩, hlead, hgap, List.all_eq_true.mp hblank⟩,
    hfree hend⟩
  intro z hz _ hstart
  exact hassign (hstart.isInfix.trans hz.isInfix)

theorem runOf?_append {least : Nat} {u v : List Char} (hu : ∀ c ∈ u, p c = true)
    (hv : ∀ c, v.head? = some c → p c = false) (hle : least ≤ u.length) :
    runOf? p least (u ++ v) = some u.length := by
  have hstop : v.takeWhile p = [] := by
    cases v with
    | nil => rfl
    | cons c v => exact List.takeWhile_cons_of_neg (by simp [hv c rfl])
  have hrun : runLength p (u ++ v) = u.length := by
    rw [runLength, List.takeWhile_append_of_pos hu, hstop, List.append_nil]
  rw [runOf?, hrun, if_pos hle]

theorem leadLength?_of_headerWords {lead rest : List Char} (h : lead ∈ headerWords) :
    (leadLength? "Bot" (lead ++ rest) <|> leadLength? "Bearer" (lead ++ rest)) =
      some lead.length := by
  simp only [headerWords, List.mem_cons, List.not_mem_nil, or_false] at h
  rcases h with rfl | rfl
  · simp [leadLength?, List.isPrefixOf]
  · simp [leadLength?, List.isPrefixOf]

/-- A header is found where its word stands. -/
theorem headerLength?_of_header {lead gap b : List Char} (hw : SecretKey w)
    (hlead : lead ∈ headerWords) (hgap : ∀ c ∈ gap, blank c = true) (hgap' : gap ≠ [])
    (hb : ∀ c, b.head? = some c → headerKeyChar c = false) :
    headerLength? (lead ++ (gap ++ (w ++ b))) = some (lead.length + gap.length + w.length) := by
  have hstart (c : Char) (hc : (w ++ b).head? = some c) : blank c = false := by
    obtain ⟨d, w', rfl⟩ : ∃ d w', w = d :: w' :=
      List.exists_cons_of_ne_nil (by rintro rfl; exact absurd hw.long (by decide))
    obtain rfl := Option.some.inj hc
    rw [← Bool.not_eq_true]
    intro hblank
    exact absurd (hw.key d List.mem_cons_self) (by simp [headerKeyChar_of_blank hblank])
  have hgapRun : runOf? blank 1 (gap ++ (w ++ b)) = some gap.length :=
    runOf?_append hgap hstart (List.length_pos_iff.mpr hgap')
  have hkeyRun := runOf?_append hw.key hb hw.long
  rw [headerLength?, leadLength?_of_headerWords hlead]
  simp only [Option.bind_eq_bind, Option.bind_some, List.drop_left, hgapRun]
  rw [← List.length_append, ← List.append_assoc, List.drop_left, hkeyRun]
  rfl

/-- **A shielded key is not shown**, whatever else there is in the text. -/
theorem not_infix_scrubFrom (hw : SecretKey w) (h : Shielded w t) : ¬w <:+: scrubFrom 0 t := by
  intro hin
  obtain ⟨a, b, rfl, hpending⟩ := exists_of_infix_scrubFrom hw hin
  obtain ⟨⟨x, lead, gap, rfl, hx, hlead, hgap', hgap⟩, hb⟩ := h a b rfl
  -- Nothing is left to be skipped at the word, where the header is found, so that all of it is
  -- skipped and the whole key is left behind the gap.
  have hfree : pendingAfter 0 x (lead ++ gap ++ (w ++ b)) = 0 := by
    refine pendingAfter_eq_zero (fun z hz hne m hm => ?_) (Nat.zero_le _)
    rw [List.append_assoc] at hm
    exact tokenLength?_le hx hz hne hlead hgap hgap' hm
  obtain ⟨c, lead', rfl⟩ := List.exists_cons_of_ne_nil
    (List.length_pos_iff.mp (headerWords_spec hlead).1)
  have htoken : tokenLength? (c :: (lead' ++ gap ++ (w ++ b))) =
      some ((c :: lead').length + gap.length + w.length) := by
    have hheader := headerLength?_of_header hw hlead hgap hgap' hb
    rw [tokenLength?, List.append_assoc, ← List.cons_append, hheader]
    rfl
  have hskip : pendingAfter 0 (c :: lead' ++ gap) (w ++ b) = w.length := by
    rw [List.cons_append, pendingAfter, htoken, Option.getD_some, pendingAfter_of_le]
    · simp only [List.length_cons, List.length_append]
      omega
    · simp only [List.length_cons, List.length_append]
      omega
  rw [pendingAfter_append, hfree, hskip] at hpending
  exact absurd hw.long (by omega)

/-! ## Fields -/

mutual

/-- All texts of a setting. -/
def Setting.texts : Setting → List String
  | .scalar (.text s) => [s]
  | .scalar _ => []
  | .list items => textsOfItems items
  | .table fields => textsOfFields fields

/-- All texts of the items of a list. -/
def textsOfItems : List Setting → List String
  | [] => []
  | v :: vs => v.texts ++ textsOfItems vs

/-- All texts of the fields of a table, with their names. -/
def textsOfFields : Fields → List String
  | [] => []
  | (n, v) :: fs => n :: (v.texts ++ textsOfFields fs)

end

/-- A setting shows a key somewhere in it. -/
def Setting.Shows (w : List Char) (v : Setting) : Prop := ∃ s ∈ v.texts, w <:+: s.toList

/-- A setting that can be reported: a text in which the key is shielded, or anything that does not
show the key. -/
def Setting.Keeps (w : List Char) : Setting → Prop
  | .scalar (.text s) => Shielded w s.toList
  | v => ¬v.Shows w

variable {v : Setting}

theorem mem_textsOfItems {s : String} {items : List Setting} :
    s ∈ textsOfItems items ↔ ∃ v ∈ items, s ∈ v.texts := by
  induction items with
  | nil => simp [textsOfItems]
  | cons v vs ih => simp [textsOfItems, ih]

theorem mem_textsOfFields {s : String} {fields : Fields} :
    s ∈ textsOfFields fields ↔ ∃ f ∈ fields, s = f.1 ∨ s ∈ f.2.texts := by
  induction fields with
  | nil => simp [textsOfFields]
  | cons f fs ih =>
    obtain ⟨n, v⟩ := f
    simp [textsOfFields, ih, or_assoc]

theorem Setting.shows_text {s : String} : (Setting.text s).Shows w ↔ w <:+: s.toList := by
  simp [Shows, texts]

theorem Setting.shows_list {items : List Setting} :
    (Setting.list items).Shows w ↔ ∃ v ∈ items, v.Shows w := by
  simp only [Shows, texts, mem_textsOfItems]
  constructor
  · rintro ⟨s, ⟨v, hv, hs⟩, hw⟩
    exact ⟨v, hv, s, hs, hw⟩
  · rintro ⟨v, hv, s, hs, hw⟩
    exact ⟨s, ⟨v, hv, hs⟩, hw⟩

theorem Setting.shows_table {fields : Fields} :
    (Setting.table fields).Shows w ↔ ∃ f ∈ fields, w <:+: f.1.toList ∨ f.2.Shows w := by
  simp only [Shows, texts, mem_textsOfFields]
  constructor
  · rintro ⟨s, ⟨f, hf, rfl | hs⟩, hw⟩
    · exact ⟨f, hf, .inl hw⟩
    · exact ⟨f, hf, .inr ⟨s, hs, hw⟩⟩
  · rintro ⟨f, hf, hw | ⟨s, hs, hw⟩⟩
    · exact ⟨f.1, ⟨f, hf, .inl rfl⟩, hw⟩
    · exact ⟨s, ⟨f, hf, .inr hs⟩, hw⟩

theorem Setting.keeps_of_not_shows (h : ¬v.Shows w) : v.Keeps w := by
  cases v with
  | scalar v =>
    cases v with
    | text s =>
      intro a b hab
      exact absurd (shows_text.mpr ⟨a, b, by rw [List.append_assoc, ← hab]⟩) h
    | _ => exact h
  | _ => exact h

/-- **What can be reported shows no key** once it is redacted. -/
theorem not_shows_scrubValue (hw : SecretKey w) (h : v.Keeps w) : ¬(scrubValue v).Shows w := by
  cases v with
  | scalar v =>
    cases v with
    | text s =>
      rw [scrubValue, Setting.shows_text, scrub, String.toList_ofList]
      exact not_infix_scrubFrom hw h
    | _ => exact h
  | _ => exact h

/-- A field of an event that can be reported: items of a list are looked at one by one. -/
def Setting.FieldKeeps (w : List Char) : Setting → Prop
  | .list items => ∀ v ∈ items, v.Keeps w
  | v => v.Keeps w

theorem Setting.Keeps.field (h : v.Keeps w) : v.FieldKeeps w := by
  cases v with
  | list items => exact fun v hv => keeps_of_not_shows fun hs => h (shows_list.mpr ⟨v, hv, hs⟩)
  | _ => exact h

/-- A field that can be reported shows no key once the event is redacted. -/
theorem not_shows_sanitizeField (hw : SecretKey w) (h : v.FieldKeeps w) :
    ¬(sanitizeField v).Shows w := by
  cases v with
  | list items =>
    rw [sanitizeField, Setting.shows_list]
    rintro ⟨v, hv, hs⟩
    obtain ⟨v', hv', rfl⟩ := List.mem_map.mp hv
    exact not_shows_scrubValue hw (h v' hv') hs
  | table fields =>
    rw [sanitizeField, Setting.shows_table]
    rintro ⟨f, hf, hs⟩
    obtain ⟨f', hf', rfl⟩ := List.mem_map.mp hf
    rcases hs with hs | hs
    · exact h (Setting.shows_table.mpr ⟨f', hf', .inl hs⟩)
    · refine not_shows_scrubValue hw (Setting.keeps_of_not_shows fun hv => ?_) hs
      exact h (Setting.shows_table.mpr ⟨f', hf', .inr hv⟩)
  | scalar v => exact not_shows_scrubValue hw h

end ChatCommands
