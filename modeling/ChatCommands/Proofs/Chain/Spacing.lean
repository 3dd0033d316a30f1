import Mathlib.Data.List.TakeWhile
import ChatCommands.Chain.Parse

/-!
# Words and the blanks between them

In simple mode all that matters of a text is its words. A text is taken apart into the blanks in
front of it and its words, each with the blanks behind it: there is at least one of them between two
words, and there may be none behind the last one. Every text can be taken apart in exactly one way,
and whatever blanks are chosen, the words are what is read.

## Main definitions

* `Spaced`: words with blanks behind each of them
* `Spacing`: a text taken apart
* `Spacing.text`, `Spacing.words`: the text that it is, and the words in it

## Main results

* `Spacing.words_text`: the words of the text are those that it was put together from
* `Spacing.exists_text`, `Spacing.text_injective`: every text can be taken apart, in one way only
* `parseSimple_spacing`: simple parsing finds the words of a text, of which there is one spacing
-/

namespace ChatCommands

/-- Words, each with the blanks behind it. A word is not empty and holds no blank, and no word
touches the next one. -/
inductive Spaced : List (List Char × List Char) → Prop where
  | nil : Spaced []
  | cons {word gap : List Char} {rest : List (List Char × List Char)} (hne : word ≠ [])
      (hword : ∀ c ∈ word, blank c = false) (hgap : ∀ c ∈ gap, blank c = true)
      (hapart : rest ≠ [] → gap ≠ []) (h : Spaced rest) :
    Spaced ((word, gap) :: rest)

/-- A text taken apart into the blanks in front of it and its words, with the blanks behind each of
them. -/
@[ext]
structure Spacing where
  lead : List Char
  pieces : List (List Char × List Char)
  lead_blank : ∀ c ∈ lead, blank c = true
  spaced : Spaced pieces

/-- The text of words and blanks. -/
def spacedText (pieces : List (List Char × List Char)) : List Char :=
  pieces.flatMap fun p => p.1 ++ p.2

namespace Spacing

/-- The text that was taken apart. -/
def text (d : Spacing) : List Char := d.lead ++ spacedText d.pieces

/-- The words of the text. -/
def words (d : Spacing) : List (List Char) := d.pieces.map Prod.fst

end Spacing

/-! ## Where words and blanks begin -/

section Spaced

variable {word gap : List Char} {pieces rest : List (List Char × List Char)}

@[simp] theorem spacedText_cons :
    spacedText ((word, gap) :: rest) = word ++ (gap ++ spacedText rest) := by
  simp [spacedText]

/-- Words with their blanks begin with a character that is not blank. -/
theorem Spaced.head_solid (h : Spaced pieces) :
    ∀ c ∈ (spacedText pieces).head?, blank c = false := by
  cases h with
  | nil => nofun
  | @cons word gap rest hne hword hgap hapart h =>
    obtain ⟨c, word, rfl⟩ := List.exists_cons_of_ne_nil hne
    simpa using hword c List.mem_cons_self

/-- Behind a word there is a blank or nothing. -/
theorem head_blank (hgap : ∀ c ∈ gap, blank c = true) (hapart : rest ≠ [] → gap ≠ []) :
    ∀ c ∈ (gap ++ spacedText rest).head?, blank c = true := by
  rcases gap with - | ⟨c, gap⟩
  · obtain rfl : rest = [] := Classical.byContradiction fun h => hapart h rfl
    nofun
  · simpa using hgap c List.mem_cons_self

theorem Spaced.eq_nil (h : Spaced pieces) (ht : spacedText pieces = []) : pieces = [] := by
  cases h with
  | nil => rfl
  | cons hne hword hgap hapart h =>
    rw [spacedText_cons] at ht
    exact absurd (List.append_eq_nil_iff.mp ht).1 hne

end Spaced

/-! ## The words of a spaced text -/

section Words

variable {word gap s : List Char}

/-- Leading blanks leave no trace. -/
theorem words_append_of_blank (hgap : ∀ c ∈ gap, blank c = true) (s : List Char) :
    words (gap ++ s) = words s := by
  induction gap with
  | nil => rfl
  | cons c gap ih =>
    obtain ⟨hc, hgap⟩ := List.forall_mem_cons.mp hgap
    rw [List.cons_append, words_blank hc, ih hgap]

/-- What is not blank goes on with a word. -/
theorem wordsFrom_append_of_solid (hword : ∀ c ∈ word, blank c = false) (w s : List Char) :
    wordsFrom w (word ++ s) = wordsFrom (w ++ word) s := by
  induction word generalizing w with
  | nil => simp
  | cons c word ih =>
    obtain ⟨hc, hword⟩ := List.forall_mem_cons.mp hword
    rw [List.cons_append, wordsFrom, if_neg (by simp [hc]), ih hword, List.append_assoc,
      List.singleton_append]

/-- A word ends at a blank and at the end of the text. -/
theorem wordsFrom_of_ends (hne : word ≠ []) (hs : ∀ c ∈ s.head?, blank c = true) :
    wordsFrom word s = word :: words s := by
  rcases s with - | ⟨c, s⟩
  · simp [wordsFrom, hne]
  · have hc : blank c = true := hs c rfl
    rw [words_blank hc, wordsFrom, if_pos hc, if_neg (by simpa using hne)]
    rfl

theorem Spaced.words_spacedText {pieces : List (List Char × List Char)} (h : Spaced pieces) :
    ChatCommands.words (spacedText pieces) = pieces.map Prod.fst := by
  induction h with
  | nil => rfl
  | @cons word gap rest hne hword hgap hapart _ ih =>
    rw [spacedText_cons, ChatCommands.words, wordsFrom_append_of_solid hword, List.nil_append,
      wordsFrom_of_ends hne (head_blank hgap hapart), words_append_of_blank hgap, ih]
    rfl

end Words

namespace Spacing

/-- The words of a text are those that it was put together from, whatever blanks were chosen. -/
theorem words_text (d : Spacing) : ChatCommands.words d.text = d.words := by
  rw [text, words_append_of_blank d.lead_blank, d.spaced.words_spacedText]
  rfl

/-! ## One spacing of every text -/

/-- Every text can be taken apart, character by character from its end. A character that is not
blank goes on with the first word if it touches it, and is a word of its own otherwise. -/
theorem exists_text (s : List Char) : ∃ d : Spacing, d.text = s := by
  induction s with
  | nil => exact ⟨⟨[], [], nofun, .nil⟩, rfl⟩
  | cons c s ih =>
    obtain ⟨⟨lead, pieces, hlead, hspaced⟩, rfl⟩ := ih
    rcases hc : blank c with - | -
    · have hsolid : ∀ x ∈ [c], blank x = false := by simpa using hc
      by_cases htouch : pieces ≠ [] → lead ≠ []
      · refine ⟨⟨[], ([c], lead) :: pieces, nofun, ?_⟩, by simp [text]⟩
        exact .cons (List.cons_ne_nil c []) hsolid hlead htouch hspaced
      · obtain ⟨hne, rfl⟩ : pieces ≠ [] ∧ lead = [] := by simpa using htouch
        cases hspaced with
        | nil => exact absurd rfl hne
        | @cons word gap rest _ hword hgap hapart h =>
          refine ⟨⟨[], (c :: word, gap) :: rest, nofun, ?_⟩, by simp [text]⟩
          exact .cons (List.cons_ne_nil c word) (List.forall_mem_cons.mpr ⟨hc, hword⟩) hgap hapart h
    · exact ⟨⟨c :: lead, pieces, List.forall_mem_cons.mpr ⟨hc, hlead⟩, hspaced⟩, by simp [text]⟩

/-- Where a run of one kind of characters ends is told by the text. -/
theorem append_inj_of_head {p : Char → Bool} {a b s t : List Char} (ha : ∀ c ∈ a, p c = true)
    (hb : ∀ c ∈ b, p c = true) (hs : ∀ c ∈ s.head?, p c = false) (ht : ∀ c ∈ t.head?, p c = false)
    (h : a ++ s = b ++ t) : a = b ∧ s = t := by
  have hrun {a s : List Char} (ha : ∀ c ∈ a, p c = true) (hs : ∀ c ∈ s.head?, p c = false) :
      (a ++ s).takeWhile p = a := by
    rw [List.takeWhile_append_of_pos ha]
    rcases s with - | ⟨c, s⟩
    · exact List.append_nil a
    · rw [List.takeWhile_cons_of_neg (by simp [hs c rfl]), List.append_nil]
  obtain rfl : a = b := by rw [← hrun ha hs, h, hrun hb ht]
  exact ⟨rfl, List.append_cancel_left h⟩

theorem eq_of_spacedText {ps qs : List (List Char × List Char)} (hp : Spaced ps) (hq : Spaced qs)
    (h : spacedText ps = spacedText qs) : ps = qs := by
  induction hp generalizing qs with
  | nil => exact (hq.eq_nil h.symm).symm
  | @cons word gap rest hne hword hgap hapart hrest ih =>
    cases hq with
    | nil => exact (Spaced.cons hne hword hgap hapart hrest).eq_nil h
    | @cons word' gap' rest' _ hword' hgap' hapart' hrest' =>
      -- First where the word ends, then where the blanks behind it end.
      rw [spacedText_cons, spacedText_cons] at h
      have hsolid {w : List Char} (hw : ∀ c ∈ w, blank c = false) :
          ∀ c ∈ w, (!blank c) = true := fun c hc => by simp [hw c hc]
      have hends {s : List Char} (hs : ∀ c ∈ s.head?, blank c = true) :
          ∀ c ∈ s.head?, (!blank c) = false := fun c hc => by simp [hs c hc]
      obtain ⟨rfl, hbehind⟩ := append_inj_of_head (hsolid hword) (hsolid hword')
        (hends (head_blank hgap hapart)) (hends (head_blank hgap' hapart')) h
      obtain ⟨rfl, hnext⟩ := append_inj_of_head hgap hgap' hrest.head_solid hrest'.head_solid
        hbehind
      rw [ih hrest' hnext]

/-- A text can be taken apart in one way only. -/
theorem text_injective : Function.Injective text := by
  intro d e h
  obtain ⟨hlead, h⟩ := append_inj_of_head d.lead_blank e.lead_blank d.spaced.head_solid
    e.spaced.head_solid h
  exact Spacing.ext hlead (eq_of_spacedText d.spaced e.spaced h)

end Spacing

/-- **Simple parsing finds the words**: a text that is put together from words, with any blanks
between and around them, is read as the invocation of the first word with the others for its
arguments, and as nothing if there are no words. Every text is put together in this way, in exactly
one. -/
theorem parseSimple_spacing :
    (∀ d : Spacing, parseSimple (String.ofList d.text) =
      match d.words with
      | [] => []
      | w :: ws => [.call (String.ofList w) (ws.map fun v => [.text (String.ofList v)])]) ∧
    ∀ text : String, ∃! d : Spacing, String.ofList d.text = text := by
  constructor
  · intro d
    rw [parseSimple, String.toList_ofList, d.words_text]
    rcases d.words with - | ⟨w, ws⟩ <;> rfl
  · intro text
    obtain ⟨d, hd⟩ := Spacing.exists_text text.toList
    refine ⟨d, (congrArg String.ofList hd).trans String.ofList_toList, ?_⟩
    rintro e rfl
    refine Spacing.text_injective ?_
    rw [hd, String.toList_ofList]

/-- Separators of any kind are blank, and a space without width is not. -/
example : words ['\t', 'a', '\u2003', '\x1c', 'b', '\u200b', ' '] = [['a'], ['b', '\u200b']] := by
  decide

end ChatCommands
