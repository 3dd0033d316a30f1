/-!
# Blank characters and words

A character is blank when the Unicode standard gives it one of the separating classes or
bidirectional types: the ASCII blanks and separators, the no-break space and the spaces of
fixed width. Words are the maximal runs without a blank.

## Main definitions

* `blank c`: the character separates words
* `whiteSpace c`: the character has the White_Space property, which the ASCII separators lack
* `trim p s`: a text without the characters of a class at its ends
* `isBlankText`: texts of blanks only
* `words s`: the maximal runs of `s` without a blank, in order

## Main results

* `words_blank`: a leading blank leaves no trace
-/

namespace ChatCommands

/-- The separating characters of the Unicode standard. -/
def blank (c : Char) : Bool :=
  let n := c.toNat
  (0x09 ≤ n && n ≤ 0x0D) || (0x1C ≤ n && n ≤ 0x20) || n == 0x85 || n == 0xA0 || n == 0x1680 ||
    (0x2000 ≤ n && n ≤ 0x200A) || n == 0x2028 || n == 0x2029 || n == 0x202F || n == 0x205F ||
    n == 0x3000

/-- The characters with the White_Space property: all blanks but the four ASCII separators. -/
def whiteSpace (c : Char) : Bool := blank c && !(0x1C ≤ c.toNat && c.toNat ≤ 0x1F)

/-- A text without the characters of a class at its ends. -/
def trim (p : Char → Bool) (s : List Char) : List Char :=
  ((s.dropWhile p).reverse.dropWhile p).reverse

/-- A text that holds no character but blanks. -/
def isBlankText (s : List Char) : Bool := s.all blank

/-- The words of a text that continues the word `w`. -/
def wordsFrom (w : List Char) : List Char → List (List Char)
  | [] => if w.isEmpty then [] else [w]
  | c :: s =>
    if blank c then
      if w.isEmpty then wordsFrom [] s else w :: wordsFrom [] s
    else wordsFrom (w ++ [c]) s

/-- The maximal runs without a blank, in order. -/
def words (s : List Char) : List (List Char) := wordsFrom [] s

@[simp] theorem words_nil : words [] = [] := rfl

/-- A leading blank leaves no trace. -/
@[simp] theorem words_blank {c : Char} (h : blank c) (s : List Char) :
    words (c :: s) = words s := by
  simp [words, wordsFrom, h]

end ChatCommands
