/-!
# Marks in texts

A mark is a text that is looked for in another one. In a template every occurrence of a mark stands
for a value. Occurrences are taken from the left and do not overlap.

## Main definitions

* `afterFirst mark s`, `occursIn mark s`: what stands behind the first occurrence, and whether there
  is one
* `fillChars mark value t`, `fill mark value t`: the template with every mark replaced
* `OnlyMarks mark t`: the text consists of marks

## Main results

* `fillChars_mark`: a mark at the beginning of a template is replaced
* `fill_eq_empty_iff`: what comes of a template is empty only if it consists of marks
-/

namespace ChatCommands

/-! ## Occurrences -/

/-- What stands behind the first occurrence of a mark. -/
def afterFirst (mark : List Char) : List Char → Option (List Char)
  | [] => if mark.isEmpty then some [] else none
  | c :: s =>
    if mark.isPrefixOf (c :: s) then some ((c :: s).drop mark.length) else afterFirst mark s

/-- Whether a text occurs in another. -/
def occursIn (mark s : String) : Bool := (afterFirst mark.toList s.toList).isSome

/-! ## Templates -/

/-- The template with every mark replaced, where so many characters of a mark that was replaced are
still to be passed. -/
def fillFrom (mark value : List Char) : Nat → List Char → List Char
  | _, [] => []
  | n + 1, _ :: t => fillFrom mark value n t
  | 0, c :: t =>
    if mark.isPrefixOf (c :: t) then value ++ fillFrom mark value (mark.length - 1) t
    else c :: fillFrom mark value 0 t

/-- The template with every mark replaced. -/
def fillChars (mark value t : List Char) : List Char := fillFrom mark value 0 t

/-- The template with every mark replaced. -/
def fill (mark value template : String) : String :=
  String.ofList (fillChars mark.toList value.toList template.toList)

theorem fillFrom_eq_drop (mark value : List Char) (n : Nat) (t : List Char) :
    fillFrom mark value n t = fillFrom mark value 0 (t.drop n) := by
  induction n generalizing t with
  | zero => rfl
  | succ n ih =>
    cases t with
    | nil => rfl
    | cons c t => exact ih t

/-- A mark at the beginning is replaced. -/
theorem fillChars_mark {mark : List Char} (hm : mark ≠ []) (value t : List Char) :
    fillChars mark value (mark ++ t) = value ++ fillChars mark value t := by
  obtain ⟨c, m, rfl⟩ := List.exists_cons_of_ne_nil hm
  have hp : (c :: m).isPrefixOf (c :: (m ++ t)) = true :=
    List.isPrefixOf_iff_prefix.mpr (List.prefix_append (c :: m) t)
  rw [fillChars, List.cons_append, fillFrom, if_pos hp, fillFrom_eq_drop]
  congr 2
  exact List.drop_left' rfl

/-- A text consists of marks alone, of at least one. -/
def OnlyMarks (mark t : List Char) : Prop := ∃ n, t = (List.replicate (n + 1) mark).flatten

theorem onlyMarks_append {mark t : List Char} (h : t = [] ∨ OnlyMarks mark t) :
    OnlyMarks mark (mark ++ t) := by
  obtain rfl | ⟨n, rfl⟩ := h
  · exact ⟨0, by simp⟩
  · exact ⟨n + 1, rfl⟩

theorem fillChars_eq_nil_iff {mark : List Char} (hm : mark ≠ []) (value t : List Char) :
    fillChars mark value t = [] ↔ t = [] ∨ value = [] ∧ OnlyMarks mark t := by
  constructor
  · intro h
    -- Induction on the length: at the first character there is a mark, or the character stays.
    induction hn : t.length using Nat.strongRecOn generalizing t with
    | ind n ih =>
      rcases t with - | ⟨c, t⟩
      · exact .inl rfl
      by_cases hp : mark.isPrefixOf (c :: t) = true
      · obtain ⟨rest, hrest⟩ := List.isPrefixOf_iff_prefix.mp hp
        rw [← hrest] at h hn ⊢
        rw [fillChars_mark hm, List.append_eq_nil_iff] at h
        have hlt : rest.length < n := by
          have hpos := List.length_pos_iff.mpr hm
          rw [List.length_append] at hn
          omega
        refine .inr ⟨h.1, onlyMarks_append ?_⟩
        exact (ih _ hlt rest h.2 rfl).imp_right And.right
      · rw [fillChars, fillFrom, if_neg hp] at h
        cases h
  · rintro (rfl | ⟨rfl, n, rfl⟩)
    · rfl
    · have hmarks (k : Nat) : fillChars mark [] (List.replicate k mark).flatten = [] := by
        induction k with
        | zero => rfl
        | succ k ih =>
          rw [List.replicate_succ, List.flatten_cons, fillChars_mark hm, ih]
          rfl
      exact hmarks _

/-- **What comes of a template** is empty only if it is empty itself, or if it consists of marks and
they stand for nothing. -/
theorem fill_eq_empty_iff {mark : String} (hm : mark ≠ "") (value t : String) :
    fill mark value t = "" ↔ t = "" ∨ value = "" ∧ OnlyMarks mark.toList t.toList := by
  have hm' : mark.toList ≠ [] := mt String.toList_eq_nil_iff.mp hm
  rw [fill, ← String.toList_eq_nil_iff, String.toList_ofList, fillChars_eq_nil_iff hm',
    String.toList_eq_nil_iff, String.toList_eq_nil_iff]

end ChatCommands
