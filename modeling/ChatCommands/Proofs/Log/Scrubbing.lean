import ChatCommands.Proofs.Log.Tokens

/-!
# What scrubbing leaves

A scrubbed text holds no token. What is shown of a text was passed by the search, and nothing that
is put in the place of tokens makes a new one: no token but an assignment has a star in it, and
where the name of an assignment is shown, nothing can be shown behind it that was not a blank in the
text. So scrubbing a text twice is the same as scrubbing it once, and a text without tokens stays as
it is.

An event is a table of settings. Down to the items of its lists and tables its texts are scrubbed,
and all else stays: its names, the lengths of its lists, what is no text, and whatever lies deeper.

## Main definitions

* `Setting.at?`: what a setting holds at a path
* `Setting.node`: what a setting is apart from what it holds

## Main results

* `IsToken.not_infix_scrubFrom`: a scrubbed text holds no token
* `node_sanitize`: what an event is at every path, once it is sanitized
* `scrub_clean`: scrubbing leaves no token and changes nothing else
-/

namespace ChatCommands

variable {s w : List Char} {n : Nat} {c : Char}

/-! ## Texts -/

/-- What is shown as it begins with a character that is not blank begins so in the text. -/
theorem exists_of_scrubFrom_cons {q : List Char} (hc : blank c = false)
    (h : scrubFrom 0 s = c :: q) : ∃ d s', s = d :: s' ∧ blank d = false := by
  cases s with
  | nil => cases h
  | cons d s =>
    refine ⟨d, s, rfl, ?_⟩
    unfold scrubFrom at h
    split at h
    next m hm =>
      -- A token is replaced, and none begins with a blank.
      obtain ⟨-, -, -, -, -, hd, -⟩ := exists_of_tokenLength?_cons hm
      rw [← Bool.not_eq_true]
      intro hblank
      rw [dottedKeyChar_of_blank hblank] at hd
      cases hd
    · rw [(List.cons.inj h).1, hc]

/-- Where a text is shown, no token was found as it begins. -/
theorem exists_of_shown {u q : List Char} (hw : Apart w) (h : scrubFrom n s = u ++ (w ++ q)) :
    ∃ b, scrubFrom 0 b = q ∧ tokenLength? (w ++ b) = none := by
  obtain ⟨a, t, -, -, ht⟩ := exists_of_scrubFrom hw h
  obtain ⟨b, rfl, hb⟩ := exists_of_scrubFrom_append hw.star ht
  refine ⟨b, hb, ?_⟩
  cases w with
  | nil => exact absurd hw.long (by decide)
  | cons d w =>
    apply tokenLength?_eq_none _ ht
    rintro rfl
    exact hw.star List.mem_cons_self

/-- A token shares nothing with a placeholder, unless it is an assignment. -/
theorem IsToken.apart (h : IsToken w) :
    Apart w ∨ ∃ value, w = "CHAINBOT_TOKEN=".toList ++ value ∧ value ≠ [] ∧
      ∀ c ∈ value, blank c = false := by
  cases h with
  | @header lead gap key hlead hgap hblank hkey =>
    refine .inl ⟨fun hstar => ?_, ?_⟩
    · rcases List.mem_append.mp hstar with hstar | hstar
      · simp only [headerWords, List.mem_cons, List.not_mem_nil, or_false] at hlead
        rcases hlead with rfl | rfl
        · exact absurd hstar (by decide)
        · exact absurd hstar (by decide)
      · rcases List.mem_append.mp hstar with hstar | hstar
        · exact absurd (hblank _ hstar) (by decide)
        · exact hkey.apart.star hstar
    · have hlong := hkey.long
      simp only [List.length_append]
      omega
  | @dotted first second third hfirst hsecond hthird hkey =>
    refine .inl ⟨fun hstar => ?_, ?_⟩
    · have hin : '*' ∈ first ++ (second ++ third) := by simpa using hstar
      exact absurd (hkey _ hin) (by decide)
    · simp only [List.length_append]
      omega
  | @assignment value hvalue hblank => exact .inr ⟨value, rfl, hvalue, hblank⟩

/-- **A scrubbed text holds no token**, neither in what is shown nor across a placeholder. -/
theorem IsToken.not_infix_scrubFrom (h : IsToken w) : ¬w <:+: scrubFrom n s := by
  rintro ⟨u, q, hshown⟩
  rw [List.append_assoc] at hshown
  rcases h.apart with hw | ⟨value, rfl, hvalue, hblank⟩
  · obtain ⟨b, -, hnone⟩ := exists_of_shown hw hshown.symm
    obtain ⟨m, hm, -⟩ := h.found b
    rw [hnone] at hm
    cases hm
  · -- What is shown behind the name was no blank in the text, so that an assignment began there.
    rw [List.append_assoc] at hshown
    obtain ⟨b, hb, hnone⟩ := exists_of_shown ⟨by decide, by decide⟩ hshown.symm
    obtain ⟨c, value, rfl⟩ := List.exists_cons_of_ne_nil hvalue
    obtain ⟨d, b, rfl, hd⟩ := exists_of_scrubFrom_cons (hblank c List.mem_cons_self) hb
    have htoken : IsToken ("CHAINBOT_TOKEN=".toList ++ [d]) :=
      .assignment (List.cons_ne_nil d []) fun x hx => List.mem_singleton.mp hx ▸ hd
    obtain ⟨m, hm, -⟩ := htoken.found b
    rw [List.append_assoc, List.singleton_append, hnone] at hm
    cases hm

/-- A text without tokens stays as it is. -/
theorem scrubFrom_eq_self (h : ∀ w, IsToken w → ¬w <:+: s) : scrubFrom 0 s = s := by
  induction s with
  | nil => rfl
  | cons c s ih =>
    have hnone : tokenLength? (c :: s) = none := by
      rw [Option.eq_none_iff_forall_ne_some]
      intro n hn
      obtain ⟨w, b, rfl, -, hw, -⟩ := exists_of_tokenLength?_cons hn
      exact h _ hw ⟨[], b, rfl⟩
    unfold scrubFrom
    rw [hnone]
    exact congrArg (c :: ·) (ih fun w hw hin => h w hw (hin.trans (List.suffix_cons c s).isInfix))

theorem IsToken.not_infix_scrub (h : IsToken w) (s : String) : ¬w <:+: (scrub s).toList := by
  rw [scrub, String.toList_ofList]
  exact h.not_infix_scrubFrom

theorem scrub_eq_self {s : String} (h : ∀ w, IsToken w → ¬w <:+: s.toList) : scrub s = s := by
  rw [scrub, scrubFrom_eq_self h, String.ofList_toList]

/-- Scrubbing a text again changes nothing. -/
@[simp] theorem scrub_scrub (s : String) : scrub (scrub s) = scrub s :=
  scrub_eq_self fun _ hw => hw.not_infix_scrub s

/-! ## Events -/

namespace Setting

/-- What a list or a table holds in a place. -/
def child? : Setting → Nat → Option Setting
  | .scalar _, _ => none
  | .list items, i => items[i]?
  | .table fields, i => fields[i]?.map (·.2)

/-- What a setting holds at a path, which names a place at every level. -/
def at? (v : Setting) (path : List Nat) : Option Setting := path.foldlM child? v

end Setting

/-- What a setting is apart from what it holds. -/
inductive Node where
  | scalar (v : Scalar)
  | list (length : Nat)
  | table (names : List String)
  deriving DecidableEq, Repr

/-- What a setting is apart from what it holds. -/
def Setting.node : Setting → Node
  | .scalar v => .scalar v
  | .list items => .list items.length
  | .table fields => .table (fields.map (·.1))

/-- A node that is scrubbed if it is a text. -/
def Node.scrubbed : Node → Node
  | .scalar (.text s) => .scalar (.text (scrub s))
  | v => v

theorem at?_cons (v : Setting) (i : Nat) (path : List Nat) :
    v.at? (i :: path) = (v.child? i).bind (·.at? path) := by
  rw [Setting.at?, List.foldlM_cons]
  rfl

theorem node_scrubValue (v : Setting) : (scrubValue v).node = v.node.scrubbed := by
  cases v with
  | scalar v => cases v <;> rfl
  | list items => rfl
  | table fields => rfl

theorem child?_scrubValue (v : Setting) (i : Nat) : (scrubValue v).child? i = v.child? i := by
  cases v with
  | scalar v => cases v <;> rfl
  | list items => rfl
  | table fields => rfl

theorem node_sanitizeField (v : Setting) : (sanitizeField v).node = v.node.scrubbed := by
  cases v with
  | scalar v => exact node_scrubValue _
  | list items => simp [sanitizeField, Setting.node, Node.scrubbed]
  | table fields => simp [sanitizeField, Setting.node, Node.scrubbed, Function.comp_def]

theorem child?_sanitizeField (v : Setting) (i : Nat) :
    (sanitizeField v).child? i = (v.child? i).map scrubValue := by
  cases v with
  | scalar v => exact child?_scrubValue _ i
  | list items => simp [sanitizeField, Setting.child?]
  | table fields => simp [sanitizeField, Setting.child?, Function.comp_def]

theorem child?_sanitize (event : Fields) (i : Nat) :
    (Setting.table (sanitize event)).child? i =
      ((Setting.table event).child? i).map sanitizeField := by
  simp [sanitize, Setting.child?, Function.comp_def]

/-- Deeper than an item, nothing is changed. -/
theorem at?_scrubValue (v : Setting) (i : Nat) (path : List Nat) :
    (scrubValue v).at? (i :: path) = v.at? (i :: path) := by
  rw [at?_cons, at?_cons, child?_scrubValue]

/-- **What an event is at every path once it is sanitized**: down to the items of its lists and
tables its texts are scrubbed, and all else is as it was. -/
theorem node_sanitize (event : Fields) (path : List Nat) :
    ((Setting.table (sanitize event)).at? path).map Setting.node =
      ((Setting.table event).at? path).map fun v =>
        if path.length ≤ 2 then v.node.scrubbed else v.node := by
  rcases path with - | ⟨i, - | ⟨j, - | ⟨k, path⟩⟩⟩
  · simp [Setting.at?, Setting.node, Node.scrubbed, sanitize]
  · rw [at?_cons, at?_cons, child?_sanitize]
    cases (Setting.table event).child? i <;> simp [Setting.at?, node_sanitizeField]
  · rw [at?_cons, at?_cons, child?_sanitize]
    cases (Setting.table event).child? i with
    | none => rfl
    | some v =>
      simp only [Option.map_some, Option.bind_some, at?_cons, child?_sanitizeField]
      cases v.child? j <;> simp [Setting.at?, node_scrubValue]
  · rw [at?_cons, at?_cons, child?_sanitize]
    cases (Setting.table event).child? i with
    | none => rfl
    | some v =>
      simp only [Option.map_some, Option.bind_some]
      rw [at?_cons, at?_cons, child?_sanitizeField]
      cases v.child? j with
      | none => rfl
      | some v => simp [at?_scrubValue]

theorem scrubValue_scrubValue (v : Setting) : scrubValue (scrubValue v) = scrubValue v := by
  cases v with
  | scalar v => cases v <;> simp [scrubValue]
  | list items => rfl
  | table fields => rfl

theorem sanitizeField_sanitizeField (v : Setting) :
    sanitizeField (sanitizeField v) = sanitizeField v := by
  cases v with
  | scalar v => cases v <;> simp [sanitizeField, scrubValue]
  | list items => simp [sanitizeField, scrubValue_scrubValue]
  | table fields => simp [sanitizeField, scrubValue_scrubValue]

/-- Sanitizing an event again changes nothing. -/
theorem sanitize_sanitize (event : Fields) : sanitize (sanitize event) = sanitize event := by
  simp [sanitize, sanitizeField_sanitizeField]

/-- **Scrubbing leaves no token and changes nothing else.** A scrubbed text holds no token; it keeps
all characters but those of tokens, which are replaced; it is not changed by being scrubbed again,
and a text without tokens not at all. Of an event the texts are scrubbed down to the items of its
lists and tables, and all else is as it was. -/
theorem scrub_clean (s : String) (event : Fields) :
    (∀ w, IsToken w → ¬w <:+: (scrub s).toList) ∧
      (∃ l, Accounts s.toList (scrub s).toList l) ∧
      scrub (scrub s) = scrub s ∧
      ((∀ w, IsToken w → ¬w <:+: s.toList) → scrub s = s) ∧
      (∀ path, ((Setting.table (sanitize event)).at? path).map Setting.node =
        ((Setting.table event).at? path).map fun v =>
          if path.length ≤ 2 then v.node.scrubbed else v.node) ∧
      sanitize (sanitize event) = sanitize event := by
  refine ⟨fun w hw => hw.not_infix_scrub s, ⟨stretches s.toList, ?_⟩, scrub_scrub s, scrub_eq_self,
    node_sanitize event, sanitize_sanitize event⟩
  rw [scrub, String.toList_ofList]
  exact accounts_stretches s.toList

/-- The name of an assignment is shown, as a blank stands behind it, and then a header is replaced.
The same text is left alone two levels deep in an event. -/
theorem scrub_clean_boundary :
    let key := "Bot abcdefghij0123456789"
    let s := "CHAINBOT_TOKEN= " ++ key ++ "!"
    let event : Fields := [("event", .text "say hi"), ("items", .list [.text s, .list [.text s]])]
    IsToken key.toList ∧ scrub s = "CHAINBOT_TOKEN= ***REDACTED***!" ∧
      ¬key.toList <:+: (scrub s).toList ∧ scrub (scrub s) = scrub s ∧
      scrub "say hi" = "say hi" ∧
      ((Setting.table (sanitize event)).at? [1, 0]).map Setting.node =
        some (.scalar (.text (scrub s))) ∧
      ((Setting.table (sanitize event)).at? [1, 1, 0]).map Setting.node =
        some (.scalar (.text s)) ∧
      sanitize (sanitize event) = sanitize event := by
  intro key s event
  have hkey : IsToken key.toList := by
    have hform : key.toList = "Bot".toList ++ ([' '] ++ "abcdefghij0123456789".toList) := by decide
    rw [hform]
    have hsecret : SecretKey "abcdefghij0123456789".toList :=
      ⟨by decide, List.all_eq_true.mp rfl⟩
    exact .header (by decide) (by decide) (List.all_eq_true.mp rfl) hsecret
  have hplain : scrub "say hi" = "say hi" := by decide +kernel
  obtain ⟨hclean, -, htwice, -, hnode, hevent⟩ := scrub_clean s event
  obtain ⟨-, -, -, hself, -⟩ := scrub_clean "say hi" event
  refine ⟨hkey, by decide +kernel, hclean _ hkey, htwice, hself fun w hw hin => ?_, hnode [1, 0],
    hnode [1, 1, 0], hevent⟩
  exact hw.not_infix_scrub "say hi" (hplain ▸ hin)

end ChatCommands
