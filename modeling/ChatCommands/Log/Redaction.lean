import ChatCommands.Setting
import ChatCommands.Text.Blank

/-!
# Redaction

Chat text may carry tokens, and what is logged is read by others. Before an event is written,
everything in it that looks like a token is replaced by a placeholder. Three forms are looked for:
a key behind the word of an authorization header, three runs of key characters with dots between
them, and an assignment of the bot's token.

## Main definitions

* `headerLength?`, `dottedLength?`, `assignmentLength?`: how long a token at the beginning is
* `scrub`: a text with its tokens replaced, from the left
* `sanitize`: the fields of an event, scrubbed down to the items of lists and tables
-/

namespace ChatCommands

/-- Letters and digits. -/
def alphanumeric (c : Char) : Bool := c.isAlpha || c.isDigit

/-- The characters of the keys of authorization headers. -/
def headerKeyChar (c : Char) : Bool :=
  alphanumeric c || c = '_' || c = '.' || c = '/' || c = '-'

/-- The characters between the dots of a dotted token. -/
def dottedKeyChar (c : Char) : Bool := alphanumeric c || c = '_' || c = '-'

/-- The length of the run at the beginning whose characters satisfy a test. -/
def runLength (p : Char → Bool) (s : List Char) : Nat := (s.takeWhile p).length

/-- The length of a run if it is long enough. -/
def runOf? (p : Char → Bool) (least : Nat) (s : List Char) : Option Nat :=
  if least ≤ runLength p s then some (runLength p s) else none

/-- The length of a text that the list begins with. -/
def leadLength? (lead : String) (s : List Char) : Option Nat :=
  if lead.toList.isPrefixOf s then some lead.toList.length else none

/-- The word of an authorization header, blanks, and a key of twenty characters or more. -/
def headerLength? (s : List Char) : Option Nat := do
  let word ← leadLength? "Bot" s <|> leadLength? "Bearer" s
  let gap ← runOf? blank 1 (s.drop word)
  let key ← runOf? headerKeyChar 20 (s.drop (word + gap))
  return word + gap + key

/-- Three runs of at least twenty, five and twenty characters, with dots between them. -/
def dottedLength? (s : List Char) : Option Nat := do
  let first ← runOf? dottedKeyChar 20 s
  let dot ← leadLength? "." (s.drop first)
  let second ← runOf? dottedKeyChar 5 (s.drop (first + dot))
  let dots ← leadLength? "." (s.drop (first + dot + second))
  let third ← runOf? dottedKeyChar 20 (s.drop (first + dot + second + dots))
  return first + dot + second + dots + third

/-- The assignment of the bot's token, up to the next blank. -/
def assignmentLength? (s : List Char) : Option Nat := do
  let lead ← leadLength? "CHAINBOT_TOKEN=" s
  let value ← runOf? (fun c => !blank c) 1 (s.drop lead)
  return lead + value

/-- The length of a token at the beginning. -/
def tokenLength? (s : List Char) : Option Nat :=
  -- Where more than one form fits, the first of them decides how much is replaced.
  headerLength? s <|> dottedLength? s <|> assignmentLength? s

/-- What stands in the place of a token. -/
def placeholder : List Char := "***REDACTED***".toList

/-- The text with its tokens replaced; the first `n` characters belong to a token already
replaced. -/
def scrubFrom : Nat → List Char → List Char
  | _, [] => []
  | n + 1, _ :: s => scrubFrom n s
  | 0, c :: s =>
    match tokenLength? (c :: s) with
    | some n => placeholder ++ scrubFrom (n - 1) s
    | none => c :: scrubFrom 0 s

/-- A text with its tokens replaced. -/
def scrub (s : String) : String := String.ofList (scrubFrom 0 s.toList)

/-- A value with its tokens replaced if it is a text. -/
def scrubValue : Setting → Setting
  | .scalar (.text s) => .text (scrub s)
  | v => v

/-- A field of an event: texts, and texts that are items of a list or a table. -/
def sanitizeField : Setting → Setting
  | .list items => .list (items.map scrubValue)
  | .table fields => .table (fields.map fun f => (f.1, scrubValue f.2))
  | v => scrubValue v

/-- The fields of an event as they are written. -/
def sanitize (event : Fields) : Fields := event.map fun f => (f.1, sanitizeField f.2)

end ChatCommands
