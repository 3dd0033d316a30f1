import ChatCommands.Attributes.Options
import ChatCommands.Log
import ChatCommands.Setting.Use
import ChatCommands.Text.Blank

/-!
# Triggers

A message triggers the bot when a prefix accepts it and two gates let the remainder pass: it must
not be blank, and it must not begin with a blank unless the attributes allow that.

## Main definitions

* `Prefix`: the three kinds of prefix
* `Prefix.remainder`: what a message holds behind the prefix
* `Prefix.ofSetting`: a prefix from its setting
* `gate`: what is let pass behind the prefix
* `trigger`: the verdict on a message, with the chain text if it triggers the bot
-/

namespace ChatCommands

/-- Decides whether a message is meant for the bot. Messages and candidates should be texts; those
that are none are noticed when the one is looked at for the other. -/
inductive Prefix where
  | literal (value : Setting)
  /-- The first candidate that the message begins with counts. -/
  | anyOf (values : List Setting)
  /-- Takes any message, and gives nothing for those that are not meant for the bot. -/
  | custom (remainder : Setting → Except Fault Setting)

/-- What stands behind a leading text. -/
def dropLeading (lead message : String) : Option String :=
  if lead.toList.isPrefixOf message.toList then
    some (String.ofList (message.toList.drop lead.toList.length))
  else none

namespace Prefix

/-- A message and a mark that is looked for in it, as texts. -/
def textsOf (part : String) (m mark : Setting) : Except Fault (String × String) :=
  match m.text?, mark.text? with
  | some s, some t => .ok (s, t)
  | some _, none => .error (.wrongType (part ++ " first arg must be str or a tuple of str, not " ++
      mark.typeName))
  | none, _ => .error (.lacks m part)

/-- What a message holds behind a candidate, if it begins with it. -/
def behind (candidate m : Setting) : Except Fault (Option String) :=
  (textsOf "startswith" m candidate).map fun (s, lead) => dropLeading lead s

/-- What a message holds behind the first of some candidates that it begins with. -/
def behindFirst (m : Setting) : List Setting → Except Fault (Option String)
  | [] => .ok none
  | v :: vs => do
    match ← behind v m with
    | some t => return some t
    | none => behindFirst m vs

/-- What a message holds behind the prefix, or nothing if the prefix does not accept it. -/
def remainder : Prefix → Setting → Except Fault Setting
  | literal v, m => (behind v m).map Setting.ofText?
  | anyOf vs, m => (behindFirst m vs).map Setting.ofText?
  | custom f, m => f m

/-- A prefix from its setting: a text, or a list of texts that is not empty. -/
def ofSetting : Setting → Except Fault Prefix
  | .scalar (.text s) => .ok (.literal (.text s))
  | .list items =>
    if items.isEmpty || items.any fun v => v.text?.isNone then
      .error (misconfigured "prefix" "Prefix list must be a non-empty list of strings")
    else .ok (.anyOf items)
  | v => .error (misconfigured "prefix" ("Unsupported prefix type: " ++ v.typeName))

/-- What stands before a text at the end of another. -/
def dropTrailing (trail message : String) : Option String :=
  if trail.toList.isSuffixOf message.toList then
    some (String.ofList (message.toList.take (message.toList.length - trail.toList.length)))
  else none

/-- The prefix that is a mark at the end of a message. -/
def suffix (mark : Setting) : Prefix := custom fun m =>
  (textsOf "endswith" m mark).map fun (s, trail) => .ofText? (dropTrailing trail s)

/-- The prefix that is a mark anywhere in a message. A message is split only where the mark is
found, and only a text can be split, at a mark that is not empty. -/
def within (mark : Setting) : Prefix := custom fun m => do
  if ← m.contains mark then
    let (s, t) ← textsOf "split" m mark
    if t = "" then throw (.badValue "empty separator")
    return .ofText? ((afterFirst t.toList s.toList).map String.ofList)
  else return .null

/-- The prefix that takes every message for one value. -/
def always (value : Setting) : Prefix := custom fun _ => .ok value

end Prefix

/-- The verdict on a message: the chain text if it triggers the bot, and the report. -/
structure Trigger where
  events : List LogEvent
  chain : Option String

/-- The two gates behind the prefix. -/
def gate (a : Attributes) (chain : String) : Trigger :=
  match chain.toList with
  | [] => ⟨[.chainEmpty], none⟩
  | c :: s =>
    -- A text of blanks only is told as one that begins with a blank, where that is refused.
    if blank c && !a.spacesAllowed then ⟨[.chainStartsWithSpace], none⟩
    else if isBlankText (c :: s) then ⟨[.chainEmpty], none⟩
    else ⟨[], some chain⟩

/-- A value that stands behind a prefix and is no text, so that its beginning cannot be looked
at. -/
def notAChain : Setting → Fault
  | .list vs => .lacks (.list vs) "isspace"
  | .table _ => .wrongType "unhashable type: 'slice'"
  | v => .wrongType ("'" ++ v.typeName ++ "' object is not subscriptable")

/-- The verdict on a message. -/
def trigger (p : Prefix) (a : Attributes) (message : Setting) : Except Fault Trigger := do
  match ← p.remainder message with
  | .scalar .null => return ⟨[], none⟩
  | .scalar (.text chain) => return gate a chain
  | v => throw (notAChain v)

end ChatCommands
