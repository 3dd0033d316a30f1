import ChatCommands.Chain.Scan
import ChatCommands.Setting.Use

/-!
# Chains from lists

A list may be given in place of a text. It is read as the text of which its items are the
characters, whatever they are: an item that is one character is that character, and any other text
stands for itself and is no symbol. A text without characters is an item too, and one of blanks is
blank.

Reading a list may fail. An item that is no text has no use except behind a backslash or within
quotes, and there it spoils what it is put together with. Within quotes a backslash cannot be read,
since what follows it would have to be compared with a part of a text.

## Main definitions

* `ScanState.stepWord`: reading an item that is a text, but not one character
* `ItemScan`, `ItemScan.step`: reading an item
* `readItems`: the notes on a list, and its chain
-/

namespace ChatCommands

namespace ScanState

variable (y : Symbols)

/-- Reads an item that is a text, but not one character. -/
def stepWord (s : ScanState) (w : List Char) : ScanState :=
  let named : ScanState :=
    { s with draft := { s.draft with name := s.draft.name ++ w }, place := .name }
  -- Blanks are told apart from words only where blanks part words, and there they are all one.
  let part (t : ScanState) := if !w.isEmpty && w.all blank then s.step y ' ' else t
  match s.place with
  | .lead => part named
  | .name => part named
  | .nameEscape => named
  | .gap => part { s with place := .argument [.plain w] }
  | .between => part { s with place := .argument [.plain w] }
  | .argument pieces => part { s with place := .argument (pieces ++ [.plain w]) }
  | .argumentEscape pieces => { s with place := .argument (pieces ++ [.literal w]) }
  | .quotes pieces text => { s with place := .quotes pieces (text ++ w) }
  | .quotesEscape pieces text => { s with place := .quotes pieces (text ++ w) }

/-- Reads an item that is a text. -/
def stepText (s : ScanState) (w : String) : ScanState :=
  match w.toList with
  | [c] => s.step y c
  | w => s.stepWord y w

end ScanState

namespace Place

/-- Whether the reader stands within quotes. -/
def quoted : Place → Bool
  | .quotes _ _ => true
  | .quotesEscape _ _ => true
  | _ => false

/-- Whether the reader stands in a name. -/
def named : Place → Bool
  | .name => true
  | .nameEscape => true
  | _ => false

/-- Whether the reader stands in an argument. -/
def argued : Place → Bool
  | .argument _ => true
  | .argumentEscape _ => true
  | p => p.quoted

/-- Whether a name or an argument goes on from one place to another. -/
def goesOn (p q : Place) : Bool := (p.named && q.named) || (p.argued && q.argued)

end Place

/-- A list that is being read: the state of the reader, and whether what is being put together, a
name or an argument, or the text in quotes within it, holds an item that is no text. -/
structure ItemScan where
  state : ScanState := {}
  spoiled : Bool := false
  quotesSpoiled : Bool := false

/-- Items that cannot be put together to a text. -/
def notJoined : Fault := .wrongType "sequence item: expected str instance"

namespace ItemScan

variable (y : Symbols)

/-- The reader goes on to a state. What is complete by then must not be spoiled. -/
def advance (x : ItemScan) (s : ScanState) : Except Fault ItemScan :=
  let closes := x.state.place.quoted && !s.place.quoted
  if (x.quotesSpoiled && closes) || (x.spoiled && !x.state.place.goesOn s.place) then
    .error notJoined
  else .ok { x with state := s }

/-- Reads an item that is no text. -/
def stepOther (x : ItemScan) (item : Setting) : Except Fault ItemScan :=
  match x.state.place with
  | .nameEscape => .ok { x with state := { x.state with place := .name }, spoiled := true }
  | .argumentEscape pieces =>
    .ok { x with
      state := { x.state with place := .argument (pieces ++ [.literal []]) }, spoiled := true }
  | .quotes _ _ => .ok { x with quotesSpoiled := true }
  | _ => .error (.lacks item "isspace")

/-- Reads an item. -/
def step (x : ItemScan) (item : Setting) : Except Fault ItemScan :=
  match item.text? with
  | none => x.stepOther item
  | some w =>
    if x.state.place.quoted && w = "\\" then .error (.lacks (.list []) "startswith")
    else x.advance (x.state.stepText y w)

/-- Reads the end of the list. -/
def close (x : ItemScan) : List Note × Except Fault Chain :=
  let s := x.state.settle y
  match x.advance s with
  | .error f => (x.state.notes, .error f)
  | .ok x =>
    if x.spoiled || x.quotesSpoiled then
      ((if s.place.quoted then s.note .quoteUnterminated else s).notes, .error notJoined)
    else
      let s := s.close y
      (s.notes, .ok s.draft.done)

/-- Reads items up to the end of the list, or to the first that cannot be read. -/
def read (x : ItemScan) : List Setting → List Note × Except Fault Chain
  | [] => x.close y
  | item :: items =>
    match x.step y item with
    | .ok x => x.read items
    | .error f => (x.state.notes, .error f)

end ItemScan

/-- The notes on a list that is given for a text, and its chain. -/
def readItems (y : Symbols) (items : List Setting) : List Note × Except Fault Chain :=
  ItemScan.read y {} items

end ChatCommands
