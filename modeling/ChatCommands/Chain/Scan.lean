import ChatCommands.Attributes
import ChatCommands.Chain
import ChatCommands.Text.Blank

/-!
# Reading a chain

A chain text is read once, from left to right, by an automaton. Its state holds the sub-chains
that are open, what has been read of the innermost one, and where in an invocation the reader
stands. A character never has to be read twice: a backslash that may turn out to be an ordinary
character is kept pending until the next character, or the end, decides.

Reading never fails. Sub-chains may nest as deep as they like here; opening one is noted, so that
a limit can be applied to the notes.

## Main definitions

* `Piece`, `argumentOf`: what an argument is read as, and the argument that this makes
* `Note`: what is worth reporting about a text
* `ScanState`: the states of the reader
* `ScanState.step`, `ScanState.close`: reading one character, and the end of the text
* `scan`: the state after a text
-/

namespace ChatCommands

/-- What may be read of an argument in one go. -/
inductive Piece where
  /-- Text that stands for itself without any mark. -/
  | plain (s : List Char)
  /-- Text whose characters have lost their meaning by a backslash or by quotes. -/
  | literal (s : List Char)
  | sub (chain : Chain)
  deriving Repr

/-- Puts text before parts, joining it to text that they begin with. -/
def joinText (s : List Char) : List Part → List Part
  | .text t :: ps => .text (String.ofList s ++ t) :: ps
  | ps => .text (String.ofList s) :: ps

/-- The parts of an argument: neighbouring texts are one. -/
def partsOf : List Piece → List Part
  | [] => []
  | .plain s :: ps => joinText s (partsOf ps)
  | .literal s :: ps => joinText s (partsOf ps)
  | .sub c :: ps => .sub c :: partsOf ps

/-- The text of pieces, if none of them is marked. -/
def plainText? : List Piece → Option (List Char)
  | [] => some []
  | .plain s :: ps => (plainText? ps).map (s ++ ·)
  | _ => none

/-- The argument that pieces make. The previous-result symbol has its meaning only where it is
the whole argument and unmarked. -/
def argumentOf (y : Symbols) (ps : List Piece) : Argument :=
  if plainText? ps = some [y.previous] then [.previous] else partsOf ps

/-- What is worth reporting about a text. -/
inductive Note where
  /-- A sub-chain was opened; `depth` of them are now open. -/
  | opened (depth : Nat)
  /-- The text ended within quotes. -/
  | quoteUnterminated
  /-- The text ended within the sub-chain at a depth. -/
  | subChainUnterminated (depth : Nat)
  /-- Arguments without a command's name were dropped. -/
  | invocationWithoutName (arguments : Nat)
  deriving DecidableEq, Repr, Inhabited

/-- Where in an invocation the reader stands. -/
inductive Place where
  /-- Before the name. -/
  | lead
  /-- In the name. -/
  | name
  /-- In the name, behind a backslash. -/
  | nameEscape
  /-- Behind the name, where the delimiter of arguments may follow. -/
  | gap
  /-- Between arguments. -/
  | between
  /-- In an argument. -/
  | argument (pieces : List Piece)
  /-- In an argument, behind a backslash. -/
  | argumentEscape (pieces : List Piece)
  /-- In quotes within an argument. -/
  | quotes (pieces : List Piece) (text : List Char)
  /-- In quotes, behind a backslash. -/
  | quotesEscape (pieces : List Piece) (text : List Char)
  deriving Repr

/-- The invocations read so far of a chain, and the name and the arguments of the next one. -/
structure Draft where
  done : Chain := []
  name : List Char := []
  arguments : List Argument := []
  deriving Repr

/-- The draft with one more argument. -/
def Draft.addArgument (d : Draft) (a : Argument) : Draft :=
  { d with arguments := d.arguments ++ [a] }

/-- The state of the reader: the drafts of the enclosing chains with the pieces of the argument
that the sub-chain belongs to, innermost first; the draft of the innermost chain; the place in
it; and the notes so far. -/
structure ScanState where
  outer : List (Draft × List Piece) := []
  draft : Draft := {}
  place : Place := .lead
  notes : List Note := []
  deriving Repr

namespace ScanState

variable (y : Symbols)

/-- How many sub-chains are open. -/
def depth (s : ScanState) : Nat := s.outer.length

/-- A character at which an invocation ends: the delimiter, and within a sub-chain its end. -/
def ends (s : ScanState) (c : Char) : Bool :=
  c == y.delimiter || (!s.outer.isEmpty && c == y.subEnd)

/-- A backslash that makes the next character ordinary; within sub-chains there is none. -/
def escapes (s : ScanState) (c : Char) : Bool := s.outer.isEmpty && c == '\\'

/-- The same state with more notes. -/
def note (s : ScanState) (n : Note) : ScanState := { s with notes := s.notes ++ [n] }

/-- Ends the invocation that is being read. One without a name is dropped. -/
def endInvocation (s : ScanState) : ScanState :=
  let d := s.draft
  if d.name.isEmpty then
    let s := { s with draft := { done := d.done }, place := .lead }
    if d.arguments.isEmpty then s else s.note (.invocationWithoutName d.arguments.length)
  else
    { s with
      draft := { done := d.done ++ [.call (String.ofList d.name) d.arguments] }, place := .lead }

/-- Opens a sub-chain within an argument. -/
def openSub (s : ScanState) (pieces : List Piece) : ScanState :=
  { s with
    outer := (s.draft, pieces) :: s.outer, draft := {}, place := .lead,
    notes := s.notes ++ [.opened (s.depth + 1)] }

/-- Closes the innermost sub-chain, which becomes a piece of the argument around it. -/
def closeSub (s : ScanState) : ScanState :=
  match s.outer with
  | [] => s
  | (d, pieces) :: outer =>
    { s with outer := outer, draft := d, place := .argument (pieces ++ [.sub s.draft.done]) }

/-- Ends the argument that is being read. -/
def endArgument (s : ScanState) (pieces : List Piece) : ScanState :=
  { s with draft := s.draft.addArgument (argumentOf y pieces), place := .between }

/-- Reads a character at which the invocation ends. The delimiter goes before the end of the
sub-chain where both are the same character. -/
def readEnd (s : ScanState) (c : Char) : ScanState :=
  let s := s.endInvocation
  if c = y.delimiter then s else s.closeSub

/-- Reads a character of an argument that no backslash marks. -/
def readMarked (s : ScanState) (pieces : List Piece) (c : Char) : ScanState :=
  if c = y.quoteStart then { s with place := .quotes pieces [] }
  else if c = y.subStart then s.openSub pieces
  else { s with place := .argument (pieces ++ [.plain [c]]) }

/-- Reads a character in an argument. -/
def readArgument (s : ScanState) (pieces : List Piece) (c : Char) : ScanState :=
  if blank c then s.endArgument y pieces
  else if s.ends y c then (s.endArgument y pieces).readEnd y c
  else if s.escapes c then { s with place := .argumentEscape pieces }
  else s.readMarked y pieces c

/-- Reads a character between arguments. -/
def readBetween (s : ScanState) (c : Char) : ScanState :=
  if blank c then { s with place := .between }
  else if s.ends y c then s.readEnd y c
  else s.readArgument y [] c

/-- Reads a character behind the name, with blanks between. -/
def readGap (s : ScanState) (c : Char) : ScanState :=
  if blank c then { s with place := .gap }
  else if c = y.argsDelimiter then { s with place := .between }
  else s.readBetween y c

/-- Reads a character in the name. -/
def readName (s : ScanState) (c : Char) : ScanState :=
  if blank c then { s with place := .gap }
  else if c = y.argsDelimiter then { s with place := .between }
  else if c = y.subStart || s.ends y c then s.readBetween y c
  else if s.escapes c then { s with place := .nameEscape }
  else { s with draft := { s.draft with name := s.draft.name ++ [c] }, place := .name }

/-- Reads a character in quotes. -/
def readQuotes (s : ScanState) (pieces : List Piece) (text : List Char) (c : Char) : ScanState :=
  if c = '\\' then { s with place := .quotesEscape pieces text }
  else if c = y.quoteEnd then { s with place := .argument (pieces ++ [.literal text]) }
  else { s with place := .quotes pieces (text ++ [c]) }

/-- Reads one character. -/
def step (s : ScanState) (c : Char) : ScanState :=
  match s.place with
  | .lead => if blank c then s else s.readName y c
  | .name => s.readName y c
  | .nameEscape =>
    { s with draft := { s.draft with name := s.draft.name ++ [c] }, place := .name }
  | .gap => s.readGap y c
  | .between => s.readBetween y c
  | .argument pieces => s.readArgument y pieces c
  | .argumentEscape pieces => { s with place := .argument (pieces ++ [.literal [c]]) }
  | .quotes pieces text => s.readQuotes y pieces text c
  | .quotesEscape pieces text =>
    -- A backslash that is the closing quote too closes only if no second one follows.
    if c = y.quoteEnd then { s with place := .quotes pieces (text ++ [c]) }
    else if '\\' = y.quoteEnd then s.readArgument y (pieces ++ [.literal text]) c
    else s.readQuotes y pieces (text ++ ['\\']) c

/-- Takes a pending backslash for an ordinary character: no character follows it. -/
def settle (s : ScanState) : ScanState :=
  match s.place with
  | .nameEscape =>
    { s with draft := { s.draft with name := s.draft.name ++ ['\\'] }, place := .name }
  | .argumentEscape pieces => s.readMarked y pieces '\\'
  | .quotesEscape pieces text =>
    if '\\' = y.quoteEnd then { s with place := .argument (pieces ++ [.literal text]) }
    else { s with place := .quotes pieces (text ++ ['\\']) }
  | _ => s

/-- Ends what is being read of the innermost chain: quotes, an argument, the invocation. -/
def endChain (s : ScanState) : ScanState :=
  match s.place with
  | .quotes pieces text =>
    ((s.note .quoteUnterminated).endArgument y (pieces ++ [.literal text])).endInvocation
  | .argument pieces => (s.endArgument y pieces).endInvocation
  | _ => s.endInvocation

/-- Ends all open sub-chains, innermost first, and the chain itself. -/
def endAll : Nat → ScanState → ScanState
  | 0, s => s.endChain y
  | n + 1, s =>
    let s := s.endChain y
    endAll n (s.note (.subChainUnterminated s.depth)).closeSub

/-- Reads the end of the text. -/
def close (s : ScanState) : ScanState :=
  -- A pending backslash may open a sub-chain, so the depth is taken behind it.
  let s := s.settle y
  endAll y s.depth s

end ScanState

/-- The state after a text. -/
def scan (y : Symbols) (text : List Char) : ScanState := text.foldl (ScanState.step y) {}

end ChatCommands
