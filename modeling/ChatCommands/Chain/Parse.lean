import ChatCommands.Chain.Items
import ChatCommands.Log

/-!
# Chains from text

In simple mode a text is one invocation: its first word with the other words as arguments. In
advanced mode the whole grammar is read, and a text that opens more sub-chains at once than the
attributes allow is refused, whatever the rest of it holds.

## Main definitions

* `Reading`: a chain and the notes made on the way
* `readChain`: the chain of a text, with nesting as deep as it likes
* `parseChain`, `parseSimple`, `parse`: the two modes, and the choice between them
* `parseGiven`: the same for any value that is given for a text
-/

namespace ChatCommands

/-- A chain that has been read, and the notes made on the way. -/
structure Reading where
  chain : Chain
  notes : List Note
  deriving Repr

/-- The chain of a text, with nesting as deep as it likes. -/
def readChain (y : Symbols) (text : List Char) : Reading :=
  let s := (scan y text).close y
  ⟨s.draft.done, s.notes⟩

namespace Note

/-- Whether a note tells of more open sub-chains than a limit allows. -/
def exceeds (limit : Nat) : Note → Bool
  | opened d => limit < d
  | _ => false

/-- The report of a note. -/
def event? : Note → Option LogEvent
  | opened _ => none
  | quoteUnterminated => some .quoteUnterminated
  | subChainUnterminated d => some (.subChainUnterminated d)
  | invocationWithoutName n => some (.invocationWithoutName n)

end Note

/-- The failure of a chain that nests deeper than a limit. -/
def tooDeep (limit : Nat) : Fault :=
  .failure (.of (.chainDepth (.int limit)) "Sub-chain nesting too deep")

/-- The outcome of parsing, with the reports made until then. -/
structure Parsed where
  events : List LogEvent
  chain : Except Fault Chain

/-- What comes of reading under a depth limit: at the first sub-chain beyond the limit nothing more
is reported and the text is refused. -/
def Parsed.within (limit : Nat) (notes : List Note) (chain : Except Fault Chain) : Parsed where
  events := (notes.takeWhile fun n => !n.exceeds limit).filterMap Note.event?
  chain := if notes.any (Note.exceeds limit) then .error (tooDeep limit) else chain

/-- A reading under a depth limit. -/
def Reading.within (r : Reading) (limit : Nat) : Parsed := .within limit r.notes (.ok r.chain)

/-- Parses a text with the whole grammar. -/
def parseChain (a : Attributes) (text : String) : Parsed :=
  (readChain a.symbols text.toList).within a.maxDepth

/-- An invocation from its words. -/
def invocationOfWords : List (List Char) → Chain
  | [] => []
  | w :: ws => [.call (String.ofList w) (ws.map fun v => [.text (String.ofList v)])]

/-- Parses a text as words. -/
def parseSimple (text : String) : Chain := invocationOfWords (words text.toList)

/-- Parses a text in the mode that the attributes choose. -/
def parse (a : Attributes) (text : String) : Parsed :=
  if a.advanced then parseChain a text else ⟨[], .ok (parseSimple text)⟩

/-- Parses a list that is given for a text with the whole grammar. -/
def parseItems (a : Attributes) (items : List Setting) : Parsed :=
  let (notes, chain) := readItems a.symbols items
  .within a.maxDepth notes chain

/-- Parses a value that is no text with the whole grammar: it is passed from one end to the other,
and a table has no first item. -/
def parseOther (a : Attributes) : Setting → Parsed
  | .list items => parseItems a items
  | .table [] => ⟨[], .ok []⟩
  | .table _ => ⟨[], .error (.missingEntry "0")⟩
  | v => ⟨[], .error (.wrongType ("object of type '" ++ v.typeName ++ "' has no len()"))⟩

/-- Parses what is given for a text. In simple mode its words are asked for, which only a text
has. -/
def parseGiven (a : Attributes) (v : Setting) : Parsed :=
  match v.text? with
  | some s => parse a s
  | none => if a.advanced then parseOther a v else ⟨[], .error (.lacks v "split")⟩

end ChatCommands
