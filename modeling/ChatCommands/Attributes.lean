/-!
# The attributes of a bot

The switches, reply texts and grammar symbols that a bot is built with and keeps.

## Main definitions

* `Symbols`: the characters with a meaning in a chain
* `HelpNames`: how the help command is called
* `Attributes`: all attributes; nesting is allowed at least one deep
-/

namespace ChatCommands

/-- The characters with a meaning in a chain. They may coincide. -/
structure Symbols where
  /-- Stands alone for the result of the step before. -/
  previous : Char := '~'
  /-- Stands between two invocations. -/
  delimiter : Char := '>'
  /-- May stand between a command's name and its arguments. -/
  argsDelimiter : Char := ':'
  subStart : Char := '['
  subEnd : Char := ']'
  quoteStart : Char := '\"'
  quoteEnd : Char := '\"'
  deriving DecidableEq, Repr, Inhabited

/-- How the help command is called. -/
inductive HelpNames where
  | disabled
  | one (name : String)
  | many (names : List String)
  deriving DecidableEq, Repr, Inhabited

/-- The names in order; with none there is no help command. -/
def HelpNames.toList : HelpNames → List String
  | disabled => []
  | one name => [name]
  | many names => names

/-- The attributes of a bot. -/
structure Attributes where
  /-- Chains, sub-chains and quotes are understood. -/
  advanced : Bool := false
  helpNames : HelpNames := .one "help"
  /-- The reply to an unknown name, with a mark for it. -/
  notFoundMessage : Option String := none
  /-- The reply when a capability check refuses to answer. -/
  noPermissionMessage : Option String := none
  /-- Blanks may follow the prefix. -/
  spacesAllowed : Bool := false
  /-- The bot listens to itself. -/
  parseSelf : Bool := false
  symbols : Symbols := {}
  /-- How deep sub-chains may nest. -/
  maxDepth : Nat := 32
  maxDepth_pos : 0 < maxDepth := by decide
  deriving DecidableEq, Repr

instance : Inhabited Attributes := ⟨{}⟩

end ChatCommands
