import ChatCommands.Proofs.Chain.Canonical
import Mathlib.Data.List.DropRight

/-!
# Printing a chain

A written form of every canonical chain. Names are written with a backslash before each of their
characters, within sub-chains as they are; texts stand in quotes, but for the backslashes at
their ends, which would take the meaning from the closing quote.

## Main definitions

* `escaped`, `unmarked`: a backslash before every character, where backslashes have a meaning
* `inQuotes`, `textBody`, `textTail`: a text in quotes, without the backslashes at its end, and
  those backslashes
* `printChain`, `printArguments`, `printParts`, `printPart`: the written form
* `Chain.print`: the text of a chain
-/

namespace ChatCommands

/-- A backslash before every character. -/
def escaped (s : List Char) : List Char := s.flatMap fun c => ['\\', c]

/-- Characters outside of quotes that are to lose their meaning: outside of sub-chains by
backslashes, within them they can have none. -/
def unmarked (nested : Bool) (s : List Char) : List Char := if nested then s else escaped s

/-- A text without the backslashes at its end. -/
def textBody (s : String) : List Char := s.toList.rdropWhile (· = '\\')

/-- The backslashes at the end of a text. -/
def textTail (s : String) : List Char := s.toList.rtakeWhile (· = '\\')

/-- Characters within quotes: the end of quotes has a backslash before it. -/
def inQuotes (y : Symbols) (s : List Char) : List Char :=
  s.flatMap fun c => if c = y.quoteEnd then ['\\', c] else [c]

mutual

/-- The written form of a chain: invocations with the delimiter between them. -/
def printChain (y : Symbols) (nested : Bool) : Chain → List Char
  | [] => []
  | .call name arguments :: rest =>
    unmarked nested name.toList ++ y.argsDelimiter :: printArguments y nested arguments ++
      if rest.isEmpty then [] else y.delimiter :: printChain y nested rest

/-- The written form of arguments, a space before each. -/
def printArguments (y : Symbols) (nested : Bool) : List (List Part) → List Char
  | [] => []
  | a :: as => ' ' :: printParts y nested a ++ printArguments y nested as

/-- The written form of parts. -/
def printParts (y : Symbols) (nested : Bool) : List Part → List Char
  | [] => []
  | p :: ps => printPart y nested p ++ printParts y nested ps

/-- The written form of a part. -/
def printPart (y : Symbols) (nested : Bool) : Part → List Char
  | .text s =>
    y.quoteStart :: inQuotes y (textBody s) ++ y.quoteEnd :: unmarked nested (textTail s)
  | .previous => [y.previous]
  | .sub chain => y.subStart :: printChain y true chain ++ [y.subEnd]

end

/-- The text of a chain. -/
def Chain.print (y : Symbols) (c : Chain) : String := String.ofList (printChain y false c)

end ChatCommands
