import ChatCommands.Attributes
import ChatCommands.Chain
import ChatCommands.Text.Blank
import Mathlib.Data.List.Chain

/-!
# Canonical chains

The trees that a chain text can stand for: every invocation has a name, within sub-chains a name
without the characters that end it there; every argument has parts, none of them two texts side by
side, and the previous result stands alone.

## Main definitions

* `CanonicalName`, `CanonicalShape`: the conditions on a name and on the parts of an argument
* `CanonicalChain`: both of them on every level of a chain
* `chainDepth`: how deep sub-chains nest
* `Symbols.Distinct`: symbols that can be told apart
-/

namespace ChatCommands

/-- Whether a part is text. -/
def Part.isText : Part → Bool
  | text _ => true
  | _ => false

/-- Whether a part stands for the previous result. -/
def Part.isPrevious : Part → Bool
  | previous => true
  | _ => false

/-- The names of invocations. Within sub-chains nothing can take away the meaning of a character,
so that none with a meaning for names can be part of one. -/
def CanonicalName (y : Symbols) (nested : Bool) (name : String) : Prop :=
  name ≠ "" ∧ (nested = true → ∀ c ∈ name.toList, blank c = false ∧
    c ∉ [y.argsDelimiter, y.subStart, y.subEnd, y.delimiter])

/-- The parts of an argument. -/
structure CanonicalShape (a : Argument) : Prop where
  nonempty : a ≠ []
  apart : a.IsChain fun p q => p.isText = false ∨ q.isText = false
  alone : a = [.previous] ∨ ∀ p ∈ a, p.isPrevious = false

mutual

/-- Chains with canonical names and arguments on every level. -/
def CanonicalChain (y : Symbols) (nested : Bool) : Chain → Prop
  | [] => True
  | .call name arguments :: rest =>
    CanonicalName y nested name ∧ CanonicalArguments y arguments ∧ CanonicalChain y nested rest

/-- Arguments of a canonical shape whose sub-chains are canonical. -/
def CanonicalArguments (y : Symbols) : List (List Part) → Prop
  | [] => True
  | a :: as => CanonicalShape a ∧ CanonicalParts y a ∧ CanonicalArguments y as

/-- Parts whose sub-chains are canonical. -/
def CanonicalParts (y : Symbols) : List Part → Prop
  | [] => True
  | p :: ps => CanonicalPart y p ∧ CanonicalParts y ps

/-- A part that is canonical if it is a sub-chain. -/
def CanonicalPart (y : Symbols) : Part → Prop
  | .sub chain => CanonicalChain y true chain
  | _ => True

end

mutual

/-- How deep sub-chains nest in a chain. -/
def chainDepth : Chain → Nat
  | [] => 0
  | .call _ arguments :: rest => max (argumentsDepth arguments) (chainDepth rest)

/-- How deep sub-chains nest in arguments. -/
def argumentsDepth : List (List Part) → Nat
  | [] => 0
  | a :: as => max (partsDepth a) (argumentsDepth as)

/-- How deep sub-chains nest in parts. -/
def partsDepth : List Part → Nat
  | [] => 0
  | p :: ps => max (partDepth p) (partsDepth ps)

/-- How deep sub-chains nest in a part. -/
def partDepth : Part → Nat
  | .sub chain => chainDepth chain + 1
  | _ => 0

end

namespace Symbols

/-- All symbols but the end of quotes. -/
def openers (y : Symbols) : List Char :=
  [y.previous, y.delimiter, y.argsDelimiter, y.subStart, y.subEnd, y.quoteStart]

/-- All symbols but the beginning of quotes. -/
def closers (y : Symbols) : List Char :=
  [y.previous, y.delimiter, y.argsDelimiter, y.subStart, y.subEnd, y.quoteEnd]

/-- Symbols that can be told from blanks, from the backslash and from each other. Only the two ends
of quotes may be one character. -/
structure Distinct (y : Symbols) : Prop where
  notBlank : ∀ c ∈ y.quoteEnd :: y.openers, blank c = false
  notBackslash : '\\' ∉ y.quoteEnd :: y.openers
  openers_nodup : y.openers.Nodup
  closers_nodup : y.closers.Nodup

end Symbols

end ChatCommands
