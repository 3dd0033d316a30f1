/-!
# Command chains

A chain is a list of invocations that run one after another. An invocation names a command and
has arguments; an argument is put together from parts: text, the result of the step before, or
the result of a chain of its own.

## Main definitions

* `Part`, `Invocation`, `Argument`, `Chain`: the tree of a chain
* `Argument.literal?`: the text of an argument that is text only
-/

namespace ChatCommands

mutual

/-- A piece of an argument. -/
inductive Part where
  | text (value : String)
  /-- Stands for the result of the invocation before in the same chain. -/
  | previous
  /-- Stands for the result of a nested chain. -/
  | sub (chain : List Invocation)
  deriving Repr

/-- A command's name with its arguments, each a list of parts. -/
inductive Invocation where
  | call (name : String) (arguments : List (List Part))
  deriving Repr

end

/-- An argument: parts that are joined when the invocation runs. -/
abbrev Argument := List Part

/-- Invocations that run one after another. -/
abbrev Chain := List Invocation

namespace Invocation

/-- The name of the command. -/
def name : Invocation → String
  | call n _ => n

/-- The arguments as they are written. -/
def arguments : Invocation → List Argument
  | call _ as => as

end Invocation

/-- The text of a part that is text. -/
def Part.text? : Part → Option String
  | text s => some s
  | _ => none

/-- The text of an argument that is text only. -/
def Argument.literal? (a : Argument) : Option String :=
  (a.mapM Part.text?).map String.join

end ChatCommands
