import ChatCommands.Chain
import ChatCommands.Program

/-!
# Chains as programs

A chain calls its commands one after another. The arguments of an invocation are put together
just before it is called, so that a nested chain runs when the argument that holds it is needed,
and the previous result is that of the step right before in the same chain. A step without a
result does not end the chain.

## Main definitions

* `chainFrom`: the rest of a chain, after a result
* `resolve`, `resolveParts`, `resolvePart`: the text of arguments, of parts, of one part
* `chainProgram`: the program of a chain
-/

namespace ChatCommands

mutual

/-- The steps of a chain that follow a result. -/
def chainFrom (chained : Bool) (previous : Option String) : Chain → Program (Option String)
  | [] => pure previous
  | .call name arguments :: rest => do
    -- The arguments of a command run even if the command turns out not to exist.
    let texts ← resolve previous arguments
    let result ← Program.callCommand name (texts.map .text) chained
    chainFrom chained result rest

/-- The texts of arguments, in order. -/
def resolve (previous : Option String) : List (List Part) → Program (List String)
  | [] => pure []
  | a :: as => do
    let text ← resolveParts previous a
    let texts ← resolve previous as
    return text :: texts

/-- The text of parts. -/
def resolveParts (previous : Option String) : List Part → Program String
  | [] => pure ""
  | p :: ps => do
    let text ← resolvePart previous p
    let texts ← resolveParts previous ps
    return text ++ texts

/-- The text of a part; where there is no result, it is empty. -/
def resolvePart (previous : Option String) : Part → Program String
  | .text s => pure s
  | .previous => pure (previous.getD "")
  | .sub chain => do
    let result ← chainFrom true none chain
    return result.getD ""

end

/-- The program of a chain. Its steps are chained unless there is only one. -/
def chainProgram (c : Chain) : Program (Option String) := chainFrom (1 < c.length) none c

/-- The program of the invocation of words. -/
def simpleProgram : Chain → Program (Option String)
  | [] => pure none
  | i :: _ =>
    Program.callCommand i.name ((i.arguments.filterMap Argument.literal?).map .text) false

end ChatCommands
