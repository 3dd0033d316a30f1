import ChatCommands.Text.Blank

/-!
# Files of variables

A file of variables sets one variable a line, as a name, an equals sign and a value. Blank lines,
lines without an equals sign and lines that begin with a hash set nothing.

## Main definitions

* `Variables`: variables by name
* `variableOf?`: the variable that a line sets
* `variablesOf`: the variables that a text sets
-/

namespace ChatCommands

/-- Variables by name. -/
abbrev Variables := List (String × String)

/-- A value without the quotes around it, if there are any. -/
def unquote (s : List Char) : List Char :=
  match s.head?, s.getLast? with
  | some q, some r => if 1 < s.length && q = r && (q = '"' || q = '\'') then
      (s.drop 1).dropLast else s
  | _, _ => s

/-- The variable that a line sets. -/
def variableOf? (line : List Char) : Option (String × String) :=
  let line := trim blank line
  let name := trim blank (line.takeWhile (· ≠ '='))
  if line.head? = some '#' || !line.contains '=' || name.isEmpty then none
  else
    some (String.ofList name,
      String.ofList (unquote (trim blank ((line.dropWhile (· ≠ '=')).drop 1))))

/-- The variables that a text sets. -/
def variablesOf (text : String) : Variables :=
  (text.splitOn "\n").filterMap fun line => variableOf? line.toList

end ChatCommands
