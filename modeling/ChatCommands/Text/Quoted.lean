import ChatCommands.Text.Printing

/-!
# Quoted texts

The quoted form of a text, as messages about bad values show it. A text stands between single
quotes, or between double ones where it holds a single quote and no double one. A character that
does not print is written by its code, in two, four or eight hexadecimal digits.

## Main definitions

* `quotedChar q c`: a character as it stands between quotes
* `quoted s`: the quoted form
-/

namespace ChatCommands

/-- The last `digits` hexadecimal digits of `n`. -/
def hexadecimal (digits n : Nat) : List Char :=
  match digits with
  | 0 => []
  | d + 1 => hexadecimal d (n / 16) ++ [Nat.digitChar (n % 16)]

/-- A character as it stands between quotes `q`. -/
def quotedChar (q c : Char) : List Char :=
  if c = '\\' then ['\\', '\\']
  else if c = q then ['\\', q]
  else if c = '\n' then ['\\', 'n']
  else if c = '\t' then ['\\', 't']
  else if c = '\r' then ['\\', 'r']
  else if prints c then [c]
  else if c.toNat < 0x100 then '\\' :: 'x' :: hexadecimal 2 c.toNat
  else if c.toNat < 0x10000 then '\\' :: 'u' :: hexadecimal 4 c.toNat
  else '\\' :: 'U' :: hexadecimal 8 c.toNat

/-- The quoted form of a text. -/
def quoted (s : String) : String :=
  let q := if s.toList.contains '\'' && !s.toList.contains '"' then '"' else '\''
  String.ofList (q :: (s.toList.flatMap (quotedChar q) ++ [q]))

end ChatCommands
