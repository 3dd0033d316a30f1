import ChatCommands.Setting

/-!
# Settings as text

The text of a setting as it stands in a settings file, on one line and without white space between
its parts.

## Main definitions

* `escapedChar`, `quotedText`: a text in double quotes
* `Setting.print`: the text of a setting
-/

namespace ChatCommands

/-- Whether a character controls the display or separates lines. -/
def controls (c : Char) : Bool :=
  let n := c.toNat
  n < 0x20 || (0x7F ≤ n && n ≤ 0x9F) || n = 0x2028 || n = 0x2029

/-- A character as it stands within double quotes: quotes and backslashes behind a backslash, and
what controls the display by its code. -/
def escapedChar (c : Char) : List Char :=
  if c = '"' || c = '\\' then ['\\', c]
  else if controls c then '\\' :: 'u' :: hexadecimal 4 c.toNat
  else [c]

/-- A text in double quotes. -/
def quotedText (s : String) : String :=
  "\"" ++ String.ofList (s.toList.flatMap escapedChar) ++ "\""

/-- A value without structure. -/
def Scalar.print : Scalar → String
  | .null => "null"
  | .bool b => if b then "true" else "false"
  | .int i => toString i
  | .decimal d => d.shown
  | .text s => quotedText s

namespace Setting

mutual

/-- The text of a setting. -/
def print : Setting → String
  | .scalar v => v.print
  | .list items => "[" ++ ",".intercalate (printItems items) ++ "]"
  | .table fields => "\x7b" ++ ",".intercalate (printFields fields) ++ "\x7d"

/-- The texts of the items of a list. -/
def printItems : List Setting → List String
  | [] => []
  | v :: vs => v.print :: printItems vs

/-- The texts of the fields of a table. -/
def printFields : Fields → List String
  | [] => []
  | (n, v) :: fs => (quotedText n ++ ":" ++ v.print) :: printFields fs

end

end Setting

end ChatCommands
