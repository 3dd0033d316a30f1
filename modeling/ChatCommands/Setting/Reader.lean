import ChatCommands.Setting

/-!
# Settings from text

A settings file holds one setting in JSON: a table in braces, a list in brackets, a text in double
quotes, a number, a truth value, or nothing. White space may stand between them. A number with a
point or with a power of ten is a fraction, any other a whole number.

## Main definitions

* `skipSpace`, `readNumber?`, `readQuoted?`: the parts without structure
* `SettingReader.value?`, `SettingReader.items?`, `SettingReader.fields?`: a setting, and what
  stands in brackets and in braces
* `Setting.parse?`: the setting of a text
-/

namespace ChatCommands

/-- A text without the white space at its beginning. -/
def skipSpace (s : List Char) : List Char :=
  s.dropWhile fun c => c = ' ' || c = '\n' || c = '\r' || c = '\t'

/-- The number that decimal digits stand for. -/
def natOfDigits (s : List Char) : Nat := s.foldl (fun n c => n * 10 + (c.toNat - '0'.toNat)) 0

/-- The value of a hexadecimal digit. -/
def hexValue? (c : Char) : Option Nat :=
  if c.isDigit then some (c.toNat - '0'.toNat)
  else if 'a' ≤ c ∧ c ≤ 'f' then some (c.toNat - 'a'.toNat + 10)
  else if 'A' ≤ c ∧ c ≤ 'F' then some (c.toNat - 'A'.toNat + 10)
  else none

/-- The number that hexadecimal digits stand for. -/
def natOfHex? (s : List Char) : Option Nat :=
  s.foldlM (fun n c => (hexValue? c).map (n * 16 + ·)) 0

/-- The places of a number at the beginning of a text, if it has a point, and what stands behind
them. -/
def readPlaces? : List Char → Option (Option (List Char) × List Char)
  | '.' :: s =>
    let places := s.takeWhile Char.isDigit
    if places.isEmpty then none else some (some places, s.dropWhile Char.isDigit)
  | s => some (none, s)

/-- The power of ten of a number at the beginning of a text, if it has one, and what stands behind
it. -/
def readPower? (s : List Char) : Option (Option Int × List Char) :=
  if s.head? = some 'e' || s.head? = some 'E' then
    let t := s.drop 1
    let negative := t.head? = some '-'
    let t := if negative || t.head? = some '+' then t.drop 1 else t
    let digits := t.takeWhile Char.isDigit
    if digits.isEmpty then none
    else
      let n : Int := natOfDigits digits
      some (some (if negative then -n else n), t.dropWhile Char.isDigit)
  else some (none, s)

/-- The fraction with digits before and behind the point, times a power of ten. -/
def decimalOf (negative : Bool) (whole places : List Char) (power : Int) : Decimal :=
  let digits := natOfDigits (whole ++ places)
  let left : Int := places.length - power
  ⟨negative, digits * Nat.pow 10 (-left).toNat, left.toNat⟩

/-- A number at the beginning of a text, and what stands behind it. -/
def readNumber? (s : List Char) : Option (Scalar × List Char) := do
  let negative := s.head? = some '-'
  let s := if negative then s.drop 1 else s
  let whole := s.takeWhile Char.isDigit
  if whole.isEmpty then none
  let (places, rest) ← readPlaces? (s.dropWhile Char.isDigit)
  let (power, rest) ← readPower? rest
  match places, power with
  | none, none =>
    let n : Int := natOfDigits whole
    return (.int (if negative then -n else n), rest)
  | places, power =>
    return (.decimal (decimalOf negative whole (places.getD []) (power.getD 0)), rest)

/-- The character that a letter behind a backslash stands for. -/
def escaped? (c : Char) : Option Char :=
  [('"', '"'), ('\\', '\\'), ('/', '/'), ('n', '\n'), ('t', '\t'), ('r', '\r'),
    ('b', Char.ofNat 8), ('f', Char.ofNat 12)].lookup c

/-- The character of a code unit, which must not be half of a pair. -/
def charOfUnit? (digits : List Char) : Option Char := do
  let n ← natOfHex? digits
  if 0xD800 ≤ n && n ≤ 0xDFFF then none else some (Char.ofNat n)

/-- The character of two code units that make a pair. -/
def charOfPair? (high low : List Char) : Option Char := do
  let m ← natOfHex? high
  let n ← natOfHex? low
  if 0xD800 ≤ m && m ≤ 0xDBFF && 0xDC00 ≤ n && n ≤ 0xDFFF then
    some (Char.ofNat (0x10000 + (m - 0xD800) * 0x400 + (n - 0xDC00)))
  else none

/-- A text up to its closing quote, behind the characters of it that have been read, the last one
first, and what stands behind the quote. -/
def readQuoted? (done : List Char) : List Char → Option (List Char × List Char)
  | [] => none
  | '"' :: s => some (done.reverse, s)
  | '\\' :: 'u' :: a :: b :: c :: d :: s =>
    match charOfUnit? [a, b, c, d] with
    | some x => readQuoted? (x :: done) s
    | none =>
      match s with
      | '\\' :: 'u' :: e :: f :: g :: h :: s =>
        match charOfPair? [a, b, c, d] [e, f, g, h] with
        | some x => readQuoted? (x :: done) s
        | none => none
      | _ => none
  | '\\' :: c :: s =>
    match escaped? c with
    | some x => readQuoted? (x :: done) s
    | none => none
  | c :: s => readQuoted? (c :: done) s

namespace SettingReader

/-- A word at the beginning of a text, and what stands behind it. -/
def word? (w : String) (v : Scalar) (s : List Char) : Option (Setting × List Char) :=
  if w.toList.isPrefixOf s then some (.scalar v, s.drop w.toList.length) else none

/-- A setting without structure. -/
def scalar? (s : List Char) : Option (Setting × List Char) :=
  word? "null" .null s <|> word? "true" (.bool true) s <|> word? "false" (.bool false) s <|>
    (readNumber? s).map fun (v, rest) => (.scalar v, rest)

mutual

/-- A setting at the beginning of a text, and what stands behind it. The fuel bounds how deep and
how long it is. -/
def value? : Nat → List Char → Option (Setting × List Char)
  | 0, _ => none
  | n + 1, s =>
    match skipSpace s with
    | '"' :: s => (readQuoted? [] s).map fun (t, rest) => (.text (String.ofList t), rest)
    | '[' :: s =>
      match skipSpace s with
      | ']' :: rest => some (.list [], rest)
      | s => items? n [] s
    | '{' :: s =>
      match skipSpace s with
      | '}' :: rest => some (.table [], rest)
      | s => fields? n [] s
    | s => scalar? s

/-- The items of a list behind those read already, the last one first, up to its closing
bracket. -/
def items? : Nat → List Setting → List Char → Option (Setting × List Char)
  | 0, _, _ => none
  | n + 1, done, s => do
    let (v, rest) ← value? n s
    match skipSpace rest with
    | ',' :: rest => items? n (v :: done) rest
    | ']' :: rest => return (.list (v :: done).reverse, rest)
    | _ => none

/-- The fields of a table behind those read already, up to its closing brace. -/
def fields? : Nat → Fields → List Char → Option (Setting × List Char)
  | 0, _, _ => none
  | n + 1, done, s => do
    match skipSpace s with
    | '"' :: s =>
      let (name, rest) ← readQuoted? [] s
      match skipSpace rest with
      | ':' :: rest =>
        let (v, rest) ← value? n rest
        let done := done.put (String.ofList name) v
        match skipSpace rest with
        | ',' :: rest => fields? n done rest
        | '}' :: rest => return (.table done, rest)
        | _ => none
      | _ => none
    | _ => none

end

end SettingReader

/-- The setting of a text; a text of white space only is the empty setting. -/
def Setting.parse? (s : String) : Option Setting :=
  if (skipSpace s.toList).isEmpty then some .null
  else
    match SettingReader.value? (s.length + 1) s.toList with
    | some (v, rest) => if (skipSpace rest).isEmpty then some v else none
    | none => none

end ChatCommands
