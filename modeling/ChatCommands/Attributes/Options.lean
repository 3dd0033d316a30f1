import ChatCommands.Attributes
import ChatCommands.Failure
import ChatCommands.Text.Blank

/-!
# Attributes from options

Options are settings by the names of the attributes. Each attribute reads its option on its own;
reading all of them either yields the attributes or every fault, in the order in which the
attributes are declared, names that no attribute has last.

A whole number may be given as a text. The text is read strictly first, and if it is no whole
number as it stands once more without what may stand around and between the digits: white space, a
plus, idle zeros, places that are zero and single lines between digits. Only what is strictly
written is told to have too many digits.

## Main definitions

* `OptionFault`, `FieldFault`: what can be wrong with an option, and where
* `Checked`: a value, or all that is wrong with it
* `plainWhole`, `readWhole`: whole numbers from texts
* `Attributes.read`: all options as they are
* `Attributes.ofOptions`: loose options, where an empty one asks for the default
* `Attributes.toOptions`: the options that attributes are read from
-/

namespace ChatCommands

/-- What can be wrong with an option. -/
inductive OptionFault where
  | notBool
  | unreadableBool
  | notText
  | notOneCharacter (field text : String)
  | notInt
  | unreadableInt
  | oversizedInt
  | fractional
  | belowOne
  | notList
  | unknown
  deriving DecidableEq, Repr, Inhabited

/-- The wording of a fault. -/
def OptionFault.message : OptionFault → String
  | notBool => "Input should be a valid boolean"
  | unreadableBool => "Input should be a valid boolean, unable to interpret input"
  | notText => "Input should be a valid string"
  | notOneCharacter field text =>
    "Value error, " ++ field ++ " must be exactly one character, got " ++ quoted text
  | notInt => "Input should be a valid integer"
  | unreadableInt => "Input should be a valid integer, unable to parse string as an integer"
  | oversizedInt => "Unable to parse input string as an integer, exceeded maximum size"
  | fractional => "Input should be a valid integer, got a number with a fractional part"
  | belowOne => "Input should be greater than or equal to 1"
  | notList => "Input should be a valid tuple"
  | unknown => "Extra inputs are not permitted"

/-- A fault and where it was found. -/
structure FieldFault where
  location : List String
  fault : OptionFault
  deriving DecidableEq, Repr, Inhabited

/-- The location as one text. -/
def FieldFault.place (f : FieldFault) : String := ".".intercalate f.location

/-- A value, or all that is wrong with it. -/
inductive Checked (α : Type) where
  | accepted (a : α)
  | rejected (first : FieldFault) (more : List FieldFault)
  deriving Repr

namespace Checked

/-- The faults of a check, none if it accepts. -/
def faults {α : Type} : Checked α → List FieldFault
  | accepted _ => []
  | rejected f fs => f :: fs

/-- A check on two values together: the faults of the first come first. -/
protected def seq {α β : Type} : Checked (α → β) → Checked α → Checked β
  | accepted f, accepted a => accepted (f a)
  | accepted _, rejected a as => rejected a as
  | rejected f fs, a => rejected f (fs ++ a.faults)

instance : Applicative Checked where
  pure := accepted
  seq f a := Checked.seq f (a ())

/-- A check that refuses with one fault. -/
def refuse {α : Type} (field : String) (fault : OptionFault) : Checked α :=
  rejected ⟨[field], fault⟩ []

end Checked

/-- The texts that mean yes and no, whatever their case. -/
def truth? (s : String) : Option Bool :=
  let t := s.map Char.toLower
  if t ∈ ["1", "on", "t", "true", "y", "yes"] then some true
  else if t ∈ ["0", "off", "f", "false", "n", "no"] then some false
  else none

/-- The most digits that a whole number in a text may have. -/
def longestWhole : Nat := 4300

/-- The whole number that a text is: a minus or nothing, and digits without an idle zero. Of a text
that begins with too many digits the rest is not looked at. -/
def plainWhole (s : List Char) : Except OptionFault Int :=
  let sign := s.takeWhile (· = '-')
  let digits := (s.drop sign.length).takeWhile Char.isDigit
  if 1 < sign.length || digits.isEmpty || (digits.head? = some '0' && 1 < digits.length) then
    .error .unreadableInt
  else if longestWhole < digits.length then .error .oversizedInt
  else if sign.length + digits.length < s.length then .error .unreadableInt
  else
    let n := digits.foldl (fun n c => n * 10 + (c.toNat - '0'.toNat)) 0
    .ok (if sign.isEmpty then n else -(n : Int))

/-- A text behind the zeros and lines at its beginning. It goes on at a digit or at a minus; before
a point, and where nothing goes on, the last character that was passed stays. -/
def passZeros (last : Char) : List Char → Option (List Char)
  | [] => some [last]
  | c :: s =>
    if c = '0' || c = '_' then passZeros c s
    else if c = '.' then some (last :: c :: s)
    else if c = '-' || c.isDigit then some (c :: s)
    else none

/-- A text without idle zeros at its beginning, which has to be a digit or a minus. -/
def withoutZeros : List Char → Option (List Char)
  | [] => none
  | c :: s =>
    if c = '0' then passZeros c s
    else if c = '-' || c.isDigit then some (c :: s)
    else none

/-- A text without its places if they are all zero. -/
def withoutPlaces (s : List Char) : List Char :=
  let places := (s.dropWhile (· ≠ '.')).drop 1
  if !places.isEmpty && places.all (· = '0') then s.takeWhile (· ≠ '.') else s

/-- A text without the lines in it if they stand one by one between other characters. -/
def withoutLines (s : List Char) : List Char :=
  let doubled := (s.zip (s.drop 1)).contains ('_', '_')
  if doubled || s.head? = some '_' || s.getLast? = some '_' then s else s.filter (· ≠ '_')

/-- A text with nothing but a minus and digits left of what may stand in a whole number. -/
def bareWhole (s : List Char) : Option (List Char) := do
  let s ← match s with
    | '+' :: '-' :: _ => none
    | '+' :: s => some s
    | s => some s
  let digits (s : List Char) := (withoutZeros s).map fun t => withoutLines (withoutPlaces t)
  match s with
  | '-' :: s => (digits s).map ('-' :: ·)
  | s => digits s

/-- The whole number that a text stands for. -/
def readWhole (s : String) : Except OptionFault Int :=
  match plainWhole s.toList with
  | .error .unreadableInt =>
    match (bareWhole (trim whiteSpace s.toList)).map plainWhole with
    | some (.ok i) => .ok i
    | _ => .error .unreadableInt
  | r => r

namespace Attributes

/-- The least whole number that is too great for a machine word. -/
def wordBound : Int := 9223372036854775808

/-- The whole numbers of a machine word. -/
def wordSized (i : Int) : Bool := -wordBound ≤ i && i < wordBound

/-- The whole numbers for which fractions are taken: those within a machine word, without its
bounds. -/
def withinWord (i : Int) : Bool := -wordBound < i && i < wordBound

/-- A switch from its number. -/
def boolOfInt (field : String) (i : Int) : Checked Bool :=
  if i = 0 then pure false
  else if i = 1 then pure true
  else if wordSized i then .refuse field .unreadableBool
  else .refuse field .notBool

/-- A switch. -/
def readBool (field : String) : Setting → Checked Bool
  | .scalar (.bool b) => pure b
  | .scalar (.int i) => boolOfInt field i
  | .scalar (.decimal d) =>
    match d.whole? with
    | some i => if withinWord i then boolOfInt field i else .refuse field .notBool
    | none => .refuse field .notBool
  | .scalar (.text s) =>
    match truth? s with
    | some b => pure b
    | none => .refuse field .unreadableBool
  | _ => .refuse field .notBool

/-- A reply text, or none. -/
def readMessage (field : String) : Setting → Checked (Option String)
  | .scalar .null => pure none
  | .scalar (.text s) => pure (some s)
  | _ => .refuse field .notText

/-- A grammar symbol. -/
def readSymbol (field : String) : Setting → Checked Char
  | .scalar (.text s) =>
    match s.toList with
    | [c] => pure c
    | _ => .refuse field (.notOneCharacter field s)
  | _ => .refuse field .notText

/-- A depth from its number. -/
def depthOfInt (field : String) (i : Int) : Checked { n : Nat // 0 < n } :=
  if h : 0 < i.toNat then pure ⟨i.toNat, h⟩ else .refuse field .belowOne

/-- A nesting depth. -/
def readDepth (field : String) : Setting → Checked { n : Nat // 0 < n }
  | .scalar (.int i) => depthOfInt field i
  | .scalar (.bool b) => depthOfInt field b.toInt
  | .scalar (.decimal d) =>
    match d.whole? with
    | some i => if withinWord i then depthOfInt field i else .refuse field .oversizedInt
    | none => .refuse field .fractional
  | .scalar (.text s) =>
    match readWhole s with
    | .ok i => depthOfInt field i
    | .error f => .refuse field f
  | _ => .refuse field .notInt

/-- The faults of a list of names: one for each item that is no text. -/
def nameFaults (field : String) (items : List Setting) : List FieldFault :=
  items.zipIdx.filterMap fun (item, i) =>
    match item.text? with
    | some _ => none
    | none => some ⟨[field, "tuple[str, ...]", toString i], .notText⟩

/-- The names of the help command. A bad value is wrong both as a name and as a list of names. -/
def readHelpNames (field : String) : Setting → Checked HelpNames
  | .scalar .null => pure .disabled
  | .scalar (.bool false) => pure .disabled
  | .scalar (.text s) => pure (.one s)
  | .list items =>
    -- A list is no single name, so one bad item makes it wrong in both ways.
    match nameFaults field items with
    | [] => pure (.many (items.filterMap Setting.text?))
    | fs => .rejected ⟨[field, "str"], .notText⟩ fs
  | _ => .rejected ⟨[field, "str"], .notText⟩ [⟨[field, "tuple[str, ...]"], .notList⟩]

/-- The option of a name, read if it is there. -/
def readField {α : Type} (options : Fields) (field : String) (default : α)
    (read : String → Setting → Checked α) : Checked α :=
  match options.lookup field with
  | none => pure default
  | some v => read field v

/-- The names of the grammar symbols, in order. -/
def symbolNames : List String :=
  ["previous", "chain_delimiter", "chain_args_delim", "sub_chain_start", "sub_chain_end",
    "quote_start", "quote_end"]

/-- The names of all attributes, in the order in which they are declared. -/
def fieldNames : List String :=
  ["advanced_functionality", "help_command", "command_doesnt_exist_message",
    "no_permission_message", "spaces_allowed", "parse_self"] ++ symbolNames ++ ["max_chain_depth"]

/-- The grammar symbols. -/
def readSymbols (options : Fields) : Checked Symbols :=
  let d : Symbols := {}
  Symbols.mk <$> readField options "previous" d.previous readSymbol
    <*> readField options "chain_delimiter" d.delimiter readSymbol
    <*> readField options "chain_args_delim" d.argsDelimiter readSymbol
    <*> readField options "sub_chain_start" d.subStart readSymbol
    <*> readField options "sub_chain_end" d.subEnd readSymbol
    <*> readField options "quote_start" d.quoteStart readSymbol
    <*> readField options "quote_end" d.quoteEnd readSymbol

/-- Every option names an attribute. -/
def readNames (options : Fields) : Checked Unit :=
  match options.filter fun o => o.1 ∉ fieldNames with
  | [] => pure ()
  | o :: os => .rejected ⟨[o.1], .unknown⟩ (os.map fun o => ⟨[o.1], .unknown⟩)

/-- All attributes from the options as they are. -/
def read (options : Fields) : Checked Attributes :=
  let d : Attributes := default
  (fun advanced helpNames notFound noPermission spaces parseSelf symbols depth _ =>
      { advanced := advanced, helpNames := helpNames, notFoundMessage := notFound,
        noPermissionMessage := noPermission, spacesAllowed := spaces, parseSelf := parseSelf,
        symbols := symbols, maxDepth := depth.1, maxDepth_pos := depth.2 })
    <$> readField options "advanced_functionality" d.advanced readBool
    <*> readField options "help_command" d.helpNames readHelpNames
    <*> readField options "command_doesnt_exist_message" d.notFoundMessage readMessage
    <*> readField options "no_permission_message" d.noPermissionMessage readMessage
    <*> readField options "spaces_allowed" d.spacesAllowed readBool
    <*> readField options "parse_self" d.parseSelf readBool
    <*> readSymbols options
    <*> readField options "max_chain_depth" ⟨d.maxDepth, d.maxDepth_pos⟩ readDepth
    <*> readNames options

/-- The options for which an empty value has a meaning of its own. -/
def nullable : List String := ["command_doesnt_exist_message", "no_permission_message"]

/-- The options that are given. -/
def given (options : Fields) : Fields :=
  options.filter fun o => !o.2.isNull || o.1 ∈ nullable

/-- The word for what options are read by, which no option can have for its name. -/
def reader : String := "cls"

/-- Attributes from loose options: an empty option asks for the default, and of several faults
the first is told. -/
def ofOptions (options : Fields) : Except Fault Attributes :=
  if (options.lookup reader).isSome then
    .error (.wrongType ("got multiple values for argument '" ++ reader ++ "'"))
  else
    match read (given options) with
    | .accepted a => .ok a
    | .rejected f _ =>
      .error (misconfigured f.place ("Invalid bot attributes: " ++ f.fault.message))

/-- The setting of a reply text. -/
def messageSetting (m : Option String) : Setting := .ofText? m

/-- The setting of the names of the help command. -/
def helpSetting : HelpNames → Setting
  | .disabled => .null
  | .one name => .text name
  | .many names => .list (names.map .text)

/-- The options that attributes are read from. -/
def toOptions (a : Attributes) : Fields :=
  let symbol (c : Char) : Setting := .text c.toString
  [("advanced_functionality", .scalar (.bool a.advanced)),
    ("help_command", helpSetting a.helpNames),
    ("command_doesnt_exist_message", messageSetting a.notFoundMessage),
    ("no_permission_message", messageSetting a.noPermissionMessage),
    ("spaces_allowed", .scalar (.bool a.spacesAllowed)),
    ("parse_self", .scalar (.bool a.parseSelf)),
    ("previous", symbol a.symbols.previous),
    ("chain_delimiter", symbol a.symbols.delimiter),
    ("chain_args_delim", symbol a.symbols.argsDelimiter),
    ("sub_chain_start", symbol a.symbols.subStart),
    ("sub_chain_end", symbol a.symbols.subEnd),
    ("quote_start", symbol a.symbols.quoteStart),
    ("quote_end", symbol a.symbols.quoteEnd),
    ("max_chain_depth", .int a.maxDepth)]

end Attributes

end ChatCommands
