import ChatCommands.Failure

/-!
# Failures from keywords

A fault can be described by the word for its type, a message, keywords and a context of further
values. A keyword that the kind of failure has a use for is taken by it; all others are details.
No keyword may be given twice, and the message is none of them. Plain errors take a message alone.

## Main definitions

* `Category.parse`: a category from its word
* `contextFields`: a context as fields
* `Fault.ofKeywords`, `Failure.ofKeywordsInFull`: the fault that keywords describe, as it is raised,
  and the failure as it is looked at
-/

namespace ChatCommands

/-- The category that a word stands for, or the fault that it stands for none. -/
def Category.parse (v : Setting) : Except Fault Category :=
  match v.text? >>= Category.ofName? with
  | some c => .ok c
  | none => .error (.badValue (v.written ++ " is not a valid ErrorCategory"))

/-- A context as fields; of values with one name the last counts, in the place of the first. -/
def contextFields (context : List (Setting × Setting)) : Except Fault Fields :=
  context.foldlM (fun fields c =>
    match c.1 with
    | .scalar (.text n) => .ok (fields.put n c.2)
    | .scalar _ => .error (.wrongType "keywords must be strings")
    | v => .error (.noKey v)) []

/-- The kind of failure that a word stands for, with what it takes of the keywords. -/
def FailureKind.ofKeywords (name : String) (keywords : Fields) : FailureKind :=
  let value (n : String) : Setting := (keywords.lookup n).getD .null
  match name with
  | "ConfigurationError" => .configuration (value "setting_name")
  | "NoPermission" => .noPermission (value "action")
  | "ChainParseError" => .chainParse
  | "ChainDepthError" => .chainDepth (value "max_depth")
  | "TransportError" => .transport
  | _ => .general

/-- A failure from its keywords. -/
def Failure.ofKeywords (name : String) (message : Setting) (category : Option Category)
    (keywords : Fields) : Failure :=
  let kind := FailureKind.ofKeywords name keywords
  let taken := "category" :: "module" :: kind.own.map (·.1)
  .of kind message category ((keywords.lookup "module").getD .null)
    (keywords.filter fun k => k.1 ∉ taken)

/-- The fault that keywords and a context describe, or what is wrong with them. -/
def Fault.ofKeywords (name : String) (message : Setting) (keywords : Fields)
    (context : List (Setting × Setting)) : Except Fault Fault := do
  if name = "ValueError" then return .badValue message.shown
  if name = "RuntimeError" then return .runtime message.shown
  let category ← (keywords.lookup "category").mapM Category.parse
  let more ← contextFields context
  let all := keywords ++ more
  if let some k := more.find? fun k => (keywords.lookup k.1).isSome then
    throw (.wrongType ("chainbot.exceptions." ++ name ++
      "() got multiple values for keyword argument '" ++ k.1 ++ "'"))
  if let some k := all.find? fun k => k.1 = "message" || k.1 = "self" then
    throw (.wrongType (name ++ ".__init__() got multiple values for argument '" ++ k.1 ++ "'"))
  -- What the context gives for a category stays what it is.
  let word := (more.lookup "category").map Category.other
  return .failure (.ofKeywords name message (word <|> category) all)

/-- The failure that keywords and a context describe, to be looked at in full. Plain errors have no
category to look at. -/
def Failure.ofKeywordsInFull (name : String) (message : Setting) (keywords : Fields)
    (context : List (Setting × Setting)) : Except Fault Failure := do
  match ← Fault.ofKeywords name message keywords context with
  | .failure f =>
    match f.hidden true with
    | some g => throw g
    | none => return f
  | f => throw (.missingPart ("'" ++ f.name ++ "' object has no attribute 'category'"))

end ChatCommands
