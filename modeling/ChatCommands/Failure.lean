import ChatCommands.Setting

/-!
# Failures

A failure carries what callers decide on: its kind, whether trying again can help, the part of
the bot it comes from, and named details. A fault is anything that ends a command early: a
failure, or one of the plain errors a command body or a settings file can cause. Values of a wrong
type do harm only where they are used, and what they do then is a fault too.

## Main definitions

* `Category`, `FailureKind`, `Failure`: classified failures
* `Failure.shown`, `Failure.debugShown`: the two displayed forms
* `Fault`: all that can end a command early
-/

namespace ChatCommands

/-- Whether trying again can help. -/
inductive Category where
  | transient
  | permanent
  | infrastructure
  /-- Something was given for a category that is none. -/
  | other (v : Setting)
  deriving DecidableEq, Repr, Inhabited

namespace Category

/-- The word for a category. -/
def name : Category → String
  | transient => "transient"
  | permanent => "permanent"
  | infrastructure => "infrastructure"
  | other v => v.shown

/-- The category that a word stands for. -/
def ofName? (s : String) : Option Category :=
  [transient, permanent, infrastructure].find? (·.name == s)

end Category

/-- The kinds of failure, with what each of them alone carries. -/
inductive FailureKind where
  | general
  | configuration (setting : Setting)
  | noPermission (action : Setting)
  | chainParse
  | chainDepth (limit : Setting)
  | transport
  deriving DecidableEq, Repr, Inhabited

namespace FailureKind

/-- The word for a kind. -/
def name : FailureKind → String
  | general => "ChainBotError"
  | configuration _ => "ConfigurationError"
  | noPermission _ => "NoPermission"
  | chainParse => "ChainParseError"
  | chainDepth _ => "ChainDepthError"
  | transport => "TransportError"

/-- The words for the kinds that a failure belongs to, the narrowest first. -/
def lineage : FailureKind → List String
  | general => ["ChainBotError"]
  | chainDepth _ => ["ChainDepthError", "ChainParseError", "ChainBotError"]
  | k => [k.name, "ChainBotError"]

/-- The part of the bot that failures of a kind come from unless they name another. -/
def origin : FailureKind → Option String
  | general => none
  | configuration _ => some "config"
  | noPermission _ => some "permissions"
  | chainParse => some "parser"
  | chainDepth _ => some "parser"
  | transport => some "transport"

/-- The category of failures of a kind unless they name another. -/
def category : FailureKind → Category
  | configuration _ => .infrastructure
  | transport => .transient
  | _ => .permanent

/-- What a kind alone carries, by name. -/
def own : FailureKind → Fields
  | configuration v => [("setting_name", v)]
  | noPermission v => [("action", v)]
  | chainDepth v => [("max_depth", v)]
  | _ => []

/-- The details that a kind contributes: a depth failure tells its limit. -/
def details : FailureKind → Fields
  | chainDepth v => [("max_depth", v)]
  | _ => []

end FailureKind

/-- A classified failure. -/
structure Failure where
  kind : FailureKind
  message : Setting
  category : Category
  origin : Setting
  details : Fields
  deriving DecidableEq, Repr, Inhabited

namespace Failure

/-- A failure of a kind; an origin that is not given is the kind's own. -/
def of (kind : FailureKind) (message : Setting) (category : Option Category := none)
    (origin : Setting := .null) (details : Fields := []) : Failure where
  kind := kind
  message := message
  category := category.getD kind.category
  -- A kind without an origin of its own keeps even an empty one.
  origin := if origin.counts then origin else (kind.origin.map .text).getD origin
  details := kind.details ++ details

/-- Whether trying again can help. -/
def retryable (f : Failure) : Bool := f.category = .transient

/-- The displayed form: message or kind, origin, details. -/
def shown (f : Failure) : String :=
  let head := if f.message.counts then f.message.shown else f.kind.name
  let origin := if f.origin.counts then ["[module=" ++ f.origin.shown ++ "]"] else []
  let details :=
    if f.details.isEmpty then []
    else ["(" ++ ", ".intercalate (f.details.map fun d => d.1 ++ "=" ++ d.2.shown) ++ ")"]
  " ".intercalate (head :: origin ++ details)

/-- The form shown while looking for a mistake. -/
def debugShown (f : Failure) : String :=
  f.kind.name ++ "(" ++ f.message.written ++ ", category=" ++ quoted f.category.name ++
    ", module=" ++ f.origin.written ++ ")"

/-- A message that is given has to be a text to be displayed. -/
def showable (f : Failure) : Bool := !f.message.counts || f.message.text?.isSome

end Failure

/-- All that can end a command, or the building of a bot, early. -/
inductive Fault where
  | failure (f : Failure)
  /-- A value outside the range that a request allows. -/
  | badValue (message : String)
  /-- A mishap of a command body. -/
  | runtime (message : String)
  /-- Attributes were given twice over. -/
  | attributesTwice
  /-- A value of a type that cannot be used as asked. -/
  | wrongType (message : String)
  /-- A value of a type that has no such part. -/
  | missingPart (message : String)
  /-- An entry that a table does not have. -/
  | missingEntry (entry : String)
  /-- A position at which a list has no item. -/
  | outOfRange (message : String)
  /-- A directory stands where a file is to be written. -/
  | directoryInPlace (path : String)
  deriving DecidableEq, Repr, Inhabited

namespace Fault

/-- The word for the type of a fault. -/
def name : Fault → String
  | failure f => f.kind.name
  | badValue _ => "ValueError"
  | runtime _ => "RuntimeError"
  | attributesTwice => "TypeError"
  | wrongType _ => "TypeError"
  | missingPart _ => "AttributeError"
  | missingEntry _ => "KeyError"
  | outOfRange _ => "IndexError"
  | directoryInPlace _ => "IsADirectoryError"

/-- The displayed form. -/
def shown : Fault → String
  | failure f => f.shown
  | badValue m => m
  | runtime m => m
  | attributesTwice => "Pass either attributes or attribute options, not both"
  | wrongType m => m
  | missingPart m => m
  | missingEntry k => k
  | outOfRange m => m
  | directoryInPlace p => "[Errno 21] Is a directory: " ++ quoted p

/-- Whether the fault has a displayed form. -/
def showable : Fault → Bool
  | failure f => f.showable
  | _ => true

/-- Whether the fault says that the author may not do something. -/
def isNoPermission : Fault → Bool
  | failure ⟨.noPermission _, _, _, _, _⟩ => true
  | _ => false

/-- A value without a part that was asked for. -/
def lacks (v : Setting) (part : String) : Fault :=
  .missingPart ("'" ++ v.typeName ++ "' object has no attribute '" ++ part ++ "'")

/-- A value that has no items. -/
def noItems (v : Setting) : Fault := .wrongType ("'" ++ v.typeName ++ "' object is not iterable")

/-- A value under which nothing can be kept. -/
def noKey (v : Setting) : Fault := .wrongType ("unhashable type: '" ++ v.typeName ++ "'")

/-- Two values of which neither is before the other. -/
def notComparable (sign : String) (a b : Setting) : Fault :=
  .wrongType ("'" ++ sign ++ "' not supported between instances of '" ++ a.typeName ++ "' and '" ++
    b.typeName ++ "'")

end Fault

/-- What keeps a failure from being displayed, with its category or without. -/
def Failure.hidden (f : Failure) (inFull : Bool) : Option Fault :=
  match f.showable, f.category with
  | false, _ =>
    some (.wrongType ("__str__ returned non-string (type " ++ f.message.typeName ++ ")"))
  | true, .other v => if inFull then some (.lacks v "value") else none
  | true, _ => none

/-- What keeps a fault from being told: of configuration failures the category is told too. -/
def Fault.hidden : Fault → Option Fault
  | .failure f =>
    match f.kind with
    | .configuration _ => f.hidden true
    | _ => f.hidden false
  | _ => none

/-- A configuration failure about a setting. -/
def misconfigured (setting message : String) : Fault :=
  .failure (.of (.configuration setting) message)

end ChatCommands
