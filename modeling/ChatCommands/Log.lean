import ChatCommands.Setting

/-!
# The log

What the bot reports while it works. An event states what happened; its entry is the form in
which it is written: the subsystem it comes from, a level, a name and named fields.

## Main definitions

* `LogEvent`: the events
* `LogEvent.entry`: their written form
-/

namespace ChatCommands

/-- The parts of the bot that report. -/
inductive Subsystem where
  | bot
  | parser
  | dispatch
  | permissions
  | scheduler
  | transport
  deriving DecidableEq, Repr, Inhabited

namespace Subsystem

/-- All subsystems, in the order in which their logs are set up. -/
def all : List Subsystem := [bot, parser, dispatch, permissions, scheduler, transport]

/-- The short name, also that of the log file. -/
def name : Subsystem → String
  | bot => "bot"
  | parser => "parser"
  | dispatch => "dispatch"
  | permissions => "permissions"
  | scheduler => "scheduler"
  | transport => "transport"

/-- The name under which a subsystem reports. -/
def logger (s : Subsystem) : String := "chainbot." ++ s.name

end Subsystem

/-- How much an event matters. -/
inductive Severity where
  | debug
  | info
  | warning
  | error
  deriving DecidableEq, Repr, Inhabited

/-- The word for a severity. -/
def Severity.name : Severity → String
  | debug => "debug"
  | info => "info"
  | warning => "warning"
  | error => "error"

/-- The written form of an event. -/
structure LogEntry where
  subsystem : Subsystem
  severity : Severity
  event : String
  fields : Fields
  deriving Repr, Inhabited

/-- What the bot reports. -/
inductive LogEvent where
  | chainStartsWithSpace
  | chainEmpty
  | messageWithoutAuthor (message channel : Setting)
  | chainTriggered (author channel : Setting) (length : Nat)
  | chainParsing (chain : String)
  | chainTooDeep (limit author : Setting)
  | botStopped (cancelled : Nat)
  | settingOfWrongType (key type : String)
  | settingOutOfRange (key : String) (value : Setting) (valid : String)
  | subChainUnterminated (depth : Nat)
  | invocationWithoutName (arguments : Nat)
  | quoteUnterminated
  | chainParsed (invocations : Nat)
  | commandExecuting (command : Setting) (arguments : List Setting)
  | commandNotFound (command : Setting)
  | permissionDenied (command user requiredLevel : Setting)
  | noPermissionRaised (command user : Setting)
  | fileDelivered (channel : Setting)
  | responseDelivered (channel : Setting) (length : Nat)
  | commandConflict (command : Setting)
  | commandRegistered (command : Setting) (aliases : List Setting)
  | userLevelSet (user level : Setting)
  | roleLevelSet (role level : Setting)
  | unitSpawned (unit : Setting) (inFlight : Nat)
  | unitCancelled (unit : Setting)
  | unitFailed (unit : Setting) (error type : String)
  | unitsCancelledOnShutdown (count : Nat)
  deriving DecidableEq, Repr, Inhabited

namespace LogEvent

/-- The written form of an event. -/
def entry : LogEvent → LogEntry
  | chainStartsWithSpace => ⟨.bot, .debug, "chain_starts_with_space", []⟩
  | chainEmpty => ⟨.bot, .debug, "chain_empty", []⟩
  | messageWithoutAuthor m c =>
    ⟨.bot, .warning, "message_without_author", [("message_id", m), ("channel_id", c)]⟩
  | chainTriggered a c n =>
    ⟨.bot, .info, "chain_triggered",
      [("author_id", a), ("channel_id", c), ("length", .int n)]⟩
  | chainParsing s => ⟨.bot, .debug, "chain_parsing", [("chain", .text s)]⟩
  | chainTooDeep n a =>
    ⟨.bot, .warning, "chain_too_deep",
      [("max_depth", n), ("author_id", a)]⟩
  | botStopped n => ⟨.bot, .info, "bot_stopped", [("cancelled_units", .int n)]⟩
  | settingOfWrongType k t =>
    ⟨.bot, .error, "config_invalid_type", [("key", .text k), ("type", .text t)]⟩
  | settingOutOfRange k v r =>
    ⟨.bot, .error, "config_invalid_value", [("key", .text k), ("value", v), ("valid", .text r)]⟩
  | subChainUnterminated d => ⟨.parser, .debug, "sub_chain_unterminated", [("depth", .int d)]⟩
  | invocationWithoutName n =>
    ⟨.parser, .debug, "invocation_without_name", [("arguments", .int n)]⟩
  | quoteUnterminated => ⟨.parser, .debug, "quote_unterminated", []⟩
  | chainParsed n => ⟨.dispatch, .debug, "chain_parsed", [("invocations", .int n)]⟩
  | commandExecuting c as =>
    ⟨.dispatch, .debug, "command_executing", [("command", c), ("arguments", .list as)]⟩
  | commandNotFound c => ⟨.dispatch, .info, "command_not_found", [("command", c)]⟩
  | permissionDenied c u n =>
    ⟨.dispatch, .info, "permission_denied",
      [("command", c), ("user_id", u), ("required_level", n)]⟩
  | noPermissionRaised c u =>
    ⟨.dispatch, .warning, "no_permission_raised", [("command", c), ("user_id", u)]⟩
  | fileDelivered c => ⟨.dispatch, .debug, "file_delivered", [("channel_id", c)]⟩
  | responseDelivered c n =>
    ⟨.dispatch, .debug, "response_delivered", [("channel_id", c), ("length", .int n)]⟩
  | commandConflict c => ⟨.dispatch, .warning, "command_handler_conflict", [("command", c)]⟩
  | commandRegistered c as =>
    ⟨.dispatch, .debug, "command_registered", [("command", c), ("aliases", .list as)]⟩
  | userLevelSet u n =>
    ⟨.permissions, .info, "user_permission_set", [("user_id", u), ("level", n)]⟩
  | roleLevelSet r n =>
    ⟨.permissions, .info, "role_permission_set", [("role_id", r), ("level", n)]⟩
  | unitSpawned u n =>
    ⟨.scheduler, .debug, "unit_spawned", [("unit", u), ("in_flight", .int n)]⟩
  | unitCancelled u => ⟨.scheduler, .info, "unit_cancelled", [("unit", u)]⟩
  | unitFailed u e t =>
    ⟨.scheduler, .error, "unit_failed",
      [("unit", u), ("error", .text e), ("exc_type", .text t),
        ("exc_info", .scalar (.bool true))]⟩
  | unitsCancelledOnShutdown n =>
    ⟨.scheduler, .warning, "units_cancelled_on_shutdown", [("count", .int n)]⟩

end LogEvent

end ChatCommands
