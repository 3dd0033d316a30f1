import ChatCommands.Attributes
import ChatCommands.Attributes.Options
import ChatCommands.Bot
import ChatCommands.Chain
import ChatCommands.Chain.Items
import ChatCommands.Chain.Parse
import ChatCommands.Chain.Scan
import ChatCommands.Chat
import ChatCommands.Command.Options
import ChatCommands.Config
import ChatCommands.Config.Variables
import ChatCommands.Console
import ChatCommands.Console.Transcript
import ChatCommands.Decimal
import ChatCommands.Dispatch.ChainProgram
import ChatCommands.Dispatch.Core
import ChatCommands.Dispatch.Gate
import ChatCommands.Dispatch.Run
import ChatCommands.Failure
import ChatCommands.Failure.Keywords
import ChatCommands.FilePath
import ChatCommands.Help
import ChatCommands.Log
import ChatCommands.Log.Redaction
import ChatCommands.Log.Setup
import ChatCommands.Main
import ChatCommands.Permission.Levels
import ChatCommands.Permission.Lock
import ChatCommands.Permission.Requirement
import ChatCommands.Program
import ChatCommands.Proofs.Attributes.NormalForm
import ChatCommands.Proofs.Bot.Accounting
import ChatCommands.Proofs.Bot.Buffer
import ChatCommands.Proofs.Bot.Cancellation
import ChatCommands.Proofs.Bot.Containment
import ChatCommands.Proofs.Bot.DepthGuard
import ChatCommands.Proofs.Bot.Disclosure
import ChatCommands.Proofs.Bot.Intake
import ChatCommands.Proofs.Bot.Isolation
import ChatCommands.Proofs.Bot.Lines
import ChatCommands.Proofs.Bot.Losses
import ChatCommands.Proofs.Bot.Mediation
import ChatCommands.Proofs.Bot.Modes
import ChatCommands.Proofs.Bot.Notices
import ChatCommands.Proofs.Bot.Operations
import ChatCommands.Proofs.Bot.Scene
import ChatCommands.Proofs.Bot.Settling
import ChatCommands.Proofs.Bot.Shutdown
import ChatCommands.Proofs.Bot.Silence
import ChatCommands.Proofs.Bot.SubChains
import ChatCommands.Proofs.Bot.Threads
import ChatCommands.Proofs.Bot.Ticks
import ChatCommands.Proofs.Bot.Tracking
import ChatCommands.Proofs.Bot.Turns
import ChatCommands.Proofs.Bot.Undisturbed
import ChatCommands.Proofs.Chain.Canonical
import ChatCommands.Proofs.Chain.Closing
import ChatCommands.Proofs.Chain.Consumption
import ChatCommands.Proofs.Chain.Depth
import ChatCommands.Proofs.Chain.Descent
import ChatCommands.Proofs.Chain.Escaping
import ChatCommands.Proofs.Chain.Joining
import ChatCommands.Proofs.Chain.Notes
import ChatCommands.Proofs.Chain.Printer
import ChatCommands.Proofs.Chain.Reader
import ChatCommands.Proofs.Chain.RoundTrip
import ChatCommands.Proofs.Chain.Shape
import ChatCommands.Proofs.Chain.Size
import ChatCommands.Proofs.Chain.Spacing
import ChatCommands.Proofs.Chain.Wording
import ChatCommands.Proofs.Chain.Words
import ChatCommands.Proofs.Config.Problems
import ChatCommands.Proofs.Console.Answers
import ChatCommands.Proofs.Console.Paces
import ChatCommands.Proofs.Console.Program
import ChatCommands.Proofs.Dispatch.Conversation
import ChatCommands.Proofs.Dispatch.Gate
import ChatCommands.Proofs.Dispatch.Guise
import ChatCommands.Proofs.Dispatch.Modes
import ChatCommands.Proofs.Dispatch.Outcome
import ChatCommands.Proofs.Dispatch.Plan
import ChatCommands.Proofs.Dispatch.Queue
import ChatCommands.Proofs.Dispatch.Requests
import ChatCommands.Proofs.Dispatch.Step
import ChatCommands.Proofs.Dispatch.Straight
import ChatCommands.Proofs.Dispatch.Telling
import ChatCommands.Proofs.Log.Coverage
import ChatCommands.Proofs.Log.Redaction
import ChatCommands.Proofs.Log.Scrubbing
import ChatCommands.Proofs.Log.Tokens
import ChatCommands.Proofs.Permission.Exclusion
import ChatCommands.Proofs.Permission.Grants
import ChatCommands.Proofs.Permission.Wakeups
import ChatCommands.Proofs.Registry.Bindings
import ChatCommands.Proofs.Registry.History
import ChatCommands.Proofs.Registry.Listing
import ChatCommands.Proofs.Registry.Order
import ChatCommands.Registry
import ChatCommands.Scheduler
import ChatCommands.Scheduler.Drill
import ChatCommands.Script
import ChatCommands.Setting
import ChatCommands.Setting.Printer
import ChatCommands.Setting.Reader
import ChatCommands.Setting.Use
import ChatCommands.Text.Blank
import ChatCommands.Text.Mark
import ChatCommands.Text.Printing
import ChatCommands.Text.Quoted
import ChatCommands.Trigger
