import TgMessenger.Agent.Allowlist
import TgMessenger.Agent.Config
import TgMessenger.Agent.Histories
import TgMessenger.Agent.Intents
import TgMessenger.Agent.Orchestrator
import TgMessenger.Agent.Runner
import TgMessenger.Asyncio.Keeps
import TgMessenger.Asyncio.KeyedLocks
import TgMessenger.Asyncio.Lock
import TgMessenger.Asyncio.Loop
import TgMessenger.Asyncio.Outline
import TgMessenger.Asyncio.Protocol
import TgMessenger.Asyncio.Queue
import TgMessenger.Asyncio.Task
import TgMessenger.Asyncio.Termination
import TgMessenger.Asyncio.Trace
import TgMessenger.Asyncio.Watch
import TgMessenger.Auth.LazyRewrite
import TgMessenger.Auth.LoginSession
import TgMessenger.Auth.NoClobber
import TgMessenger.Auth.ProfilePaths
import TgMessenger.Auth.SessionStore
import TgMessenger.Auth.ValidProfile
import TgMessenger.Cache.Basic
import TgMessenger.Cache.Calls
import TgMessenger.Cache.Epochs
import TgMessenger.Cache.Freshness
import TgMessenger.Cache.SingleFlight
import TgMessenger.Cache.Versions
import TgMessenger.Cli.Dotenv
import TgMessenger.Cli.Output
import TgMessenger.Cli.Precedence
import TgMessenger.Client.Current
import TgMessenger.Client.History
import TgMessenger.Core.Candidates
import TgMessenger.Core.Dialogs
import TgMessenger.Core.Dotenv
import TgMessenger.Core.Languages
import TgMessenger.Core.Models
import TgMessenger.Core.Names
import TgMessenger.Core.Paths
import TgMessenger.Core.Shlex
import TgMessenger.Core.Usernames
import TgMessenger.Data.Filling
import TgMessenger.Data.History
import TgMessenger.Data.Integers
import TgMessenger.Data.Json
import TgMessenger.Data.Layers
import TgMessenger.Data.Lines
import TgMessenger.Data.Machine
import TgMessenger.Data.Markup
import TgMessenger.Data.Newer
import TgMessenger.Data.OrderedDict
import TgMessenger.Data.Pages
import TgMessenger.Data.Patterns
import TgMessenger.Data.Quoting
import TgMessenger.Data.RateWindow
import TgMessenger.Data.Readings
import TgMessenger.Data.StateGraph
import TgMessenger.Data.Table
import TgMessenger.Data.Tally
import TgMessenger.Data.Text
import TgMessenger.Events.Bus
import TgMessenger.Events.Delivery
import TgMessenger.Ghostwrite.Dialogs
import TgMessenger.Ghostwrite.Echo
import TgMessenger.Ghostwrite.Engine
import TgMessenger.Ghostwrite.KillSwitch
import TgMessenger.Ghostwrite.RateCap
import TgMessenger.Heartbeat.Safety
import TgMessenger.Heartbeat.Service
import TgMessenger.Interop.Adoption
import TgMessenger.Interop.CorruptQueue
import TgMessenger.Interop.Durability
import TgMessenger.Interop.FactoryClient
import TgMessenger.Interop.MediaParity
import TgMessenger.Interop.Worker
import TgMessenger.MessageStore.Coherence
import TgMessenger.MessageStore.Db
import TgMessenger.MessageStore.Deletion
import TgMessenger.MessageStore.Discipline
import TgMessenger.MessageStore.Eviction
import TgMessenger.MessageStore.Exclusion
import TgMessenger.MessageStore.OnePeer
import TgMessenger.MessageStore.Paging
import TgMessenger.MessageStore.PeerState
import TgMessenger.MessageStore.Program
import TgMessenger.MessageStore.Readers
import TgMessenger.MessageStore.Server
import TgMessenger.MessageStore.Session
import TgMessenger.MessageStore.Sync
import TgMessenger.MessageStore.Turns
import TgMessenger.MessageStore.Window
import TgMessenger.MessageStore.World
import TgMessenger.Moderation.DryRun
import TgMessenger.Moderation.Engine
import TgMessenger.Moderation.RateWindow
import TgMessenger.Outbound.Coordinator
import TgMessenger.Outbound.DialogLang
import TgMessenger.Outbound.ManualLang
import TgMessenger.Outbound.Redeemable
import TgMessenger.Outbound.Scripts
import TgMessenger.Outbound.Tokens
import TgMessenger.Pane.Arrivals
import TgMessenger.Pane.AtMostOnce
import TgMessenger.Pane.Config
import TgMessenger.Pane.History
import TgMessenger.Pane.MediaCommand
import TgMessenger.Pane.Messages
import TgMessenger.Pane.Recipient
import TgMessenger.Pane.Rows
import TgMessenger.Pane.Send
import TgMessenger.Pane.Stream
import TgMessenger.Pane.Wire
import TgMessenger.Pane.Wrap
import TgMessenger.Storage.Concurrent
import TgMessenger.Storage.Connection
import TgMessenger.Storage.Migrations
import TgMessenger.Suggest.Aged
import TgMessenger.Suggest.Kept
import TgMessenger.Suggest.Receipts
import TgMessenger.Suggest.Spent
import TgMessenger.Suggest.World
import TgMessenger.Translate.Cache
import TgMessenger.Translate.Conservative
import TgMessenger.Translate.Current
import TgMessenger.Translate.Failure
import TgMessenger.Translate.Finality
import TgMessenger.Translate.Policy
import TgMessenger.Translate.Program
import TgMessenger.Translate.Settings
import TgMessenger.Translate.World
import TgMessenger.Tui.Backfill
import TgMessenger.Tui.Composer
import TgMessenger.Tui.Kept
import TgMessenger.Tui.Order
import TgMessenger.Tui.Pane
import TgMessenger.Tui.Parsing
import TgMessenger.Watch.Matching
import TgMessenger.Watch.Watcher
import TgMessenger.Web.App
import TgMessenger.Web.Bubbles
import TgMessenger.Web.Composer
import TgMessenger.Web.Confirm
import TgMessenger.Web.Cookies
import TgMessenger.Web.Guarded
import TgMessenger.Web.Once
import TgMessenger.Web.Recorded
import TgMessenger.Web.Render
import TgMessenger.Web.Served
import TgMessenger.Web.Sse
