import Flock.Lib.Transition
import Flock.Lib.SlidingWindow
import Flock.Pool.Basic
import Flock.Pool.Generations
import Flock.Pool.Window
import Flock.Pool.Cooldown
import Flock.Pool.Life
import Flock.Pool.Choice
import Flock.Dispatch.Wait
import Flock.Pool.Restart
import Flock.Pool.Boot
import Flock.Providers
import Flock.Circuit
import Flock.Health
import Flock.Config
import Flock.Router.Basic
import Flock.Router.Registry
import Flock.Router.Select
import Flock.Router.System
import Flock.Router.Gate
import Flock.Router.Toggle
import Flock.App.Basic
import Flock.App.Handles
import Flock.App.Floor
import Flock.Auth.Basic
import Flock.Auth.Revocation
import Flock.History.Protocol
import Flock.History.Retention
import Flock.History.Exposition
import Flock.History.Codec
import Flock.History.Index
import Flock.History.Compaction
import Flock.History.Scanner
import Flock.History.Store
import Flock.History.Lifetimes
import Flock.History.Json
import Flock.History.Lines
import Flock.History.Replayed
import Flock.History.Conservation
import Flock.History.Passes
import Flock.History.Appends
import Flock.History.Damage
import Flock.History.Recovery
import Flock.History.Stability
import Flock.History.Disable
import Flock.History.Replacement
import Flock.History.LiveStore
import Flock.Dispatch.Basic
import Flock.Dispatch.Fifo
import Flock.Dispatch.Leak
import Flock.History.Requests
import Flock.History.Quiescence
import Flock.History.Rollup
import Flock.History.Gaps
import Flock.History.Reported
import Flock.History.Filled
import Flock.History.TornBoot
import Flock.Lib.FirstMatch
import Flock.Settings.Handlers
import Flock.Config.File
import Flock.Settings.Authority
import Flock.Config.Json
import Flock.App.Commit
import Flock.Settings.Seeded
import Flock.Circuit.Log
import Flock.Governor
import Flock.Governor.Gate
import Flock.Governor.Lifecycle
import Flock.Router.Outcomes
import Flock.Coalescer
import Flock.Coalescer.Merge
import Flock.Lib.Metered
import Flock.Router.Saves
import Flock.Auth.Throttle
import Flock.Streaming
import Flock.Router.Acquire
import Flock.Router.Execute
import Flock.Router.Answers
import Flock.Router.Saturation
import Flock.History.Order
import Flock.Auth.Session
import Flock.Client.KeyPool
import Flock.Config.LinkLocal
import Flock.Health.Persist
import Flock.Config.TimeRange
import Flock.Router.Cooldowns
import Flock.Router.Backoff
import Flock.Lib.Calendar
import Flock.Lib.FirstSeen
import Flock.Models
import Flock.Health.Rfc3339
import Flock.Health.CivilTime
import Flock.RateLimit.Bound
import Flock.Lib.Orderings
import Flock.Lib.Tiling
import Flock.Lib.Flat
import Flock.Lib.RoundRobin
import Flock.Lib.Pieces
import Flock.Lib.Fallible
import Flock.Lib.TreeMap
import Flock.History.Series
import Flock.History.Windows
import Flock.History.Telescope
import Flock.Dashboard.Quantile
import Flock.Router.Scope
import Flock.Router.Completeness
import Flock.Router.EmptyVerdict
import Flock.History.Tail
import Flock.Observation
import Flock.Observation.Sse
import Flock.Observation.Order
import Flock.Observation.Bound
import Flock.Text.Slices
import Flock.History.SampleLine
import Flock.History.Render
import Flock.Lib.InsertionMap
import Flock.Dashboard.Samples
import Flock.Dashboard.Reconstruction
import Flock.Dashboard.FromHistory
import Flock.Observation.Published
import Flock.Client.Fairness
import Flock.Lib.Binary64
import Flock.Client.RetryAfter
import Flock.Lib.Admission
import Flock.Labels
import Flock.Locale.Grammar
import Flock.Lib.Base64
import Flock.Lib.FormText
import Flock.Text.Lossy
import Flock.Auth.Credentials
import Flock.Lib.Seating
import Flock.Front.Request
import Flock.Front.Handle
import Flock.Front.Admission
import Flock.Front.Runs
import Flock.Front.Answers
import Flock.Front.ModelsCache
import Flock.Lib.Volume
import Flock.History.FirstBoot
import Flock.Settings.Claim
import Flock.Settings.View
import Flock.Client.Request
import Flock.Client.Alone
import Flock.Streaming.Relay
import Flock.Text.Decoder
import Flock.Client.Stream
import Flock.Auth.Cookie
import Flock.Observation.Buffered
import Flock.Governor.Restart
