import Ocvpn.Exec.Basic
import Ocvpn.LTS.Basic
import Ocvpn.Model.Basic
import Ocvpn.Model.Network
import Ocvpn.Model.State
import Ocvpn.Prefix.Basic
import Ocvpn.Routes.Basic
import Ocvpn.Routes.Network
import Ocvpn.Routes.Policy
import Ocvpn.Daemon.Session
import Ocvpn.Daemon.Supervisor
import Ocvpn.Daemon.System
import Ocvpn.Daemon.Moves
import Ocvpn.Daemon.Coherence
import Ocvpn.Daemon.Invariant
import Ocvpn.Daemon.Exclusion
import Ocvpn.Daemon.Isolation
import Ocvpn.Crash.Basic
import Ocvpn.Journal.Basic
import Ocvpn.Journal.Execute
import Ocvpn.Journal.Lifecycle
import Ocvpn.Journal.Recovery
import Ocvpn.Journal.Ownership
import Ocvpn.Daemon.Transitions
import Ocvpn.Daemon.Orphans
import Ocvpn.Daemon.Snapshots
import Ocvpn.Worker.Channel
import Ocvpn.Client.Events
import Ocvpn.Client.Logs
import Ocvpn.Json.Basic
import Ocvpn.Model.Profile
import Ocvpn.Profiles.Store
import Ocvpn.Profiles.Sound
import Ocvpn.Profiles.Revisions
import Ocvpn.Client.Subscription
import Ocvpn.Client.Connect
import Ocvpn.Daemon.Grants
import Ocvpn.Client.Cleanup
import Ocvpn.Daemon.Blocking
import Ocvpn.Unix.Rollback
import Ocvpn.Ipc.Frame
import Ocvpn.Ipc.Browser
import Ocvpn.Environment.Text
import Ocvpn.Environment.Parse
import Ocvpn.Environment.Read
import Ocvpn.Environment.Grammar
import Ocvpn.Environment.Empty
import Ocvpn.Auth.Control
import Ocvpn.LTS.Fair
import Ocvpn.Auth.Machine
import Ocvpn.Auth.Steps
import Ocvpn.Auth.Pairing
import Ocvpn.Auth.Answers
import Ocvpn.Auth.Cancellation
import Ocvpn.Browser.Completion
import Ocvpn.Browser.Ledger
import Ocvpn.Browser.Flow
import Ocvpn.Browser.Methods
import Ocvpn.LTS.History
import Ocvpn.Browser.Accounts
import Ocvpn.Credentials.Hotp
import Ocvpn.Credentials.Counter
import Ocvpn.Handoff.Pins
import Ocvpn.Handoff.Machine
import Ocvpn.Handoff.Steps
import Ocvpn.Browser.Replay
import Ocvpn.Auth.Choices
import Ocvpn.Journal.Repair
import Ocvpn.Profiles.Reservation
import Ocvpn.Unix.Resolver
import Ocvpn.Unix.Observation
import Ocvpn.Slots.Basic
import Ocvpn.Unix.Routes
import Ocvpn.Unix.Reversal
import Ocvpn.Browser.Document
import Ocvpn.Browser.Inert
import Ocvpn.Browser.Agreement
import Ocvpn.Handoff.Links
import Ocvpn.Text.Gap
import Ocvpn.Tui.Field
import Ocvpn.Net.Endpoint
import Ocvpn.Profiles.References
import Ocvpn.Profiles.Selection
import Ocvpn.Browser.Origin
import Ocvpn.Client.Proxy
import Ocvpn.Browser.Bootstrap
import Ocvpn.Auth.Password
import Ocvpn.Handoff.Effects
import Ocvpn.Handoff.Durable
import Ocvpn.Files.Basic
import Ocvpn.Files.Replace
import Ocvpn.Files.PrivateFs
import Ocvpn.Files.Journal
import Ocvpn.Locks.Basic
import Ocvpn.Locks.Lifetime
import Ocvpn.Locks.Threads
import Ocvpn.Locks.Generations
