import FiveNinesEcho.Lib.Exec
import FiveNinesEcho.Lib.Lines
import FiveNinesEcho.Lib.Copy
import FiveNinesEcho.Lib.Addr
import FiveNinesEcho.Lib.Lane
import FiveNinesEcho.Lib.Slots
import FiveNinesEcho.Lib.Watch
import FiveNinesEcho.Lib.TokenBucket
import FiveNinesEcho.Lib.Table
import FiveNinesEcho.Lib.Utf8
import FiveNinesEcho.Lib.Environ
import FiveNinesEcho.Lib.Descriptors
import FiveNinesEcho.Lib.Json
import FiveNinesEcho.Lib.JsonCut
import FiveNinesEcho.Lib.Serde
import FiveNinesEcho.Lib.Mapping
import FiveNinesEcho.Lib.Exposition
import FiveNinesEcho.Lib.Directory
import FiveNinesEcho.Control.Messages
import FiveNinesEcho.Processor.Codec
import FiveNinesEcho.Processor.Framing
import FiveNinesEcho.Handoff
import FiveNinesEcho.Processor.Payload
import FiveNinesEcho.Control.Envelope
import FiveNinesEcho.Configuration
import FiveNinesEcho.Processor.Session
import FiveNinesEcho.Processor.Echo
import FiveNinesEcho.Processor.Transparency
import FiveNinesEcho.Processor.LinesEchoed
import FiveNinesEcho.Processor.Reply
import FiveNinesEcho.Processor.Hearing
import FiveNinesEcho.Processor.Rollback
import FiveNinesEcho.Processor.Registry
import FiveNinesEcho.Upgrade.Attempt
import FiveNinesEcho.Processor.Ownership
import FiveNinesEcho.Processor.Cancel
import FiveNinesEcho.Processor.Dispatch
import FiveNinesEcho.Processor.Sidecar
import FiveNinesEcho.Processor.Eviction
import FiveNinesEcho.Processor.Restore
import FiveNinesEcho.Upgrade.TwoPhase
import FiveNinesEcho.Upgrade.Cloexec
import FiveNinesEcho.Upgrade.ChildEnv
import FiveNinesEcho.Upgrade.ControlLoop
import FiveNinesEcho.Supervisor.Link
import FiveNinesEcho.Supervisor.Query
import FiveNinesEcho.Supervisor.Watchdog
import FiveNinesEcho.Supervisor.Role
import FiveNinesEcho.Supervisor.Commit
import FiveNinesEcho.Supervisor.Baseline
import FiveNinesEcho.Supervisor.Epoch
import FiveNinesEcho.Supervisor.Successor
import FiveNinesEcho.Supervisor.Absence
import FiveNinesEcho.Supervisor.Accounting
import FiveNinesEcho.Supervisor.Walk
import FiveNinesEcho.Supervisor.Frames
import FiveNinesEcho.Supervisor.Canary
import FiveNinesEcho.Supervisor.Backoff
import FiveNinesEcho.Supervisor.Monitor
import FiveNinesEcho.Supervisor.Counters
import FiveNinesEcho.Supervisor.Recovery
import FiveNinesEcho.Supervisor.SelfUpgrade
import FiveNinesEcho.Supervisor.Listeners
import FiveNinesEcho.Supervisor.Inheritance
import FiveNinesEcho.Supervisor.Beacon
import FiveNinesEcho.Supervisor.Rendezvous
import FiveNinesEcho.Supervisor.Grandparent
import FiveNinesEcho.Supervisor.Handover
import FiveNinesEcho.Supervisor.Candidate
import FiveNinesEcho.Supervisor.Shutdown
import FiveNinesEcho.Acceptor.Ends
import FiveNinesEcho.Acceptor.Ledger
import FiveNinesEcho.Acceptor.Plain
import FiveNinesEcho.Acceptor.Continuity
import FiveNinesEcho.Acceptor.Release
import FiveNinesEcho.Acceptor.Tls
import FiveNinesEcho.Acceptor.Bridge
import FiveNinesEcho.Acceptor.Accept
import FiveNinesEcho.Acceptor.Drain
import FiveNinesEcho.Acceptor.Drainer
import FiveNinesEcho.Acceptor.Harvest
import FiveNinesEcho.Supervisor.AdminDrain
import FiveNinesEcho.Supervisor.TraceIds
import FiveNinesEcho.Supervisor.Reload
import FiveNinesEcho.Upgrade.ConfigHandoff
import FiveNinesEcho.Scanner.Wire
import FiveNinesEcho.Scanner.Pipeline
import FiveNinesEcho.Limits.RateLimiter
import FiveNinesEcho.Limits.Accounting
import FiveNinesEcho.Limits.AtCap
import FiveNinesEcho.Limits.Isolation
import FiveNinesEcho.Limits.SessionCap
import FiveNinesEcho.Metrics.Textfile
import FiveNinesEcho.Metrics.Publication
import FiveNinesEcho.Admin.CommandLine
