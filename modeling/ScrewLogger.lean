import ScrewLogger.Agent.Torn
import ScrewLogger.Server.Arrival
import ScrewLogger.Server.History
import ScrewLogger.Server.Windows
import ScrewLogger.System.Compression
import ScrewLogger.System.Delivery
import ScrewLogger.Lib.InFlight
import ScrewLogger.Server.Failures
import ScrewLogger.Server.Revocation
import ScrewLogger.Server.RuleSaves
import ScrewLogger.Server.Replay
import ScrewLogger.Lib.Register
import ScrewLogger.Server.Credentials
import ScrewLogger.Server.Resolution
import ScrewLogger.Lib.CommonPattern
import ScrewLogger.Agent.Categorize
import ScrewLogger.System.Patterns
import ScrewLogger.System.RuleHistory
import ScrewLogger.Agent.Accounting
import ScrewLogger.Lib.Injection
import ScrewLogger.Agent.FailingCalls
import ScrewLogger.Agent.Recovery
import ScrewLogger.Lib.Json.Sizes
import ScrewLogger.Agent.Sample
import ScrewLogger.Agent.RunSamples
import ScrewLogger.System.BatchSize
import ScrewLogger.Agent.Spawner
import ScrewLogger.Agent.SpawnLog
import ScrewLogger.Lib.Expiry
import ScrewLogger.Server.Sessions
import ScrewLogger.Server.Recategorize
import ScrewLogger.Server.Timeline
import ScrewLogger.Server.Isolation
import ScrewLogger.Lib.Scanning
import ScrewLogger.Agent.ReadClient
import ScrewLogger.Agent.PipeServer
import ScrewLogger.Agent.Attached
import ScrewLogger.Agent.Silence
import ScrewLogger.Agent.Handles
import ScrewLogger.Agent.Emissions
import ScrewLogger.Lib.Trim
import ScrewLogger.Agent.Install
import ScrewLogger.Agent.EventLog
import ScrewLogger.Agent.ReadBack
import ScrewLogger.Agent.LostChanges
import ScrewLogger.Agent.Upgrade
import ScrewLogger.System.InOrder
import ScrewLogger.System.Drain
import ScrewLogger.System.Reported
import ScrewLogger.System.Goroutines
import ScrewLogger.Agent.Service
import ScrewLogger.Agent.Console
import ScrewLogger.Agent.Launch
import ScrewLogger.Agent.CommandLine
import ScrewLogger.Lib.Flags
import ScrewLogger.Agent.Main
import ScrewLogger.Agent.Watcher
import ScrewLogger.Lib.Ledger
import ScrewLogger.Server.Listing
import ScrewLogger.System.Pace
import ScrewLogger.Lib.Url
import ScrewLogger.Lib.Routing
import ScrewLogger.Lib.Json.Stringify
import ScrewLogger.Server.WebUi
import ScrewLogger.Server.Dashboards
