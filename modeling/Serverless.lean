import Serverless.Api.Accounts
import Serverless.Api.Deployment
import Serverless.Api.Ledger
import Serverless.Api.Polling
import Serverless.Api.Provenance
import Serverless.Api.Routes
import Serverless.Api.System
import Serverless.Api.Throttle
import Serverless.Api.Tokens
import Serverless.Benchmarks.Audits
import Serverless.Benchmarks.Percentiles
import Serverless.Benchmarks.ScalingVerdict
import Serverless.Cluster.Claims
import Serverless.Cluster.Concurrency
import Serverless.Cluster.Crew
import Serverless.Cluster.Custody
import Serverless.Cluster.Draining
import Serverless.Cluster.Offline
import Serverless.Cluster.Outbox
import Serverless.Cluster.Rows
import Serverless.Cluster.System
import Serverless.Cluster.Worker
import Serverless.Ledger.Backoff
import Serverless.Ledger.Bounds
import Serverless.Ledger.Dashboard
import Serverless.Ledger.Deadlines
import Serverless.Ledger.Delays
import Serverless.Ledger.Life
import Serverless.Ledger.Liveness
import Serverless.Ledger.Numbering
import Serverless.Ledger.Origins
import Serverless.Ledger.Publishing
import Serverless.Ledger.Records
import Serverless.Ledger.RecoveryPass
import Serverless.Ledger.System
import Serverless.Library.CodePoints
import Serverless.Library.ConsumerGroup
import Serverless.Library.Fairness
import Serverless.Library.Groups
import Serverless.Library.Histories
import Serverless.Library.IsoDates
import Serverless.Library.Numerals
import Serverless.Library.Paths
import Serverless.Library.Queries
import Serverless.Library.Ranks
import Serverless.Library.Results
import Serverless.Library.Rounding
import Serverless.Library.Runs
import Serverless.Library.Table
import Serverless.Library.Text
import Serverless.Library.TokenBucket
import Serverless.Library.Traced
import Serverless.Library.Utf8
import Serverless.Library.Worklist
import Serverless.Lifecycle.Beating
import Serverless.Lifecycle.System
import Serverless.Lifecycle.Tasks
import Serverless.Limiter.Guarantees
import Serverless.Limiter.Histories
import Serverless.Logs.History
import Serverless.Logs.Survival
import Serverless.Logs.System
import Serverless.Model.Accounts
import Serverless.Model.Api
import Serverless.Model.Benchmarks
import Serverless.Model.Columns
import Serverless.Model.ContainerCalls
import Serverless.Model.Domain
import Serverless.Model.Heartbeat
import Serverless.Model.InvocationState
import Serverless.Model.Invocations
import Serverless.Model.Json
import Serverless.Model.JsonFraming
import Serverless.Model.JsonRoundTrip
import Serverless.Model.LogStorage
import Serverless.Model.Metrics
import Serverless.Model.Outbox
import Serverless.Model.PackagePaths
import Serverless.Model.Progress
import Serverless.Model.Queue
import Serverless.Model.RateLimiter
import Serverless.Model.Recovery
import Serverless.Model.Registry
import Serverless.Model.Retry
import Serverless.Model.Rounding
import Serverless.Model.Runner
import Serverless.Model.Runtime
import Serverless.Model.RuntimeInput
import Serverless.Model.Scaling
import Serverless.Model.Services
import Serverless.Model.StreamCodec
import Serverless.Registry.Mounts
import Serverless.Registry.Numbers
import Serverless.Registry.Packages
import Serverless.Registry.System
import Serverless.Requests.Idempotency
import Serverless.Requests.System
import Serverless.Runtime.Cleanup
import Serverless.Runtime.LogFiles
import Serverless.Runtime.Outcomes
import Serverless.Runtime.Protocol
import Serverless.Runtime.Recording
import Serverless.Runtime.Retrying
import Serverless.Runtime.Timeouts
import Serverless.Serving.Files
import Serverless.Serving.Results
import Serverless.Serving.System
import Serverless.Sessions.Fencing
import Serverless.Sessions.System
import Serverless.Sessions.Terminal
import Serverless.Stream.RoundTrip
import Serverless.Tenancy.NonInterference
import Serverless.Tenancy.Reads
import Serverless.Tenancy.Views
