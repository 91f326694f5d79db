import OjsNats.Lifecycle.Placement
import OjsNats.Lifecycle.Finality
import OjsNats.Lifecycle.Retention
import OjsNats.Lifecycle.Executions
import OjsNats.Lifecycle.Uniqueness
import OjsNats.Lifecycle.Resubmission
import OjsNats.Lifecycle.Progressing
import OjsNats.Lifecycle.Occurrences
import OjsNats.Lifecycle.Overlap
import OjsNats.Lifecycle.Batches
import OjsNats.Concurrent.Leases
import OjsNats.Concurrent.Contention
import OjsNats.Concurrent.Pausing
import OjsNats.Concurrent.Registration
import OjsNats.Faults.Creation
import OjsNats.Lifecycle.Statistics
import OjsNats.Lifecycle.Sweeps
import OjsNats.Lifecycle.Conflicts
import OjsNats.Kv.Fingerprints
import OjsNats.Lifecycle.Backlog
import OjsNats.Lifecycle.Pacing
import OjsNats.Lifecycle.Handouts
import OjsNats.Lifecycle.Precedence
import OjsNats.Lifecycle.Agreement
import OjsNats.Faults.Frames
import OjsNats.Faults.Pushing
import OjsNats.Faults.Batching
import OjsNats.Lifecycle.Tallies
import OjsNats.Effect.Stops
import OjsNats.Faults.Recovery
import OjsNats.Faults.Revival
import OjsNats.Concurrent.Completions
import OjsNats.Grpc.Convert
import OjsNats.Grpc.Retries
import OjsNats.Grpc.Workflows
import OjsNats.Lifecycle.Extending
import OjsNats.Lifecycle.Naming
import OjsNats.Nats.Marshal
import OjsNats.Concurrent.Directives
import OjsNats.Grpc.Streaming
import OjsNats.Nats.Listing
import OjsNats.Store.Paging
import OjsNats.Lifecycle.Listings
import OjsNats.Lifecycle.Patterns
import OjsNats.Lifecycle.StatsKeys
import OjsNats.Api.EventIDs
import OjsNats.Grpc.Batches
import OjsNats.Grpc.Intervals
import OjsNats.Grpc.Queues
import OjsNats.Grpc.Errors
import OjsNats.Nats.PubSub
import OjsNats.Concurrent.Unsubscribing
import OjsNats.Lifecycle.Deadlines
import OjsNats.Lifecycle.Holding
import OjsNats.Grpc.Heartbeats
import OjsNats.Faults.Abandoning
import OjsNats.Faults.Repeating
import OjsNats.Concurrent.Tallying
import OjsNats.Concurrent.Halting
import OjsNats.Api.Forwarding
import OjsNats.Grpc.Events
import OjsNats.Lifecycle.Queueing
import OjsNats.Lifecycle.Waiting
import OjsNats.Lifecycle.Provenance
import OjsNats.Concurrent.Scheduler
import OjsNats.Lifecycle.Verdicts
