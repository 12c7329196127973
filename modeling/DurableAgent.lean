import DurableAgent.Library.RelyGuarantee
import DurableAgent.Persistence.EventLog
import DurableAgent.Library.Licence
import DurableAgent.Persistence.LeaseExclusion
import DurableAgent.Persistence.LeaseFencing
import DurableAgent.Checkpoints.DamagedRow
import DurableAgent.Checkpoints.Identity
import DurableAgent.Tools.AtMostOnce
import DurableAgent.Tools.Consistency
import DurableAgent.Application.Service
import DurableAgent.Checkpoints.ChainSoundness
import DurableAgent.Library.Contract
import DurableAgent.Orchestration.Lifecycle
import DurableAgent.Orchestration.Steps
import DurableAgent.Orchestration.TaskSteps
import DurableAgent.Orchestration.Scheduling
import DurableAgent.Orchestration.Failures
import DurableAgent.Orchestration.Advancing
import DurableAgent.Recovery.Resuming
import DurableAgent.Application.Serving
import DurableAgent.Application.Dependencies
import DurableAgent.Application.AttemptBound
import DurableAgent.Application.OpenAttempts
import DurableAgent.Domain.PlanOrder
import DurableAgent.Application.StuckRuns
import DurableAgent.Application.AttemptNumbers
import DurableAgent.Application.StaleWrites
import DurableAgent.Checkpoints.Writers
import DurableAgent.Orchestration.Dispatching
import DurableAgent.Application.Dispatches
import DurableAgent.Orchestration.Effects
import DurableAgent.Orchestration.Answers
import DurableAgent.Orchestration.Regions
import DurableAgent.Orchestration.Requests
import DurableAgent.Orchestration.Heeding
import DurableAgent.Orchestration.Reacting
import DurableAgent.Application.Reactions
import DurableAgent.Orchestration.Pausing
import DurableAgent.Application.ConsumedPauses
import DurableAgent.Application.Replays
import DurableAgent.Application.Convergence
import DurableAgent.Orchestration.Endings
import DurableAgent.Orchestration.LoopRule
import DurableAgent.Orchestration.Announcing
import DurableAgent.Application.TerminalEvents
import DurableAgent.Library.Session
import DurableAgent.Library.Lockstep
import DurableAgent.Tools.JournalRefinement
import DurableAgent.Library.Total
import DurableAgent.Tools.UniformResults
import DurableAgent.Tools.Recovering
import DurableAgent.Recovery.Drift
import DurableAgent.Domain.PlanDepth
import DurableAgent.Domain.PlanStability
import DurableAgent.Domain.PlanBatches
import DurableAgent.Domain.PlanProgress
import DurableAgent.Library.Closure
import DurableAgent.Orchestration.Skipping
import DurableAgent.Orchestration.Disposition
import DurableAgent.Application.BatchFailures
import DurableAgent.Evidence.Admissibility
import DurableAgent.Reporting.Structure
import DurableAgent.Application.Authority
import DurableAgent.Context.Restart
import DurableAgent.Application.Custody
import DurableAgent.Context.Provenance
import DurableAgent.Tools.OutputBound
import DurableAgent.Security.Confinement
import DurableAgent.Tools.Writing
import DurableAgent.Tools.Patching
import DurableAgent.Security.Redaction
import DurableAgent.Repository.Classification
import DurableAgent.Repository.SymbolLines
import DurableAgent.Repository.RoundTrip
import DurableAgent.Repository.Totality
import DurableAgent.Repository.Ignoring
import DurableAgent.Context.Accounting
import DurableAgent.Tools.Subprocess
import DurableAgent.Recovery.CircuitBreaker
import DurableAgent.Domain.CanonicalOrder
import DurableAgent.Domain.Envelopes
import DurableAgent.Retrieval.Engine
import DurableAgent.Library.Grouping
import DurableAgent.Security.Network
import DurableAgent.Research.HttpFetcher
import DurableAgent.Research.Corroboration
import DurableAgent.Application.AuditTrail
import DurableAgent.Persistence.Artifacts
import DurableAgent.Planning.Planner
