import Interlock.Dictionary
import Interlock.Transitions
import Interlock.FloatRounding
import Interlock.PythonValues
import Interlock.CanonicalJson
import Interlock.MockService
import Interlock.RecordsTable
import Interlock.Tools
import Interlock.DiagnosticSweep
import Interlock.Fingerprint
import Interlock.RiskPolicy
import Interlock.Execution
import Interlock.Nodes
import Interlock.Graph
import Interlock.NodeRuns
import Interlock.Walks
import Interlock.PlanningCycle
import Interlock.ApprovalGate
import Interlock.Anchoring
import Interlock.ExactlyOnce
import Interlock.Effects
import Interlock.OwnAction
import Interlock.Suspension
import Interlock.DecisionHonoured
import Interlock.Dispatching
import Interlock.EditedActions
import Interlock.DriftDetection
import Interlock.RedundancyFloor
import Interlock.ReachableSandbox
import Interlock.Compensations
import Interlock.NetEffect
import Interlock.Accounting
import Interlock.Bounds
import Interlock.ReplanReasons
import Interlock.ApprovedEffects
import Interlock.ApprovedDeletions
import Interlock.SoundRuns
import Interlock.Crashes
import Interlock.ReturningCalls
import Interlock.Service
import Interlock.Serving
import Interlock.QueueAgreement
import Interlock.DecisionRace
import Interlock.SeenProposals
import Interlock.Isolation
import Interlock.Replays
import Interlock.Deduplication
import Interlock.PostgresLedger
import Interlock.AuditRecords
import Interlock.FaultsCleared
import Interlock.RegistryRows
import Interlock.Fleets
import Interlock.RollbackRace
import Interlock.DurableRuns
import Interlock.AuditChain
import Interlock.ForgottenActions
import Interlock.Policies
import Interlock.InitialState
import Interlock.Presets
import Interlock.LocalReadings
import Interlock.OneService
import Interlock.Neighbours
import Interlock.Noninterference
import Interlock.PostgresRecords
import Interlock.DeletedRows
import Interlock.RecordedVisits
import Interlock.MissingRecords
import Interlock.IsoTimestamps
import Interlock.SharedLog
import Interlock.Harness
import Interlock.DriftVerdict
import Interlock.ClassifiedProposals
import Interlock.ProposalDomain
import Interlock.ScopedViews
import Interlock.ReplayedCompensations
import Interlock.LineFiles
import Interlock.JsonDocuments
import Interlock.SuiteFiles
import Interlock.SuiteResults
import Interlock.ServiceMethods
import Interlock.FaultBookkeeping
import Interlock.VersionHistory
import Interlock.RecordIds
import Interlock.FirstMaximum
import Interlock.WorstSignal
import Interlock.Grouping
import Interlock.Metrics
import Interlock.RiskClassification
import Interlock.ScenarioValidation
import Interlock.PerfectAgents
import Interlock.StalenessChanges
import Interlock.RecordOrder
import Interlock.ResumedRequests
import Interlock.KilledRuns
import Interlock.BoundedGather
import Interlock.LoadTest
import Interlock.FramedActions
import Interlock.AuditEvidence
import Interlock.Percentiles
import Interlock.HarnessMetrics
import Interlock.ChaosTrials
import Interlock.RestartedLives
import Interlock.TurnTaking
import Interlock.RegistryCache
import Interlock.HeuristicAgent
import Interlock.HeuristicRuns
import Interlock.HeuristicOutcomes
