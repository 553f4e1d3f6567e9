import FraudDetection.Library.PosixPath
import FraudDetection.Library.FileTree
import FraudDetection.Library.PyValues
import FraudDetection.Library.Sorting
import FraudDetection.Library.ListMap
import FraudDetection.Library.Transition
import FraudDetection.Library.Threads
import FraudDetection.Library.Tally
import FraudDetection.Library.SequencedRing
import FraudDetection.Library.Ieee
import FraudDetection.Library.Outcomes
import FraudDetection.Library.Interaction
import FraudDetection.Library.ByteMemory
import FraudDetection.Library.Regions
import FraudDetection.Library.FlatBuffers
import FraudDetection.Library.WeightedSlots
import FraudDetection.GoStrings
import FraudDetection.Worker
import FraudDetection.CpuScorer
import FraudDetection.WorkerPool
import FraudDetection.WorkerTransport
import FraudDetection.Bundle
import FraudDetection.BundleExport
import FraudDetection.HttpGateway
import FraudDetection.GatewayMetrics
import FraudDetection.Window
import FraudDetection.FeaturePath
import FraudDetection.FeatureVector
import FraudDetection.Ingestion
import FraudDetection.KafkaSetup
import FraudDetection.Scheduler
import FraudDetection.SegmentLayout
import FraudDetection.SharedRing
import FraudDetection.Gateway
import FraudDetection.Daemon
import FraudDetection.RingSystem
import FraudDetection.BatcherSystem
import FraudDetection.MemoryPool
import FraudDetection.TransactionCodec
import FraudDetection.Microkernel
import FraudDetection.Calibration
import FraudDetection.StreamOrderedArena
import FraudDetection.LoadTester
import FraudDetection.TransactionService
import FraudDetection.ServingPlane
import FraudDetection.StreamProcessor
import FraudDetection.Proofs.KafkaCommit
import FraudDetection.Proofs.WindowStep
import FraudDetection.Proofs.WindowInvariant
import FraudDetection.Proofs.WindowBatch
import FraudDetection.Proofs.WindowDelivery
import FraudDetection.Proofs.WindowEntities
import FraudDetection.Proofs.WindowOrder
import FraudDetection.Proofs.FeatureRoundTrip
import FraudDetection.Proofs.SchedulerLedger
import FraudDetection.Proofs.SchedulerSteps
import FraudDetection.Proofs.SchedulerAdmission
import FraudDetection.Proofs.SchedulerPairing
import FraudDetection.Proofs.SchedulerClose
import FraudDetection.Proofs.SchedulerDelivery
import FraudDetection.Proofs.RequestIdentity
import FraudDetection.Proofs.FailClosed
import FraudDetection.Proofs.RingGhost
import FraudDetection.Proofs.RingSubmit
import FraudDetection.Proofs.RingPeers
import FraudDetection.Proofs.RingDaemon
import FraudDetection.Proofs.RingHistory
import FraudDetection.Proofs.RingSafety
import FraudDetection.Proofs.ReclaimLists
import FraudDetection.Proofs.BatcherStaging
import FraudDetection.Proofs.LayoutAgreement
import FraudDetection.Proofs.TransactionRoundTrip
import FraudDetection.Proofs.CalibrationScales
import FraudDetection.Proofs.MicrokernelRun
import FraudDetection.Proofs.CalibrationContract
import FraudDetection.Proofs.SinkMirror
import FraudDetection.Proofs.ProcessedOffsets
import FraudDetection.Proofs.ReadyCounter
import FraudDetection.Proofs.BatcherDeadline
import FraudDetection.Proofs.DaemonResponses
import FraudDetection.Proofs.PoolCircuit
import FraudDetection.Proofs.TransportRoundTrip
import FraudDetection.Proofs.BundleVerification
import FraudDetection.Proofs.BundlePublication
import FraudDetection.Proofs.PoolBudget
import FraudDetection.Proofs.PoolFailover
import FraudDetection.Proofs.Explanations
import FraudDetection.Proofs.MicrokernelPadding
import FraudDetection.Proofs.MicrokernelDispatch
import FraudDetection.Proofs.RetryBackoff
import FraudDetection.Proofs.BundleFailureMode
import FraudDetection.Proofs.PoolAllocations
import FraudDetection.Proofs.ArenaAccounting
import FraudDetection.Proofs.ScrapeConsistency
import FraudDetection.Proofs.EntitySelection
import FraudDetection.Proofs.LoadRun
import FraudDetection.Proofs.LoadAccounting
import FraudDetection.Proofs.SlotRefinement
import FraudDetection.Proofs.ServiceGuard
import FraudDetection.Proofs.ServiceRun
import FraudDetection.Proofs.TransactionService
import FraudDetection.Proofs.ServingPlane
import FraudDetection.Proofs.GroupDelivery
import FraudDetection.Proofs.StreamFeatures
import FraudDetection.Proofs.HandledEvents
import FraudDetection.Proofs.RingServing
import FraudDetection.Proofs.RingRecovery
import FraudDetection.Proofs.ArenaErrors
