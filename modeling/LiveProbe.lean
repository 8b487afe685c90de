import LiveProbe.JsMap
import LiveProbe.JsString
import LiveProbe.IsoDate
import LiveProbe.Schema
import LiveProbe.Json
import LiveProbe.Expression
import LiveProbe.Protocol
import LiveProbe.Events
import LiveProbe.State
import LiveProbe.Probes
import LiveProbe.SourceMaps
import LiveProbe.Ingest
import LiveProbe.Native
import LiveProbe.Snapshot
import LiveProbe.Broker
import LiveProbe.CaptureFidelity
import LiveProbe.Changes
import LiveProbe.Effects
import LiveProbe.Templates
import LiveProbe.Transition
import LiveProbe.Core
import LiveProbe.Records
import LiveProbe.Restore
import LiveProbe.Process
import LiveProbe.View
import LiveProbe.Forget
import LiveProbe.Answers
import LiveProbe.RoundTrip
import LiveProbe.Rollback
import LiveProbe.Bytes
import LiveProbe.Location
import LiveProbe.Capture
import LiveProbe.Decoder
import LiveProbe.SlotIsolation
import LiveProbe.DwarfValue
import LiveProbe.Loader
import LiveProbe.AgentLoop
import LiveProbe.AgentCycle
import LiveProbe.Ownership
import LiveProbe.HitLimit
import LiveProbe.Agreement
import LiveProbe.PythonAgreement
import LiveProbe.PythonProbes
import LiveProbe.PythonRedaction
import LiveProbe.PythonReservations
import LiveProbe.JvmAgreement
import LiveProbe.ConditionAgreement
import LiveProbe.Validators
import LiveProbe.StableSort
import LiveProbe.StatusLatch
import LiveProbe.StoredExpressions
import LiveProbe.ProbeIds
import LiveProbe.Generations
import LiveProbe.CreateAtomicity
import LiveProbe.KernelCounters
import LiveProbe.CapabilityGate
import LiveProbe.NativeRedaction
import LiveProbe.NativeReport
import LiveProbe.NativeSanitizer
import LiveProbe.NativeLogs
import LiveProbe.OrderedSets
import LiveProbe.DebugTypes
import LiveProbe.DebugScopes
import LiveProbe.DebugLines
import LiveProbe.NativeAcceptance
import LiveProbe.NumberText
import LiveProbe.NodeArming
import LiveProbe.NodeCapture
import LiveProbe.NodeSerializer
import LiveProbe.NodeSanitization
import LiveProbe.JvmSerializer
import LiveProbe.SerializerAgreement
import LiveProbe.LogicalStatus
import LiveProbe.History
import LiveProbe.NativeStatus
import LiveProbe.ArmedAt
import LiveProbe.Latch
import LiveProbe.NativeVerdict
import LiveProbe.NativeInstances
import LiveProbe.CapturePump
import LiveProbe.OmittedLocals
import LiveProbe.EventBuffer
import LiveProbe.FilledBucket
import LiveProbe.RateLimiters
import LiveProbe.CounterFlush
import LiveProbe.JsonGrammar
import LiveProbe.JvmJsonParser
import LiveProbe.JvmJsonWriter
import LiveProbe.JvmTemplates
import LiveProbe.PathSuffix
import LiveProbe.SourceMatching
import LiveProbe.Comparators
import LiveProbe.ScriptRegistry
import LiveProbe.SourceMapLease
import LiveProbe.Retention
import LiveProbe.NativeServices
import LiveProbe.Listening
import LiveProbe.JvmProbes
import LiveProbe.JvmSuspension
import LiveProbe.JvmStatuses
import LiveProbe.IngestIsolation
import LiveProbe.Rings
import LiveProbe.LongPolls
import LiveProbe.TemplateAgreement
import LiveProbe.IngestQueue
import LiveProbe.NativeGate
import LiveProbe.Restriction
import LiveProbe.ScopedRequests
import LiveProbe.ScopeIsolation
import LiveProbe.AssignmentVersions
import LiveProbe.NodeProbes
import LiveProbe.NodeReservations
import LiveProbe.NodePauses
import LiveProbe.NodeResumes
import LiveProbe.NodeHits
import LiveProbe.NodeArmed
import LiveProbe.NodeReconciled
import LiveProbe.Upserts
import LiveProbe.PostgresStore
import LiveProbe.PostgresRows
import LiveProbe.Restarts
import LiveProbe.NodeLoop
import LiveProbe.ProbeReading
import LiveProbe.NodePolling
