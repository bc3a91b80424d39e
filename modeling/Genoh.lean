import Genoh.SecOCInterop
import Genoh.E2EInterop
import Genoh.SequenceCheckers
import Genoh.FirmwareBudget
import Genoh.NodeReplay
import Genoh.NodeActuators
import Genoh.SensorStreams
import Genoh.EncodedReplay
import Genoh.MasterInvariants
import Genoh.MasterEscalation
import Genoh.MasterCrcFailures
import Genoh.AccessDecisions
import Genoh.AccessGrants
import Genoh.NodeRegistry
import Genoh.NodeDiscovery
import Genoh.FlowInterop
import Genoh.ChannelIsolation
import Genoh.CheckedReceive
import Genoh.HarmonyTcp
import Genoh.SecurityEvidence
import Genoh.CrashConsistency
import Genoh.RewriteCrashes
import Genoh.E2EBursts
import Genoh.HashStreams
import Genoh.EncoderCounters
import Genoh.SimulationTools
import Genoh.RecoveryRuns
import Genoh.DegradedTimeout
import Genoh.ActuatorDeadline
import Genoh.RateLimit
import Genoh.KeyInterop
import Genoh.NeedlessDrops
import Genoh.SizeStatistics
import Genoh.DtcRing
import Genoh.DtcLifecycle
import Genoh.ChannelRuns
import Genoh.KeyReload
import Genoh.KeySeparation
import Genoh.WriteFailures
import Genoh.KeyDerivation
import Genoh.MasterRate
import Genoh.PayloadDetection
import Genoh.FirmwareFreshness
import Genoh.SimulatedMatching
import Genoh.KeyGrammar
import Genoh.TcpEndpoint
import Genoh.HarmonyStream
import Genoh.MemberLookup
import Genoh.PlcaTools
import Genoh.CrcTable
import Genoh.FreshnessOrder
import Genoh.TailReads
import Genoh.Mcp3204
import Genoh.SteeringUplink
import Genoh.GivenUpMessages
import Genoh.BatchStream
import Genoh.MasterWatchdog
import Genoh.AclExport
import Genoh.BackgroundExecutor
import Genoh.FutureWakeUps
