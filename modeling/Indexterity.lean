import Indexterity.ActivitySplit
import Indexterity.ApplyWindow
import Indexterity.CidrWithin
import Indexterity.DialledHost
import Indexterity.GuardedHosts
import Indexterity.TrueCounters
import Indexterity.MssqlRoundTrip
import Indexterity.ObservedSplit
import Indexterity.WireGuardLines
import Indexterity.WorkloadAccount
import Indexterity.MssqlShapes
import Indexterity.QueryStatsNarrowing
import Indexterity.Service.Safeguards
import Indexterity.Service.HiddenRows
import Indexterity.Service.DropIdentity
import Indexterity.Service.RoiBalance
import Indexterity.Watermark
import Indexterity.Retention
import Indexterity.SelfReads
import Indexterity.ClassifyCluster
import Indexterity.CronBuilds
import Indexterity.PriorUse
import Indexterity.PostgresRebuild
import Indexterity.Graduation
import Indexterity.Cooldowns
import Indexterity.PoolLeases
import Indexterity.PoolReach
import Indexterity.MemberConnections
import Indexterity.ReorderRetire
import Indexterity.TunnelVerdicts
import Indexterity.Pacing
import Indexterity.Chartable
