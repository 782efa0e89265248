import SpatiumDdi.Ipam.ChildrenApart
import SpatiumDdi.Trash.RoundTrip
import SpatiumDdi.Ipam.Exclusion
import SpatiumDdi.Ipam.Concurrent
import SpatiumDdi.Audit.Writers
import SpatiumDdi.Auth.Introspection
import SpatiumDdi.Auth.Directory
import SpatiumDdi.Dns.Rrset
import SpatiumDdi.Dns.PoolApplyAgrees
import SpatiumDdi.Agent.Restart
import SpatiumDdi.Agent.SpoolOrder
import SpatiumDdi.Agent.BundleFile
import SpatiumDdi.BlockSync.Converged
import SpatiumDdi.Dhcp.LeaseTail
import SpatiumDdi.Upgrade.Exclusive
import SpatiumDdi.Approvals.TwoPerson
import SpatiumDdi.Auth.SessionFrames
import SpatiumDdi.Dns.BundleStore
import SpatiumDdi.Dns.OpDelivery
import SpatiumDdi.Dns.OpQueueOrder
import SpatiumDdi.Dns.ZoneMove
import SpatiumDdi.Dns.IngestConverges
import SpatiumDdi.Ipam.NextAvailable
import SpatiumDdi.Ipam.PlanAllocation
import SpatiumDdi.Ipam.SplitKeeps
import SpatiumDdi.Dns.ApexRuns
import SpatiumDdi.Dns.ServedSerial
import SpatiumDdi.Dns.ViewShareRuns
import SpatiumDdi.Dns.CarryRuns
import SpatiumDdi.Agent.DeathCounts
import SpatiumDdi.Audit.WholeLog
import SpatiumDdi.Dns.CnameRule
import SpatiumDdi.Dns.SanitizedNames
import SpatiumDdi.Dns.ReverseSampled
import SpatiumDdi.Dns.ZoneSerial
import SpatiumDdi.Ipam.Utilization
import SpatiumDdi.Dns.NearestScope
import SpatiumDdi.Dns.ZoneFileReplace
import SpatiumDdi.Dns.LiveTxtPdns
import SpatiumDdi.Dhcp.RawOptionsKept
import SpatiumDdi.Dhcp.DevicePolicyExact
import SpatiumDdi.SupportBundle.LogStreamSteps
import SpatiumDdi.Dhcp.WindowsFailoverSound
import SpatiumDdi.SupportBundle.ScrubberRuns
import SpatiumDdi.Dhcp.LeaseWatcher
import SpatiumDdi.Dhcp.StaticMirrorsTravel
import SpatiumDdi.Dhcp.KeaRender
import SpatiumDdi.Dns.AclOrder
import SpatiumDdi.Influxdb.LineProtocolRoundTrip
import SpatiumDdi.Auth.AttemptBudgetRuns
import SpatiumDdi.Agent.InstanceOwnershipRuns
import SpatiumDdi.Dns.OpAttemptsRuns
import SpatiumDdi.Dns.BlocklistCarveOut
import SpatiumDdi.Appliance.DropInSources
import SpatiumDdi.Dns.NamedConfContained
import SpatiumDdi.Dhcp.QueueEvictions
import SpatiumDdi.Dhcp.PeerResolve
import SpatiumDdi.Dhcp.IntakeFilter
import SpatiumDdi.Dhcp.ImportCommit
import SpatiumDdi.Appliance.EtcdEvictions
import SpatiumDdi.Dns.IngestWhole
import SpatiumDdi.Dns.TechnitiumAcl
import SpatiumDdi.Ipam.TemplateCarve
