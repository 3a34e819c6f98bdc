import CaptivoAccess.Proofs.ViewerGate
import CaptivoAccess.Proofs.ParseBound
import CaptivoAccess.Proofs.RecIsolation
import CaptivoAccess.Proofs.RecRetention
import CaptivoAccess.Proofs.PolicyCache
import CaptivoAccess.Proofs.AuditBatch
import CaptivoAccess.Proofs.AuditAnchor
import CaptivoAccess.Proofs.ControlStream
import CaptivoAccess.Proofs.SetCookie
import CaptivoAccess.Proofs.RecErasure
import CaptivoAccess.Proofs.AdminBackfill
import CaptivoAccess.Proofs.AuditVerify
import CaptivoAccess.Proofs.AdminCanonical
import CaptivoAccess.Proofs.Allowlist
import CaptivoAccess.Proofs.GrantCap
import CaptivoAccess.Proofs.PlanLimits
import CaptivoAccess.Proofs.Suspension
import CaptivoAccess.Proofs.InstructionCodec
import CaptivoAccess.Proofs.VideoFinalize
import CaptivoAccess.Proofs.RecList
import CaptivoAccess.Proofs.Registry
import CaptivoAccess.Proofs.ConnectorStatus
import CaptivoAccess.Proofs.Provision
import CaptivoAccess.Proofs.LastAdmin
import CaptivoAccess.Proofs.MobileSession
import CaptivoAccess.Proofs.TransferBytes
import CaptivoAccess.Proofs.PendingRequests
import CaptivoAccess.Proofs.SessionCap
import CaptivoAccess.Proofs.HostClaims
import CaptivoAccess.Proofs.PairingOnce
import CaptivoAccess.Proofs.KasmDisplays
import CaptivoAccess.Proofs.ConsentFirst
import CaptivoAccess.Proofs.ReturnTo
import CaptivoAccess.Proofs.AuditQueue
import CaptivoAccess.Proofs.LimiterRun
import CaptivoAccess.Proofs.WebActivity
import CaptivoAccess.Proofs.BodyStream
import CaptivoAccess.Proofs.RecWriter
import CaptivoAccess.Proofs.RrwebReplay
import CaptivoAccess.Proofs.KeyReplay
import CaptivoAccess.Proofs.RrwebIndex
import CaptivoAccess.Proofs.ClientAddress
import CaptivoAccess.Proofs.RecRange
import CaptivoAccess.Proofs.RecPurge
import CaptivoAccess.Proofs.SearchBudget
import CaptivoAccess.Proofs.Snippets
import CaptivoAccess.Proofs.EgressPaths
import CaptivoAccess.Proofs.SiteRequests
import CaptivoAccess.Proofs.DirectorySync
import CaptivoAccess.Proofs.Reconcile
import CaptivoAccess.Proofs.DirectoryNames
import CaptivoAccess.Proofs.AuditExport
import CaptivoAccess.Proofs.TenantSlug
import CaptivoAccess.Proofs.SiteHealth
