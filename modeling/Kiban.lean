import Kiban.Bootstrap.Flows
import Kiban.Bootstrap.Secrets
import Kiban.Decision.CanHandlers
import Kiban.Docs.ShareReplay
import Kiban.Engine.Batch
import Kiban.Engine.CheckErrors
import Kiban.Engine.CheckWork
import Kiban.Engine.CompanyFilter
import Kiban.Fragment.Inert
import Kiban.Gateway.Catalog
import Kiban.Gateway.ReadConfinement
import Kiban.Grants.Meaning
import Kiban.Grants.Orphans
import Kiban.Grants.PlatformRole
import Kiban.Helpdesk.Agents
import Kiban.Helpdesk.TicketStatus
import Kiban.Identity.Sync
import Kiban.Identity.UserState
import Kiban.Migrations.CodeSeen
import Kiban.Migrations.Grantees
import Kiban.Modvalidate.Dependencies
import Kiban.Notification.IdempotentSend
import Kiban.Notification.TargetedEvents
import Kiban.Notification.WebhookEgress
import Kiban.Notification.Worker
import Kiban.Org.CompanyMembership
import Kiban.Org.GroupMembership
import Kiban.Org.Handover
import Kiban.Org.WriteConfinement
import Kiban.Registry.AppManifest
import Kiban.Registry.Capability
import Kiban.Registry.Ownership
import Kiban.Store.DefaultOnce
import Kiban.Timesheet.Approval
import Kiban.Timesheet.Versions
import Kiban.Web.Logout
import Kiban.Web.RouteGate
import Kiban.Web.SingleFlight
import Kiban.Web.Verifier
