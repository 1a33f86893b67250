import IncusCloud.Acl.Proofs.Sees
import IncusCloud.Reconcile.Proofs.Cluster
import IncusCloud.Reconcile.Proofs.Requests
import IncusCloud.Reconcile.Proofs.StoreSync
import IncusCloud.Api.Proofs.Outrank
import IncusCloud.Api.Proofs.LastAdmin
import IncusCloud.Api.Proofs.LastOwner
import IncusCloud.Api.Proofs.SeenAtOnce
import IncusCloud.Api.Proofs.Rotate
import IncusCloud.Auth.Proofs.Refresh
import IncusCloud.Identity.Proofs.Groups
import IncusCloud.Balancing.Proofs.Legal
import IncusCloud.Jobs.Proofs.RunsOnce
import IncusCloud.Mobility.Proofs.Promotion
import IncusCloud.Mobility.Proofs.Undo
import IncusCloud.Tenants.Proofs.Quota
import IncusCloud.Federation.Proofs.Documents
import IncusCloud.Fleet.Proofs.Renames
import IncusCloud.Fleet.Proofs.Refresh
import IncusCloud.Fleet.Proofs.Located
import IncusCloud.Fleet.Proofs.Succession
import IncusCloud.Leases.Proofs.Serial
import IncusCloud.Leases.Proofs.Acts
import IncusCloud.Agent.ClusterPatch
import IncusCloud.Agent.Proofs.Edits
import IncusCloud.Kubernetes.Endpoint
import IncusCloud.Kubernetes.Proofs.Forwards
import IncusCloud.Acl.Proofs.Owner
import IncusCloud.Backups.Backup
import IncusCloud.Backups.Proofs.Count
import IncusCloud.Backups.Proofs.Restore
import IncusCloud.Kubernetes.Jobs
import IncusCloud.Kubernetes.Proofs.Certificates
import IncusCloud.Kubernetes.Proofs.Quota
import IncusCloud.Agent.SelfHeal
import IncusCloud.Agent.Proofs.SelfHeal
import IncusCloud.Firecloud.Disks
import IncusCloud.Firecloud.HostIds
import IncusCloud.Firecloud.Proofs.CephDisks
import IncusCloud.Firecloud.Proofs.HostIds
import IncusCloud.Firecloud.Proofs.OneUse
import IncusCloud.Firecloud.Proofs.OtherKeys
import IncusCloud.Firecloud.Preseed
import IncusCloud.Agent.Addresses
import IncusCloud.Agent.Calls
import IncusCloud.Agent.Proofs.Addresses
import IncusCloud.Agent.Proofs.Calls
import IncusCloud.Agent.Proofs.Creates
import IncusCloud.Agent.Proofs.Pools
import IncusCloud.Agent.Proofs.Projects
import IncusCloud.Firecloud.Proofs.Preseed
import IncusCloud.Firecloud.Proofs.PreseedDisks
import IncusCloud.Firecloud.Proofs.PreseedOrders
import IncusCloud.Firecloud.Proofs.JoinIntents
import IncusCloud.Firecloud.Proofs.Uplink
import IncusCloud.Mobility.Proofs.Targets
import IncusCloud.Jobs.Proofs.Instances
import IncusCloud.Firecloud.Proofs.SessionOwner
import IncusCloud.Firecloud.Proofs.JoinDelivery
import IncusCloud.Forms.Proofs.Devices
import IncusCloud.Forms.Proofs.Payloads
import IncusCloud.Acl.Proofs.Paths
import IncusCloud.Acl.Proofs.OwnFacts
import IncusCloud.Balancing.Proofs.Capacity
import IncusCloud.Balancing.Proofs.Groups
import IncusCloud.Balancing.Proofs.Search
import IncusCloud.Gateway.Proofs.Relay
import IncusCloud.Mobility.Failover
import IncusCloud.Mobility.Proofs.Failover
import IncusCloud.Placement.Proofs.Strict
import IncusCloud.Tenants.Proofs.Overshoot
import IncusCloud.Agent.Proofs.Ranges
import IncusCloud.Agent.Proofs.Suggested
import IncusCloud.Backups.Proofs.Retention
import IncusCloud.Balancing.Proofs.Suggest
import IncusCloud.Balancing.Proofs.Jobs
import IncusCloud.Federation.Proofs.Merge
import IncusCloud.Fleet.Proofs.Owners
import IncusCloud.Identity.Proofs.Throttle
import IncusCloud.Reconcile.Proofs.Projects
import IncusCloud.Tenants.Proofs.Limits
import IncusCloud.Tenants.Placement
import IncusCloud.Tenants.Proofs.Placement
import IncusCloud.Firecloud.Proofs.Systems
import IncusCloud.Gateway.Anonymous
import IncusCloud.Gateway.Proofs.Anonymous
import IncusCloud.Forms.Proofs.Proxy
import IncusCloud.Forms.Proofs.Projects
import IncusCloud.Forms.Proofs.Changes
import IncusCloud.Kubernetes.Proofs.Activity
import IncusCloud.Mobility.Proofs.Transfer
