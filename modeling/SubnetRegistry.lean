import SubnetRegistry.Main
import SubnetRegistry.Serving
import SubnetRegistry.Proofs.Config.Written
import SubnetRegistry.Proofs.Error
import SubnetRegistry.Proofs.Handler
import SubnetRegistry.Proofs.Integers
import SubnetRegistry.Proofs.Ipv4Prefix
import SubnetRegistry.Proofs.Locks.Entries
import SubnetRegistry.Proofs.Locks.Exclusion
import SubnetRegistry.Proofs.Locks.Order
import SubnetRegistry.Proofs.Locks.Projection
import SubnetRegistry.Proofs.Routing
import SubnetRegistry.Proofs.Service.Refusal
import SubnetRegistry.Proofs.Service.Retry
import SubnetRegistry.Proofs.Session.Independence
import SubnetRegistry.Proofs.Session.Linearizable
import SubnetRegistry.Proofs.Session.Progress
import SubnetRegistry.Proofs.Serving.Requests
import SubnetRegistry.Proofs.Serving.Jobs
import SubnetRegistry.Proofs.Serving.Once
import SubnetRegistry.Proofs.Wire.ByName
import SubnetRegistry.Proofs.Wire.Mask
