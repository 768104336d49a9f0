import PlatformMessaging.Control.Discovery
import PlatformMessaging.Registry.Termination
import PlatformMessaging.Repository.Walk
import PlatformMessaging.Terminus.Script
import PlatformMessaging.Transfer.Probe
import PlatformMessaging.Proofs.Dialogue
import PlatformMessaging.Proofs.Message
import PlatformMessaging.Proofs.Transfer
import PlatformMessaging.Proofs.Wire.Structures
import PlatformMessaging.Proofs.Wire.Messages
import PlatformMessaging.Proofs.Transaction.Allocation
import PlatformMessaging.Proofs.Registry.Ownership
import PlatformMessaging.Proofs.Registry.Independence
import PlatformMessaging.Proofs.Registry.Timeouts
import PlatformMessaging.Proofs.Registry.Schedule
import PlatformMessaging.Proofs.Registry.Attempts
import PlatformMessaging.Proofs.Requester.Faithful
import PlatformMessaging.Proofs.Requester.Leftovers
import PlatformMessaging.Proofs.Requester.Abandonment
import PlatformMessaging.Proofs.Requester.Resumption
import PlatformMessaging.Proofs.Repository.Record
import PlatformMessaging.Proofs.Repository.Served
import PlatformMessaging.Proofs.Registry.Correlation
import PlatformMessaging.Proofs.Requester.Failures
import PlatformMessaging.Proofs.Control.Versions
import PlatformMessaging.Proofs.Corruption
import PlatformMessaging.Proofs.Transaction.Turns
import PlatformMessaging.Proofs.Registry.Resends
import PlatformMessaging.Proofs.Registry.Commutation
import PlatformMessaging.Proofs.Control.Capabilities
import PlatformMessaging.Proofs.Transaction.Lifecycle
import PlatformMessaging.Proofs.Registry.Finishing
import PlatformMessaging.Proofs.Registry.Occupancy
import PlatformMessaging.Proofs.Registry.Cascades
