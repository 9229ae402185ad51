import TsDrp.HashGraph.Postorder
import TsDrp.HashGraph.Ancestry
import TsDrp.Linearize.MultipleTermination
import TsDrp.Linearize.PairTermination
import TsDrp.Applier.PackedMatrix
import TsDrp.Applier.Dispatch
import TsDrp.Applier.Interleaving
import TsDrp.Applier.InvalidMemo
import TsDrp.Applier.Journal
import TsDrp.Acl.ConflictFree
import TsDrp.Acl.Influence
import TsDrp.Blueprints.MapDRP
import TsDrp.Finality.Accounting
import TsDrp.Finality.Soundness
import TsDrp.Rendezvous.AddressPolicy
import TsDrp.Rendezvous.Invite
import TsDrp.Rendezvous.ReconciliationOrder
import TsDrp.Rendezvous.Service
import TsDrp.Relay.Protobuf
import TsDrp.Relay.Concurrency
import TsDrp.ControlPlane.Coordinator
import TsDrp.Node.IntervalRunner
import TsDrp.Node.ObjectStore
import TsDrp.MessageQueue.Channel
