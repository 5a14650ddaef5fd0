import WgBp.Gossip.LostUpdate
import WgBp.Gossip.AntiEntropy
import WgBp.Gossip.Tracking
import WgBp.Gossip.SendLock
import WgBp.Gossip.Rounds
import WgBp.Gossip.Broadcast
import WgBp.Gossip.Membership
import WgBp.Gossip.Traffic
import WgBp.Gossip.Spreading
import WgBp.Gossip.Progress
import WgBp.Gossip.Addresses
import WgBp.Gossip.Wire
import WgBp.Mq.Agreement
import WgBp.Mq.Reception
import WgBp.Mq.Subscriber
import WgBp.Mq.Convergence
import WgBp.Mq.Onboarding
import WgBp.Mq.Settling
import WgBp.Mq.Wire
import WgBp.Mq.Mesh
import WgBp.Dht.KeyList
import WgBp.Dht.ChangeCheck
import WgBp.Dht.Poll
import WgBp.Dht.Arrival
import WgBp.Dht.Texts
import WgBp.Passes.Reconciliation
import WgBp.Passes.Stored
import WgBp.AllSync.Removal
import WgBp.AllSync.Completion
import WgBp.Discovery.Admission
import WgBp.Discovery.Services
import WgBp.Discovery.Exchange
import WgBp.Discovery.Browse
import WgBp.Wireguard.Routes
import WgBp.Main.AllowedIps
import WgBp.Main.Startup
import WgBp.Stun.Endpoint
import WgBp.Wireguard.Homes
