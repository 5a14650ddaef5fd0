import WgBp.Model.Reconcile

/-! The `MessageQueueSync` module of one node: its subscriptions, what it hands
to its PUB socket, and the handling of one received message. -/
namespace WgBp.Mq

open WgBp.Library WgBp.Library.Procedure WgBp.Model

structure Address where
  ip : Ip
  port : Nat
  deriving DecidableEq, Repr

inductive Body where
  | stateUpdate (version : Nat) (state : PeerMap)
  | departureNotice (virtualIp : Ip)
  | onboardNotice
  deriving DecidableEq

structure Msg where
  sender : Address
  body : Body
  deriving DecidableEq

/-- `sub` lists the endpoints the SUB socket is connected to, `pub` what was
handed to the PUB socket and has not left it yet. -/
structure MessageQueueSync where
  port : Nat
  version : Nat
  peers : PeerMap
  ready : Bool
  sub : List Address
  pub : List Msg
  deriving DecidableEq

abbrev MqNode := Node MessageQueueSync

def address (node : MqNode) : Address := ⟨node.state.ip, node.sync.port⟩

/-- A SUB socket keeps at most one connection to an endpoint. -/
def MessageQueueSync.connected (sync : MessageQueueSync) (endpoint : Address) :
    MessageQueueSync :=
  if endpoint ∈ sync.sub then sync else { sync with sub := sync.sub ++ [endpoint] }

/-- `_sub.connect`; an endpoint that ends in `None` is refused. -/
def connect (virtualIp : Ip) (syncPort : SyncPort) : EStateM Halt MqNode Unit :=
  match syncPort with
  | .port number =>
    modify fun node => { node with sync := node.sync.connected ⟨virtualIp, number⟩ }
  | _ => throw (.raised .zmqError)

/-- `_sub.disconnect`; only an endpoint that is connected can be disconnected. -/
def disconnect (virtualIp : Ip) (syncPort : SyncPort) : EStateM Halt MqNode Unit := do
  match syncPort with
  | .port number =>
    if ⟨virtualIp, number⟩ ∈ (← get).sync.sub then
      modify fun node => { node with sync := { node.sync with
        sub := node.sync.sub.erase ⟨virtualIp, number⟩ } }
    else throw (.raised .zmqError)
  | _ => throw (.raised .zmqError)

def handOver (node : MqNode) (body : Body) : MqNode :=
  { node with sync := { node.sync with pub := node.sync.pub ++ [⟨address node, body⟩] } }

def publishState (node : MqNode) : MqNode :=
  handOver node (.stateUpdate node.sync.version node.sync.peers)

def publishLastMessage (node : MqNode) : MqNode :=
  handOver node (.departureNotice node.state.ip)

/-- The `sync_port` argument, where zero counts as not given. -/
def portGiven (change : Change) : Option Nat := change.syncPort.filter (0 < ·)

def publishedRecord (node : MqNode) (change : Change) : PeerRecord where
  virtualIp := change.virtualIp
  publicKey := change.publicKey
  endpointIp := change.endpointIp
  endpointPort := change.endpointPort
  syncPort :=
    if change.virtualIp = node.state.ip then .port node.sync.port
    else match portGiven change with
      | some number => .port number
      | none => .missing
  allowedIps := change.allowedOrDefault

def MessageQueueSync.subscribed (sync : MessageQueueSync) (virtualIp : Ip) :
    Option Nat → MessageQueueSync
  | some number => sync.connected ⟨virtualIp, number⟩
  | none => sync

def publishChange (node : MqNode) (change : Change) : MqNode :=
  let stored := { node.sync with
    peers := node.sync.peers.set change.virtualIp (publishedRecord node change) }
  let subscribed := stored.subscribed change.virtualIp (portGiven change)
  publishState { node with sync := { subscribed with version := subscribed.version + 1 } }

def checkPeer (peerIp : Ip) (peerInfo : PeerRecord) : EStateM Halt MqNode Unit := do
  if peerIp = (← get).state.ip then pure ()
  else
    match (← get).state.peers.lookup peerIp with
    | none =>
      onState (modify fun state => state.addPeer peerInfo.virtualIp peerInfo.publicKey
        peerInfo.endpointIp peerInfo.endpointPort)
      connect peerInfo.virtualIp (← peerInfo.getSyncPort)
      onState (checkAllowedIPs peerInfo ((← get).state.peers.lookup peerIp))
    | some existingPeer => onState (checkAllowedIPs peerInfo (some existingPeer))

def checkForChanges : EStateM Halt MqNode Unit := do
  onState State.lockAquire
  let peers := (← get).sync.peers
  forM peers.entries fun entry => checkPeer entry.1 entry.2
  onState (removeUnlisted peers)
  onState State.lockRelease

def unconfigured (node : MqNode) : Option (Σ _ : Ip, PeerRecord) :=
  node.sync.peers.entries.find? fun entry =>
    entry.1 ≠ node.state.ip ∧ entry.1 ∉ node.state.peers

/-- The loop deletes from the dictionary it iterates over, so its first deletion
is also its last: the iterator raises. -/
def selfFix : EStateM Halt MqNode Unit := do
  match unconfigured (← get) with
  | none => pure ()
  | some entry =>
    disconnect entry.2.virtualIp (← entry.2.getSyncPort)
    modify fun node => { node with sync := { node.sync with
      peers := node.sync.peers.erase entry.1 } }
    throw (.raised .runtimeError)

def listenForUpdates (msg : Msg) : EStateM Halt MqNode Unit := do
  if msg.sender = address (← get) then pure ()
  else
    match msg.body with
    | .stateUpdate version peers =>
      if (← get).sync.version < version then
        modify fun node => { node with sync := { node.sync with
          ready := node.sync.ready || node.sync.version = 0
          version := version
          peers := peers } }
        checkForChanges
      else if version < (← get).sync.version then modify publishState
      else pure ()
    | .departureNotice virtualIp =>
      let _ ← getItem (.raised .keyError) (← get).sync.peers virtualIp
      modify fun node => { node with sync := { node.sync with
        peers := node.sync.peers.erase virtualIp } }
      disconnect msg.sender.ip (.port msg.sender.port)
      modify fun node => { node with sync := { node.sync with
        version := node.sync.version + 1 } }
      selfFix
      checkForChanges
    | .onboardNotice => modify publishState

end WgBp.Mq
