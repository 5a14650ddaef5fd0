import WgBp.Model.Passes

/-! The `SyncGossip` module of one node: its constructor, its message handler
up to the first suspension, and what a handled message does to the node. -/
namespace WgBp.Gossip

open WgBp.Library WgBp.Library.Procedure WgBp.Model

def degree : Nat := 2

inductive MsgType where
  | stateUpdate
  | departureNotice
  deriving DecidableEq, Repr

structure Msg where
  type : MsgType
  version : Nat
  fromIp : Ip
  fromPort : Nat
  state : PeerMap
  deriving DecidableEq

structure SyncGossip where
  port : Nat
  version : Nat
  peers : PeerMap
  deriving DecidableEq

abbrev GossipNode := Node SyncGossip

def SyncGossip.new (state : State) (seedNode : Option PeerRecord) (port : Nat) :
    SyncGossip where
  port := port
  version := 0
  peers :=
    let own : PeerMap := Dict.set ∅ state.ip (state.ownRecord port)
    match seedNode with
    | none => own
    | some seed => own.set seed.virtualIp seed

/-- The message `_sendStateToPeer` builds, from the state at the time of sending. -/
def stateMsg (node : GossipNode) (departure : Bool) : Msg where
  type := if departure then .departureNotice else .stateUpdate
  version := node.sync.version
  fromIp := node.state.ip
  fromPort := node.sync.port
  state := node.sync.peers

/-- The record `publishChange` stores; `sync_port` is known only for the own node. -/
def publishedRecord (node : GossipNode) (change : Change) : PeerRecord where
  virtualIp := change.virtualIp
  publicKey := change.publicKey
  endpointIp := change.endpointIp
  endpointPort := change.endpointPort
  syncPort := if change.virtualIp = node.state.ip then .port node.sync.port else .null
  allowedIps := change.allowedOrDefault

def publishChange (node : GossipNode) (change : Change) : GossipNode :=
  { node with sync := { node.sync with
      version := node.sync.version + 1
      peers := node.sync.peers.set change.virtualIp (publishedRecord node change) } }

def checkPeer (peerIp : Ip) (peerInfo : PeerRecord) : EStateM Halt State Unit := do
  match (← get).peers.lookup peerIp with
  | none =>
    if peerInfo.virtualIp = (← get).ip then pure ()
    else
      modify fun state => state.addPeer peerInfo.virtualIp peerInfo.publicKey
        peerInfo.endpointIp peerInfo.endpointPort
      checkAllowedIPs peerInfo ((← get).peers.lookup peerIp)
  | some existingPeer => checkAllowedIPs peerInfo (some existingPeer)

def reconcile (peers : PeerMap) : EStateM Halt State Unit := do
  forM peers.entries fun entry => checkPeer entry.1 entry.2
  removeUnlisted peers

def checkForChanges (peers : PeerMap) : EStateM Halt State Unit := do
  State.lockAquire
  reconcile peers
  State.lockRelease

def noticeDeparture (msg : Msg) : EStateM Halt GossipNode Unit := do
  if msg.type = .departureNotice then
    if msg.fromIp ∈ (← get).sync.peers then
      modify fun node => { node with sync := { node.sync with
        peers := node.sync.peers.erase msg.fromIp } }
      onState (checkForChanges (← get).sync.peers)

/-- Where `_handleGossip` stands when it gives up control: finished, or awaiting
a reply, after which it may still look for a departure notice. -/
inductive Handled where
  | done
  | replying (toIp : Ip) (toPort : Nat) (thenNotice : Bool)
  deriving DecidableEq, Repr

def handleGossip (msg : Msg) : EStateM Halt GossipNode Handled := do
  if msg.version = 0 then
    let newPeer ← getItem (.raised .keyError) msg.state msg.fromIp
    let known ← getItem (.raised .keyError) (← get).sync.peers newPeer.virtualIp
    let syncPort ← newPeer.getSyncPort
    modify fun node => { node with sync := { node.sync with
      version := node.sync.version + 1
      peers := node.sync.peers.set newPeer.virtualIp { known with syncPort } } }
    pure (.replying msg.fromIp msg.fromPort true)
  else if msg.version < (← get).sync.version then
    pure (.replying msg.fromIp msg.fromPort false)
  else if msg.version = (← get).sync.version then
    pure .done
  else
    modify fun node => { node with sync := { node.sync with
      version := msg.version
      peers := msg.state } }
    onState (checkForChanges (← get).sync.peers)
    noticeDeparture msg
    pure .done

def forgetUnreachable (node : GossipNode) (peerIp : Ip) : GossipNode :=
  if peerIp ∈ node.state.peers then node
  else { node with sync := { node.sync with peers := node.sync.peers.erase peerIp } }

theorem run_checkPeer_met {state : State} {peerIp : Ip} {record : PeerRecord}
    (keyed : record.virtualIp = peerIp) :
    (checkPeer peerIp record).run state = .ok () (met state record) := by
  subst keyed
  unfold checkPeer met
  rw [EStateM.run_bind, EStateM.run_get]
  dsimp only
  cases hfound : state.peers.lookup record.virtualIp with
  | some existing => exact run_checkAllowedIPs hfound
  | none =>
      by_cases hown : record.virtualIp = state.ip
      · simp [hown, entered]
      · simp only [EStateM.run_bind, EStateM.run_get, hown, if_false, EStateM.run_modify]
        exact run_checkAllowedIPs_added hfound hown rfl

theorem run_checkPeer {state : State} {peerIp : Ip} {record : PeerRecord}
    (keyed : record.virtualIp = peerIp) (foreign : state.ip ∉ state.peers) :
    (checkPeer peerIp record).run state = .ok () (entered state record) := by
  rw [run_checkPeer_met keyed, met_foreign foreign]

theorem entered_foreign {state : State} {record : PeerRecord}
    (foreign : state.ip ∉ state.peers) :
    (entered state record).ip ∉ (entered state record).peers := by
  rw [(entered_same state record).ip, Dict.mem_iff_lookup, lookup_entered]
  have hown : state.peers.lookup state.ip = none := AList.lookup_eq_none.mpr foreign
  rintro ⟨info, hinfo⟩
  split at hinfo
  · rename_i h
    exact h.2 h.1.symm
  · rw [hown] at hinfo
    cases hinfo

theorem run_reconcile {state : State} {peers : PeerMap} (keyed : Keyed peers)
    (foreign : state.ip ∉ state.peers) :
    (reconcile peers).run state = .ok () (reconciled peers state) := by
  have hfirst : (forM peers.entries fun entry => checkPeer entry.1 entry.2).run state =
      .ok () (enteredAll state peers.entries) := by
    refine run_forM (fun state => state.ip ∉ state.peers) _ ?_ state foreign
    intro entry hentry state hforeign
    have hkey := keyed entry.1 entry.2 (Dict.lookup_of_mem_entries hentry)
    exact ⟨run_checkPeer hkey hforeign, entered_foreign hforeign⟩
  unfold reconcile
  rw [EStateM.run_bind, hfirst]
  exact run_removeUnlisted peers _

theorem run_checkForChanges {state : State} {peers : PeerMap} (keyed : Keyed peers)
    (foreign : state.ip ∉ state.peers) (free : state.locked = false) :
    (checkForChanges peers).run state =
      .ok () (checked peers state) := by
  have hreconcile : (reconcile peers).run { state with locked := true } =
      .ok () (reconciled peers { state with locked := true }) := run_reconcile keyed foreign
  simp only [checkForChanges, EStateM.run_bind, State.run_lockAquire free, hreconcile,
    State.run_lockRelease, checked]

theorem free_of_returned {peers : PeerMap} {state after : State}
    (returns : (checkForChanges peers).run state = .ok () after) : state.locked = false := by
  obtain ⟨_, locked, hlock, -⟩ := bind_returned returns
  exact (State.lockAquire_returned hlock).1

end WgBp.Gossip
