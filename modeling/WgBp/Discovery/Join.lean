import WgBp.Gossip.Node
import WgBp.Library.Mutex

/-! The direct-join handler: one thread for each connection, which tests the
requested address, answers, and then adds the peer and publishes it under the
lock of `State`. A thread may die of an exception at any point. -/
namespace WgBp.Discovery

open WgBp.Library WgBp.Library.Mutex WgBp.Model WgBp.Gossip

structure Request where
  type : String
  ip : Ip
  publicKey : String
  publicIp : String
  port : Nat
  syncPort : SyncPort
  deriving DecidableEq

structure Interface where
  ip : Ip
  port : Nat
  publicKey : String
  publicIp : String
  deriving DecidableEq

inductive Response (ι : Type) where
  | error (status : String)
  | success (content : Interface) (sync : ι)
  deriving DecidableEq

/-- What the handler uses of a synchronization module; `getInfo` is `none` when it
raises, `publishes` says whether `publishChange` returns or raises, and `publishChange` is
what it leaves in either case, with `State` as it was. -/
structure SyncModule (σ ι : Type) where
  getInfo : Node σ → Option ι
  publishChange : Node σ → Change → Node σ
  publishes : Node σ → Change → Bool
  state_publishChange : ∀ node change, (publishChange node change).state = node.state

structure GossipInfo where
  syncType : String
  syncIp : Ip
  syncPort : Nat
  syncSeed : PeerRecord
  deriving DecidableEq

def gossipModule : SyncModule SyncGossip GossipInfo where
  getInfo := fun node =>
    (node.sync.peers.lookup node.state.ip).map fun seed =>
      ⟨"Gossip", node.state.ip, node.sync.port, seed⟩
  publishChange := Gossip.publishChange
  publishes := fun _ _ => true
  state_publishChange := fun _ _ => rfl

inductive Stage where
  | received
  | granted
  | replied
  | locked
  | added
  | published
  | closed
  deriving DecidableEq

structure Client (ι : Type) where
  request : Request
  stage : Stage
  running : Bool
  response : Option (Response ι)
  deriving DecidableEq

variable {σ ι : Type}

def Client.new (request : Request) : Client ι := ⟨request, .received, true, none⟩

def interfaceJson (state : State) : Interface :=
  ⟨state.ip, state.publicPort, state.publicKey, state.publicIp⟩

def Request.addedTo (request : Request) (state : State) : State :=
  state.addPeer request.ip request.publicKey request.publicIp request.port

theorem Request.addedTo_same (request : Request) (state : State) :
    State.SameNode state (request.addedTo state) := State.addPeer_same _ _ _ _ _

@[simp] theorem Request.mem_addedTo {request : Request} {state : State}
    (foreign : request.ip ≠ state.ip) (other : Ip) :
    other ∈ (request.addedTo state).peers ↔ other = request.ip ∨ other ∈ state.peers :=
  State.mem_addPeer _ _ _ _ _ foreign

/-- The `publishChange` call; reading a `sync_port` that is not there raises. -/
def Request.change (request : Request) : Option Change :=
  match request.syncPort with
  | .missing => none
  | .null => some ⟨request.ip, request.publicKey, request.publicIp, request.port, none, none⟩
  | .port number =>
    some ⟨request.ip, request.publicKey, request.publicIp, request.port, none, some number⟩

/-- The thread has died; what it held it holds for good. -/
def Client.crashed (client : Client ι) : Client ι := { client with running := false }

/-- The next step of a handler; `none` when it has to wait or is over. -/
def Client.advance (sync : SyncModule σ ι) (client : Client ι) (node : Node σ) :
    Option (Client ι × Node σ) :=
  if client.running then
    match client.stage with
    | .received =>
      if client.request.type ≠ "JOIN" then
        some ({ client with stage := .closed, response := some (.error "invalid_type") }, node)
      else if client.request.ip ∈ node.state.peers ∨ client.request.ip = node.state.ip then
        some ({ client with stage := .closed, response := some (.error "exists") }, node)
      else some ({ client with stage := .granted }, node)
    | .granted =>
      match sync.getInfo node with
      | none => some (client.crashed, node)
      | some info =>
        some ({ client with
          stage := .replied
          response := some (.success (interfaceJson node.state) info) }, node)
    | .replied =>
      if node.state.locked then none
      else some ({ client with stage := .locked },
        { node with state := { node.state with locked := true } })
    | .locked =>
      some ({ client with stage := .added },
        { node with state := client.request.addedTo node.state })
    | .added =>
      match client.request.change with
      | none => some (client.crashed, node)
      | some change =>
        if sync.publishes node change then
          some ({ client with stage := .published }, sync.publishChange node change)
        else some (client.crashed, sync.publishChange node change)
    | .published =>
      some ({ client with stage := .closed },
        { node with state := { node.state with locked := false } })
    | .closed => none
  else none

def Client.holds (client : Client ι) : Bool :=
  client.stage = .locked ∨ client.stage = .added ∨ client.stage = .published

/-- The handler has found its address free and has not added it yet. -/
def Client.reserves (client : Client ι) : Bool :=
  client.stage = .granted ∨ client.stage = .replied ∨ client.stage = .locked

inductive Advances (sync : SyncModule σ ι) (client : Client ι) (node : Node σ) :
    Client ι → Node σ → Prop where
  | refused (received : client.stage = .received) (status : String) :
      Advances sync client node
        { client with stage := .closed, response := some (.error status) } node
  | granted (received : client.stage = .received) (new : client.request.ip ∉ node.state.peers)
      (foreign : client.request.ip ≠ node.state.ip) :
      Advances sync client node { client with stage := .granted } node
  | replied {info : ι} (granted : client.stage = .granted)
      (known : sync.getInfo node = some info) :
      Advances sync client node
        { client with
          stage := .replied
          response := some (.success (interfaceJson node.state) info) } node
  | locked (replied : client.stage = .replied) (free : node.state.locked = false) :
      Advances sync client node { client with stage := .locked }
        { node with state := { node.state with locked := true } }
  | added (locked : client.stage = .locked) :
      Advances sync client node { client with stage := .added }
        { node with state := client.request.addedTo node.state }
  | published {change : Change} (added : client.stage = .added)
      (complete : client.request.change = some change) :
      Advances sync client node { client with stage := .published }
        (sync.publishChange node change)
  | raised {change : Change} (added : client.stage = .added)
      (complete : client.request.change = some change)
      (raises : sync.publishes node change = false) :
      Advances sync client node client.crashed (sync.publishChange node change)
  | released (published : client.stage = .published) :
      Advances sync client node { client with stage := .closed }
        { node with state := { node.state with locked := false } }
  | crashed : Advances sync client node client.crashed node

theorem advances_of_advance {sync : SyncModule σ ι} {client after : Client ι}
    {node nodeAfter : Node σ} (h : client.advance sync node = some (after, nodeAfter)) :
    Advances sync client node after nodeAfter := by
  unfold Client.advance at h
  split at h
  · split at h
    · rename_i hstage
      split at h
      · cases h
        exact .refused hstage _
      · split at h
        · cases h
          exact .refused hstage _
        · rename_i hfree
          cases h
          exact .granted hstage (fun hmem => hfree (.inl hmem)) fun hown => hfree (.inr hown)
    · rename_i hstage
      split at h
      · cases h
        exact .crashed
      · rename_i hinfo
        cases h
        exact .replied hstage hinfo
    · rename_i hstage
      split at h
      · cases h
      · rename_i hfree
        cases h
        exact .locked hstage (Bool.eq_false_iff.mpr hfree)
    · rename_i hstage
      cases h
      exact .added hstage
    · rename_i hstage
      split at h
      · cases h
        exact .crashed
      · rename_i hchange
        split at h
        · cases h
          exact .published hstage hchange
        · rename_i hraises
          cases h
          exact .raised hstage hchange (Bool.eq_false_iff.mpr hraises)
    · rename_i hstage
      cases h
      exact .released hstage
    · cases h
  · cases h

theorem Request.change_ip {request : Request} {change : Change}
    (complete : request.change = some change) : change.virtualIp = request.ip := by
  unfold Request.change at complete
  split at complete <;> cases complete <;> rfl

theorem Request.change_of_syncPort {request : Request} (present : request.syncPort ≠ .missing) :
    ∃ change, request.change = some change := by
  unfold Request.change
  split
  · contradiction
  · exact ⟨_, rfl⟩
  · exact ⟨_, rfl⟩

end WgBp.Discovery
