import WgBp.Discovery.Broadcast
import WgBp.Discovery.Grants

/-! One request at the direct-join or the broadcast handler, from its arrival until the
handler ends. The client may have closed the connection at any of the socket calls, and
the content may lack a key that the handler reads without having tested for it. -/
namespace WgBp.Discovery

open WgBp.Library WgBp.Model WgBp.Gossip

variable {σ ι : Type}

/-- A synchronization module together with the changes it has published. -/
def SyncModule.recorded (sync : SyncModule σ ι) : SyncModule (σ × List Change) ι where
  getInfo := fun node => sync.getInfo ⟨node.state, node.sync.1⟩
  publishChange := fun node change =>
    let before : Node σ := ⟨node.state, node.sync.1⟩
    let after := sync.publishChange before change
    ⟨after.state, after.sync,
      if sync.publishes before change then node.sync.2 ++ [change] else node.sync.2⟩
  publishes := fun node => sync.publishes ⟨node.state, node.sync.1⟩
  state_publishChange := fun node change =>
    sync.state_publishChange ⟨node.state, node.sync.1⟩ change

/-- The socket calls of a direct handler that raise because the client is gone: sending
the answer, receiving its acknowledgement, sending the final `OK`. -/
structure Conversation where
  answer : Bool
  acknowledgement : Bool
  confirmation : Bool

def Conversation.breaks (conversation : Conversation) (stage : Stage) : Bool :=
  match stage with
  | .granted => conversation.answer
  | .added => conversation.acknowledgement
  | .published => conversation.confirmation
  | _ => false

/-- What raises in the broadcast handler: the content lacks a key `add_peer` is called
with, or the datagram with the answer cannot be sent. -/
structure Datagram where
  incomplete : Bool
  answer : Bool

def Datagram.breaks (datagram : Datagram) (progress : Progress) : Bool :=
  match progress with
  | .tested => datagram.incomplete
  | .published => datagram.answer
  | _ => false

def Client.handled (sync : SyncModule σ ι) (conversation : Conversation) :
    Nat → Client ι → Node σ → Client ι × Node σ
  | 0, client, node => (client, node)
  | steps + 1, client, node =>
    if client.running && conversation.breaks client.stage then (client.crashed, node)
    else
      match client.advance sync node with
      | none => (client, node)
      | some (next, after) => next.handled sync conversation steps after

def Client.ended (client : Client ι) : Bool := !client.running || client.stage = .closed

def Handling.handled (sync : SyncModule σ ι) (datagram : Datagram) :
    Nat → Handling ι → Node σ → Listener ι × Node σ
  | 0, handling, node => (.busy handling, node)
  | steps + 1, handling, node =>
    if datagram.breaks handling.progress then (.dead, node)
    else
      match handling.advance sync node with
      | (.busy next, after, _) => next.handled sync datagram steps after
      | (listener, after, _) => (listener, after)

def Listener.ended (listener : Listener ι) : Bool :=
  match listener with
  | .busy _ => false
  | .waiting | .dead => true

inductive Door where
  | direct (conversation : Conversation)
  | broadcast (datagram : Datagram)

def Door.type (door : Door) : String :=
  match door with
  | .direct _ => "JOIN"
  | .broadcast _ => "BCAST_JOIN_REQUEST"

structure Door.Passes (door : Door) (request : Request) (state : State) : Prop where
  typed : request.type = door.type
  new : request.ip ∉ state.peers
  foreign : request.ip ≠ state.ip

/-- Whether the handler has ended, and the node it leaves. No handler takes more than
seven steps. -/
def Door.handle (sync : SyncModule σ ι) (door : Door) (request : Request) (node : Node σ) :
    Bool × Node σ :=
  match door with
  | .direct conversation =>
    let outcome := (Client.new request).handled sync conversation 7 node
    (outcome.1.ended, outcome.2)
  | .broadcast datagram =>
    let outcome := (Handling.mk request .received none).handled sync datagram 7 node
    (outcome.1.ended, outcome.2)

/-- The request has a `sync_port` to publish, and `publishChange` returns. -/
def SyncModule.announces (sync : SyncModule σ ι) (request : Request) (node : Node σ) : Bool :=
  request.change.any (sync.publishes node)

def Door.Sound (sync : SyncModule σ ι) (door : Door) (request : Request) (node : Node σ) :
    Prop :=
  match door with
  | .direct conversation =>
    sync.getInfo node = none ∨ conversation.answer = true ∨
      sync.announces request
          { node with state := request.addedTo { node.state with locked := true } } = true ∧
        conversation.acknowledgement = false ∧ conversation.confirmation = false
  | .broadcast datagram =>
    datagram.incomplete = true ∨
      sync.getInfo { node with state := request.addedTo node.state } ≠ none ∧
        sync.announces request { node with state := request.addedTo node.state } = true

@[simp] theorem SyncModule.announces_recorded (sync : SyncModule σ ι) (request : Request)
    (state : State) (value : σ) (log : List Change) :
    sync.recorded.announces request ⟨state, value, log⟩ = sync.announces request ⟨state, value⟩ :=
  rfl

theorem handled_advance {sync : SyncModule σ ι} {conversation : Conversation}
    (client : Client ι) {next : Client ι} {node after : Node σ}
    (intact : conversation.breaks client.stage = false)
    (advance : client.advance sync node = some (next, after)) (steps : Nat) :
    client.handled sync conversation (steps + 1) node =
      next.handled sync conversation steps after := by
  simp [Client.handled, intact, advance]

theorem handled_over {sync : SyncModule σ ι} {conversation : Conversation}
    (client : Client ι) {node : Node σ} (intact : conversation.breaks client.stage = false)
    (waits : client.advance sync node = none) (steps : Nat) :
    client.handled sync conversation steps node = (client, node) := by
  cases steps with
  | zero => rfl
  | succ steps => simp [Client.handled, intact, waits]

theorem handled_crashed {sync : SyncModule σ ι} {conversation : Conversation}
    {client : Client ι} (node : Node σ) (dead : client.running = false) (steps : Nat) :
    client.handled sync conversation steps node = (client, node) := by
  cases steps with
  | zero => rfl
  | succ steps => simp [Client.handled, Client.advance, dead]

def attentive : Conversation := ⟨false, false, false⟩

def wellFormed : Datagram := ⟨false, false⟩

end WgBp.Discovery
