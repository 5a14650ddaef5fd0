import WgBp.Gossip.Network
import WgBp.Library.Mailbox
import WgBp.Mq.Handling

/-! `MessageQueueSync` nodes that come and go. Each publisher's messages stay in order and
no order holds between publishers; a message may be lost on its way. Joiners come by the
direct join, whose handler holds the lock of `State` from `add_peer` to the publication; so
an admission is one step. -/
namespace WgBp.Mq

open WgBp.Library WgBp.Library.Procedure WgBp.Library.Mailbox WgBp.Library.Transition WgBp.Model
open WgBp.Gossip (Config Ticket OwnEdit)

/-- After its notice a node still listens until its sockets are closed. -/
inductive Phase where
  | running
  | leaving
  | stopped
  deriving DecidableEq

/-- One incarnation of a node, with what it has received and not yet handled. The
listening task ends for good when a message makes it raise. -/
structure Process where
  node : MqNode
  inbox : List (Nat × Msg)
  phase : Phase
  seeded : Bool
  listening : Bool
  deriving DecidableEq

structure Swarm where
  processes : List Process
  tickets : List Ticket
  deriving DecidableEq

inductive SwarmLabel where
  | welcome (node : Nat) (joiner : Config)
  | join (ticket : Nat)
  | onboard (node : Nat)
  | publishOwn (node : Nat) (edit : OwnEdit)
  | deliver (receiver sender : Nat)
  | lose (receiver sender : Nat)
  | depart (node : Nat)
  | stop (node : Nat)
  deriving DecidableEq

def MessageQueueSync.new (state : State) (port : Nat) : MessageQueueSync where
  port := port
  version := 0
  peers := (∅ : PeerMap).set state.ip (state.ownRecord port)
  ready := false
  sub := []
  pub := []

def MessageQueueSync.seeded (state : State) (seedNode : PeerRecord) (seedPort port : Nat) :
    MessageQueueSync :=
  let sync := new state port
  { sync with peers := sync.peers.set seedNode.virtualIp seedNode }.connected
    ⟨seedNode.virtualIp, seedPort⟩

def Process.start (node : MqNode) (seeded : Bool) : Process := ⟨node, [], .running, seeded, true⟩

def created (config : Config) : Process :=
  .start ⟨config.state, .new config.state config.syncPort⟩ false

def joined (ticket : Ticket) (seedPort : Nat) : Process :=
  let state := ticket.bootstrap.addedTo ticket.config.state
  .start ⟨state, .seeded state ticket.seed seedPort ticket.config.syncPort⟩ true

/-- The constructor returns to a joining node only once it has been onboarded. -/
def Process.serves (process : Process) : Bool :=
  process.phase = .running ∧ (process.seeded = false ∨ process.node.sync.ready = true)

def Process.hear (process : Process) (publisher : Nat) (source : MqNode) : Process :=
  if process.phase ≠ .stopped ∧ address source ∈ process.node.sync.sub then
    { process with inbox := process.inbox ++ source.sync.pub.map fun msg => (publisher, msg) }
  else process

def Process.receive (process : Process) (msg : Msg) (rest : List (Nat × Msg)) : Process :=
  let result := (listenForUpdates msg).run process.node
  { process with
    node := final result
    inbox := rest
    listening := returned result }

def Swarm.act (swarm : Swarm) (index : Nat) (process : Process) : Swarm :=
  { swarm with processes := swarm.processes.mapIdx fun other existing =>
      if other = index then { process with node := flush process.node }
      else existing.hear index process.node }

def interfaceOf (node : MqNode) : Config :=
  ⟨node.state.ip, node.state.publicKey, node.state.publicIp, node.state.publicPort, node.sync.port⟩

def admitted (node : MqNode) (joiner : Config) : MqNode :=
  publishChange { node with state := joiner.addedTo node.state } joiner.change

def Swarm.next (swarm : Swarm) : SwarmLabel → Option Swarm
  | .welcome index joiner => do
    let process ← swarm.processes[index]?
    let seed ← process.node.sync.peers.lookup process.node.state.ip
    if process.serves ∧ joiner.ip ∉ process.node.state.peers ∧
        joiner.ip ≠ process.node.state.ip then
      let after := swarm.act index { process with node := admitted process.node joiner }
      some { after with tickets := swarm.tickets ++ [⟨joiner, interfaceOf process.node, seed⟩] }
    else none
  | .join index => do
    let ticket ← swarm.tickets[index]?
    match ticket.seed.syncPort with
    | .port number => some { swarm with processes := swarm.processes ++ [joined ticket number] }
    | _ => none
  | .onboard index => do
    let process ← swarm.processes[index]?
    if process.phase = .running ∧ process.seeded ∧ process.node.sync.version = 0 then
      some (swarm.act index { process with node := handOver process.node .onboardNotice })
    else none
  | .publishOwn index edit => do
    let process ← swarm.processes[index]?
    let state ← edit.apply process.node.state
    if process.serves then
      some (swarm.act index
        { process with node := publishChange { process.node with state } state.ownChange })
    else none
  | .deliver receiver sender => do
    let process ← swarm.processes[receiver]?
    let (msg, rest) ← take process.inbox sender
    if process.phase ≠ .stopped ∧ process.listening then
      some (swarm.act receiver (process.receive msg rest))
    else none
  | .lose receiver sender => do
    let process ← swarm.processes[receiver]?
    let (_, rest) ← take process.inbox sender
    some { swarm with processes := swarm.processes.set receiver { process with inbox := rest } }
  | .depart index => do
    let process ← swarm.processes[index]?
    if process.serves then
      some (swarm.act index
        { process with node := publishLastMessage process.node, phase := .leaving })
    else none
  | .stop index => do
    let process ← swarm.processes[index]?
    if process.phase = .leaving then
      some { swarm with processes := swarm.processes.set index { process with phase := .stopped } }
    else none

def Swarm.founded (configs : List Config) : Swarm := ⟨configs.map created, []⟩

end WgBp.Mq
