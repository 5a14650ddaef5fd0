import WgBp.Gossip.Handling
import WgBp.Library.Transition

/-! A network of `SyncGossip` nodes: the processes with the sends they have under
way, and the messages in flight. Nothing orders or delays deliveries, a message
stays deliverable until it is dropped, and every send may fail. -/
namespace WgBp.Gossip

open WgBp.Library WgBp.Library.Procedure WgBp.Library.Transition WgBp.Model

/-- Which coroutine a send belongs to, and so what follows it. -/
inductive SendKind where
  | heartbeat
  | reply
  | onboarding (msg : Msg)
  | departure
  deriving DecidableEq

structure Outgoing where
  ip : Ip
  port : Nat
  kind : SendKind
  deriving DecidableEq

inductive Phase where
  | running
  | leaving
  | stopped
  deriving DecidableEq

structure Process where
  node : GossipNode
  phase : Phase
  outbox : List Outgoing
  deriving DecidableEq

/-- A message in flight on a connection to one process; `serial` tells sends apart. -/
structure Packet where
  sender : Nat
  receiver : Nat
  kind : SendKind
  serial : Nat
  msg : Msg
  deriving DecidableEq

structure Config where
  ip : Ip
  publicKey : String
  publicIp : String
  publicPort : Nat
  syncPort : Nat
  deriving DecidableEq

/-- An accepted join: the joiner's settings, with the bootstrap node's interface
data and seed record as the response carried them. -/
structure Ticket where
  config : Config
  bootstrap : Config
  seed : PeerRecord
  deriving DecidableEq

structure Network where
  processes : List Process
  packets : List Packet
  tickets : List Ticket
  serial : Nat
  deriving DecidableEq

inductive OwnEdit where
  | add (allowedIp : String)
  | remove (index : Nat)
  deriving DecidableEq

inductive Label where
  | welcome (node : Nat) (joiner : Config)
  | join (ticket : Nat)
  | publishOwn (node : Nat) (edit : OwnEdit)
  | heartbeat (node : Nat) (peerIp : Ip)
  | send (node outgoing : Nat) (receiver : Option Nat) (raises : Bool)
  | deliver (packet : Nat)
  | drop (packet : Nat)
  | leave (node : Nat)
  | depart (node : Nat) (peerIp : Ip)
  | stop (node : Nat)
  deriving DecidableEq

def Config.state (config : Config) : State :=
  .new config.ip config.publicKey config.publicIp config.publicPort

def Config.addedTo (joiner : Config) (state : State) : State :=
  state.addPeer joiner.ip joiner.publicKey joiner.publicIp joiner.publicPort

theorem Config.addedTo_same (joiner : Config) (state : State) :
    State.SameNode state (joiner.addedTo state) := State.addPeer_same _ _ _ _ _

@[simp] theorem Config.mem_addedTo {joiner : Config} {state : State}
    (foreign : joiner.ip ≠ state.ip) (other : Ip) :
    other ∈ (joiner.addedTo state).peers ↔ other = joiner.ip ∨ other ∈ state.peers :=
  State.mem_addPeer _ _ _ _ _ foreign

def created (config : Config) : Process where
  node := ⟨config.state, .new config.state none config.syncPort⟩
  phase := .running
  outbox := []

def joined (ticket : Ticket) : Process where
  node :=
    let state := ticket.bootstrap.addedTo ticket.config.state
    ⟨state, .new state (some ticket.seed) ticket.config.syncPort⟩
  phase := .running
  outbox := []

def Config.change (joiner : Config) : Change where
  virtualIp := joiner.ip
  publicKey := joiner.publicKey
  endpointIp := joiner.publicIp
  endpointPort := joiner.publicPort
  allowedIps := none
  syncPort := some joiner.syncPort

def interfaceOf (node : GossipNode) : Config :=
  ⟨node.state.ip, node.state.publicKey, node.state.publicIp, node.state.publicPort,
    node.sync.port⟩

def admitted (node : GossipNode) (joiner : Config) : GossipNode :=
  publishChange { node with state := joiner.addedTo node.state } joiner.change

def OwnEdit.apply (edit : OwnEdit) (state : State) : Option State :=
  match edit with
  | .add allowedIp => some (state.addAllowedIp allowedIp)
  | .remove index =>
    if 0 < index then (state.allowedIps[index]?).map state.removeAllowedIp else none

def departed (process : Process) : Process :=
  let node := process.node
  let counted := { node with sync := { node.sync with version := node.sync.version + 1 } }
  if node.state.ip ∈ node.sync.peers then
    { process with
      node := { counted with sync := { counted.sync with
        peers := counted.sync.peers.erase node.state.ip } }
      phase := .leaving }
  else { process with node := counted, phase := .stopped }

/-- A selected peer; a peer without a port is skipped by `_sendStateToPeer`. -/
def selected (process : Process) (peerIp : Ip) (kind : SendKind) : Option Process :=
  if peerIp = process.node.state.ip then none
  else match process.node.sync.peers.lookup peerIp with
    | some ⟨_, _, _, _, .port number, _⟩ =>
      some { process with outbox := process.outbox ++ [⟨peerIp, number, kind⟩] }
    | _ => none

def afterSend (node : GossipNode) (outgoing : Outgoing) (raises : Bool) : GossipNode :=
  match outgoing.kind, raises with
  | .heartbeat, true => forgetUnreachable node outgoing.ip
  | .departure, true => forgetUnreachable node outgoing.ip
  | .onboarding msg, false => final ((noticeDeparture msg).run node)
  | _, _ => node

def isDeparture : SendKind → Bool
  | .departure => true
  | _ => false

def accepts (process : Process) (outgoing : Outgoing) : Bool :=
  process.phase ≠ .stopped && process.node.state.ip = outgoing.ip &&
    process.node.sync.port = outgoing.port

def sentPacket (network : Network) (sender receiver : Nat) (process : Process)
    (outgoing : Outgoing) : Packet where
  sender := sender
  receiver := receiver
  kind := outgoing.kind
  serial := network.serial
  msg := stateMsg process.node (isDeparture outgoing.kind)

def replyOf (msg : Msg) : Option Handled → List Outgoing
  | some (.replying ip port true) => [⟨ip, port, .onboarding msg⟩]
  | some (.replying ip port false) => [⟨ip, port, .reply⟩]
  | _ => []

def delivered (process : Process) (msg : Msg) : Process :=
  let result := (handleGossip msg).run process.node
  { process with
    node := final result
    outbox := process.outbox ++ replyOf msg (outcome result) }

def Network.put (network : Network) (index : Nat) (process : Process) : Network :=
  { network with processes := network.processes.set index process }

def Network.create (config : Config) : Network := ⟨[created config], [], [], 0⟩

/-- One step of the network; `none` when the step is not enabled. -/
def next (network : Network) : Label → Option Network
  | .welcome index joiner => do
    let process ← network.processes[index]?
    let node := process.node
    let seed ← node.sync.peers.lookup node.state.ip
    if process.phase = .running ∧ joiner.ip ∉ node.state.peers ∧ joiner.ip ≠ node.state.ip then
      some { network.put index { process with node := admitted node joiner } with
        tickets := network.tickets ++ [⟨joiner, interfaceOf node, seed⟩] }
    else none
  | .join index => do
    let ticket ← network.tickets[index]?
    some { network with
      processes := network.processes ++ [joined ticket]
      tickets := network.tickets.eraseIdx index }
  | .publishOwn index edit => do
    let process ← network.processes[index]?
    let state ← edit.apply process.node.state
    if process.phase = .running then
      some (network.put index { process with
        node := publishChange { process.node with state } state.ownChange })
    else none
  | .heartbeat index peerIp => do
    let process ← network.processes[index]?
    let after ← selected process peerIp .heartbeat
    if process.phase ≠ .stopped then some (network.put index after) else none
  | .send index position receiver raises => do
    let process ← network.processes[index]?
    let outgoing ← process.outbox[position]?
    if process.phase = .stopped then none
    else
      let after := network.put index { process with
        node := afterSend process.node outgoing raises
        outbox := process.outbox.eraseIdx position }
      match receiver with
      | none => some after
      | some target => do
        let other ← network.processes[target]?
        if accepts other outgoing then
          some { after with
            packets := network.packets ++ [sentPacket network index target process outgoing]
            serial := network.serial + 1 }
        else none
  | .deliver position => do
    let packet ← network.packets[position]?
    let process ← network.processes[packet.receiver]?
    if process.phase = .stopped then none
    else some (network.put packet.receiver (delivered process packet.msg))
  | .drop position => some { network with packets := network.packets.eraseIdx position }
  | .leave index => do
    let process ← network.processes[index]?
    if process.phase = .running then some (network.put index (departed process)) else none
  | .depart index peerIp => do
    let process ← network.processes[index]?
    let after ← selected process peerIp .departure
    if process.phase = .leaving then some (network.put index after) else none
  | .stop index => do
    let process ← network.processes[index]?
    if process.phase = .leaving then
      some (network.put index { process with phase := .stopped })
    else none

inductive Stepped (network : Network) : Label → Network → Prop where
  | welcome {index : Nat} {joiner : Config} {process : Process} {seed : PeerRecord}
      (member : network.processes[index]? = some process)
      (seeded : process.node.sync.peers.lookup process.node.state.ip = some seed)
      (running : process.phase = .running) (new : joiner.ip ∉ process.node.state.peers)
      (foreign : joiner.ip ≠ process.node.state.ip) :
      Stepped network (.welcome index joiner)
        { network.put index { process with node := admitted process.node joiner } with
          tickets := network.tickets ++ [⟨joiner, interfaceOf process.node, seed⟩] }
  | join {index : Nat} {ticket : Ticket} (member : network.tickets[index]? = some ticket) :
      Stepped network (.join index)
        { network with
          processes := network.processes ++ [joined ticket]
          tickets := network.tickets.eraseIdx index }
  | publishOwn {index : Nat} {edit : OwnEdit} {process : Process} {state : State}
      (member : network.processes[index]? = some process)
      (edited : edit.apply process.node.state = some state)
      (running : process.phase = .running) :
      Stepped network (.publishOwn index edit)
        (network.put index { process with
          node := publishChange { process.node with state } state.ownChange })
  | heartbeat {index : Nat} {peerIp : Ip} {process after : Process}
      (member : network.processes[index]? = some process)
      (picked : selected process peerIp .heartbeat = some after)
      (alive : process.phase ≠ .stopped) :
      Stepped network (.heartbeat index peerIp) (network.put index after)
  | lost {index position : Nat} {raises : Bool} {process : Process} {outgoing : Outgoing}
      (member : network.processes[index]? = some process)
      (queued : process.outbox[position]? = some outgoing)
      (alive : process.phase ≠ .stopped) :
      Stepped network (.send index position none raises)
        (network.put index { process with
          node := afterSend process.node outgoing raises
          outbox := process.outbox.eraseIdx position })
  | sent {index position target : Nat} {raises : Bool} {process other : Process}
      {outgoing : Outgoing} (member : network.processes[index]? = some process)
      (queued : process.outbox[position]? = some outgoing)
      (alive : process.phase ≠ .stopped) (receiver : network.processes[target]? = some other)
      (listening : accepts other outgoing = true) :
      Stepped network (.send index position (some target) raises)
        { network.put index { process with
            node := afterSend process.node outgoing raises
            outbox := process.outbox.eraseIdx position } with
          packets := network.packets ++ [sentPacket network index target process outgoing]
          serial := network.serial + 1 }
  | deliver {position : Nat} {packet : Packet} {process : Process}
      (inFlight : network.packets[position]? = some packet)
      (member : network.processes[packet.receiver]? = some process)
      (alive : process.phase ≠ .stopped) :
      Stepped network (.deliver position)
        (network.put packet.receiver (delivered process packet.msg))
  | drop {position : Nat} :
      Stepped network (.drop position)
        { network with packets := network.packets.eraseIdx position }
  | leave {index : Nat} {process : Process}
      (member : network.processes[index]? = some process)
      (running : process.phase = .running) :
      Stepped network (.leave index) (network.put index (departed process))
  | depart {index : Nat} {peerIp : Ip} {process after : Process}
      (member : network.processes[index]? = some process)
      (picked : selected process peerIp .departure = some after)
      (leaving : process.phase = .leaving) :
      Stepped network (.depart index peerIp) (network.put index after)
  | stop {index : Nat} {process : Process}
      (member : network.processes[index]? = some process)
      (leaving : process.phase = .leaving) :
      Stepped network (.stop index) (network.put index { process with phase := .stopped })

theorem stepped_of_next {network after : Network} {label : Label}
    (h : next network label = some after) : Stepped network label after := by
  cases label with
  | welcome index joiner =>
      obtain ⟨process, hmember, h⟩ := Option.bind_eq_some_iff.mp h
      obtain ⟨seed, hseed, h⟩ := Option.bind_eq_some_iff.mp h
      split at h
      · rename_i hguard
        cases h
        exact .welcome hmember hseed hguard.1 hguard.2.1 hguard.2.2
      · cases h
  | join index =>
      obtain ⟨ticket, hmember, h⟩ := Option.bind_eq_some_iff.mp h
      cases h
      exact .join hmember
  | publishOwn index edit =>
      obtain ⟨process, hmember, h⟩ := Option.bind_eq_some_iff.mp h
      obtain ⟨state, hedited, h⟩ := Option.bind_eq_some_iff.mp h
      split at h
      · rename_i hrunning
        cases h
        exact .publishOwn hmember hedited hrunning
      · cases h
  | heartbeat index peerIp =>
      obtain ⟨process, hmember, h⟩ := Option.bind_eq_some_iff.mp h
      obtain ⟨picked, hpicked, h⟩ := Option.bind_eq_some_iff.mp h
      split at h
      · rename_i halive
        cases h
        exact .heartbeat hmember hpicked halive
      · cases h
  | send index position receiver raises =>
      obtain ⟨process, hmember, h⟩ := Option.bind_eq_some_iff.mp h
      obtain ⟨outgoing, hqueued, h⟩ := Option.bind_eq_some_iff.mp h
      split at h
      · cases h
      · rename_i halive
        cases receiver with
        | none =>
            cases h
            exact .lost hmember hqueued halive
        | some target =>
            obtain ⟨other, hother, h⟩ := Option.bind_eq_some_iff.mp h
            split at h
            · rename_i haccepts
              cases h
              exact .sent hmember hqueued halive hother haccepts
            · cases h
  | deliver position =>
      obtain ⟨packet, hpacket, h⟩ := Option.bind_eq_some_iff.mp h
      obtain ⟨process, hmember, h⟩ := Option.bind_eq_some_iff.mp h
      split at h
      · cases h
      · rename_i halive
        cases h
        exact .deliver hpacket hmember halive
  | drop position =>
      cases h
      exact .drop
  | leave index =>
      obtain ⟨process, hmember, h⟩ := Option.bind_eq_some_iff.mp h
      split at h
      · rename_i hrunning
        cases h
        exact .leave hmember hrunning
      · cases h
  | depart index peerIp =>
      obtain ⟨process, hmember, h⟩ := Option.bind_eq_some_iff.mp h
      obtain ⟨picked, hpicked, h⟩ := Option.bind_eq_some_iff.mp h
      split at h
      · rename_i hleaving
        cases h
        exact .depart hmember hpicked hleaving
      · cases h
  | stop index =>
      obtain ⟨process, hmember, h⟩ := Option.bind_eq_some_iff.mp h
      split at h
      · rename_i hleaving
        cases h
        exact .stop hmember hleaving
      · cases h

end WgBp.Gossip
