import WgBp.Gossip.Invariant
import WgBp.Library.Versioned

/-! The network seen as a replicated versioned value: what the processes and the
messages hold, and that every step copies, starts a replica, or writes. -/
namespace WgBp.Gossip

open WgBp.Library WgBp.Library.Procedure WgBp.Library.Transition WgBp.Library.Versioned
open WgBp.Model

abbrev VersionedMap := Nat × PeerMap

def SyncGossip.pair (sync : SyncGossip) : VersionedMap := (sync.version, sync.peers)

def Msg.pair (msg : Msg) : VersionedMap := (msg.version, msg.state)

/-- What the processes that still run hold, and what the messages carry. -/
def Network.pairs (network : Network) : List VersionedMap :=
  ((network.processes.filter fun process => process.phase ≠ .stopped).map
    fun process => process.node.sync.pair) ++
  network.packets.map fun packet => packet.msg.pair

def Network.held (network : Network) : Set VersionedMap := { pair | pair ∈ network.pairs }

@[simp] theorem mem_held {network : Network} {pair : VersionedMap} :
    pair ∈ network.held ↔
      (∃ process ∈ network.processes, process.phase ≠ .stopped ∧
        process.node.sync.pair = pair) ∨
      ∃ packet ∈ network.packets, packet.msg.pair = pair := by
  simp [Network.held, Network.pairs, and_assoc]

theorem process_held {network : Network} {process : Process}
    (member : process ∈ network.processes) (alive : process.phase ≠ .stopped) :
    process.node.sync.pair ∈ network.held :=
  mem_held.mpr (.inl ⟨process, member, alive, rfl⟩)

theorem packet_held {network : Network} {packet : Packet} (member : packet ∈ network.packets) :
    packet.msg.pair ∈ network.held :=
  mem_held.mpr (.inr ⟨packet, member, rfl⟩)

/-- The process a step is about to raise the version of by a write of its own:
a publication, an onboarding or a departure. -/
def raiser (network : Network) : Label → Option Process
  | .welcome index _ | .publishOwn index _ | .leave index => network.processes[index]?
  | .deliver position => do
    let packet ← network.packets[position]?
    let process ← network.processes[packet.receiver]?
    if onboards process.node packet.msg then some process else none
  | _ => none

/-- A departure notice that is newer than its receiver and still lists its sender. -/
def staleNotice (network : Network) : Label → Option Msg
  | .deliver position => do
    let packet ← network.packets[position]?
    let process ← network.processes[packet.receiver]?
    if packet.msg.type = .departureNotice ∧ packet.msg.fromIp ∈ packet.msg.state ∧
        process.node.sync.version < packet.msg.version then
      some packet.msg
    else none
  | _ => none

structure Publication where
  node : Nat
  ip : Ip
  record : PeerRecord
  version : Nat
  deriving DecidableEq

def publication (network : Network) : Label → Option Publication
  | .welcome index joiner => do
    let process ← network.processes[index]?
    let state := joiner.addedTo process.node.state
    some ⟨index, joiner.ip, publishedRecord { process.node with state } joiner.change,
      process.node.sync.version + 1⟩
  | .publishOwn index edit => do
    let process ← network.processes[index]?
    let state ← edit.apply process.node.state
    some ⟨index, state.ip, publishedRecord { process.node with state } state.ownChange,
      process.node.sync.version + 1⟩
  | _ => none

theorem publication_welcome {network : Network} {index : Nat} {process : Process}
    (member : network.processes[index]? = some process) (joiner : Config) :
    publication network (.welcome index joiner) = some ⟨index, joiner.ip,
      publishedRecord { process.node with state := joiner.addedTo process.node.state }
        joiner.change, process.node.sync.version + 1⟩ := by
  simp only [publication, member, Option.bind_eq_bind, Option.bind_some]

theorem publication_own {network : Network} {index : Nat} {process : Process} {edit : OwnEdit}
    {state : State} (member : network.processes[index]? = some process)
    (edited : edit.apply process.node.state = some state) :
    publication network (.publishOwn index edit) = some ⟨index, state.ip,
      publishedRecord { process.node with state } state.ownChange,
      process.node.sync.version + 1⟩ := by
  simp only [publication, member, edited, Option.bind_eq_bind, Option.bind_some]

inductive Write (network : Network) : Label → Process → PeerMap → Prop where
  | published {label : Label} {process : Process} {pub : Publication}
      (published : publication network label = some pub)
      (version : process.node.sync.version + 1 = pub.version) :
      Write network label process (process.node.sync.peers.set pub.ip pub.record)
  | onboarded {position : Nat} {process : Process} {peerIp : Ip} {known : PeerRecord}
      (found : process.node.sync.peers.lookup peerIp = some known) (syncPort : SyncPort) :
      Write network (.deliver position) process
        (process.node.sync.peers.set peerIp { known with syncPort })
  | left {index : Nat} {process : Process}
      (member : network.processes[index]? = some process) :
      Write network (.leave index) process
        (process.node.sync.peers.erase process.node.state.ip)

inductive Effect (network : Network) (label : Label) (after : Network) : Prop where
  | copied (sub : after.held ⊆ network.held)
  | started {index : Nat} (joins : label = .join index) (peers : PeerMap)
      (sub : after.held ⊆ insert (0, peers) network.held)
  | wrote {process : Process} {peers : PeerMap} (member : process ∈ network.processes)
      (alive : process.phase ≠ .stopped)
      (raised : raiser network label = some process)
      (write : Write network label process peers)
      (sub : after.held ⊆ insert (process.node.sync.version + 1, peers) network.held)
  | stale {msg : Msg} (notice : staleNotice network label = some msg)
      (copied : msg.pair ∈ network.held)
      (sub : after.held ⊆ insert (msg.version, msg.state.erase msg.fromIp) network.held)

theorem held_put (network : Network) (index : Nat) (process : Process) :
    (network.put index process).held ⊆ insert process.node.sync.pair network.held := by
  intro pair hpair
  rcases mem_held.mp hpair with ⟨other, hmem, halive, rfl⟩ | ⟨packet, hmem, rfl⟩
  · rcases List.mem_or_eq_of_mem_set hmem with hold | rfl
    · exact .inr (process_held hold halive)
    · exact .inl rfl
  · exact .inr (packet_held hmem)

theorem held_put_copy {network : Network} {index : Nat} {process : Process}
    (copy : process.phase ≠ .stopped → process.node.sync.pair ∈ network.held) :
    (network.put index process).held ⊆ network.held := by
  intro pair hpair
  rcases mem_held.mp hpair with ⟨other, hmem, halive, rfl⟩ | ⟨packet, hmem, rfl⟩
  · rcases List.mem_or_eq_of_mem_set hmem with hold | rfl
    · exact process_held hold halive
    · exact copy halive
  · exact packet_held hmem

theorem held_packets {network : Network} {packets : List Packet} {serial : Nat}
    (copies : ∀ packet ∈ packets, packet.msg.pair ∈ network.held) :
    { network with packets, serial }.held ⊆ network.held := by
  intro pair hpair
  rcases mem_held.mp hpair with ⟨other, hmem, halive, rfl⟩ | ⟨packet, hmem, rfl⟩
  · exact process_held hmem halive
  · exact copies packet hmem

/-- Handling one message copies the pair of the message, or writes, or keeps
what the process holds; adopting a notice that lists its sender is the exception. -/
theorem Handles.pair {msg : Msg} {node after : GossipNode} {next : Option Handled}
    (h : Handles msg node after next) :
    after.sync.pair = node.sync.pair ∨ after.sync.pair = msg.pair ∨
    (∃ newPeer known : PeerRecord, onboards node msg = true ∧
      node.sync.peers.lookup newPeer.virtualIp = some known ∧
      after.sync.pair = (node.sync.version + 1, node.sync.peers.set newPeer.virtualIp
        { known with syncPort := newPeer.syncPort })) ∨
    (node.sync.version < msg.version ∧ msg.type = .departureNotice ∧ msg.fromIp ∈ msg.state ∧
      after.sync.pair = (msg.version, msg.state.erase msg.fromIp)) := by
  cases h with
  | onboarded zero announced found ported =>
      have honboards : onboards node msg = true := by
        simp [onboards, zero, announced, Dict.mem_of_lookup found, ported]
      exact .inr (.inr (.inl ⟨_, _, honboards, found, rfl⟩))
  | adopted _ _ => exact .inr (.inl rfl)
  | departed higher notice listed => exact .inr (.inr (.inr ⟨higher, notice, listed, rfl⟩))
  | _ => exact .inl rfl

private theorem deliver_effect {network : Network} (sane : Sane network) {position : Nat}
    {packet : Packet} {process : Process}
    (inFlight : network.packets[position]? = some packet)
    (member : network.processes[packet.receiver]? = some process)
    (alive : process.phase ≠ .stopped) :
    Effect network (.deliver position)
      (network.put packet.receiver (delivered process packet.msg)) := by
  have hprocess := List.mem_of_getElem? member
  have hpacket := List.mem_of_getElem? inFlight
  have hcases := handleGossip_cases (sane.processes _ hprocess).sound
    (sane.packets _ hpacket).keyed
  have hput := held_put network packet.receiver (delivered process packet.msg)
  rcases hcases.pair with hsame | hcopy | ⟨newPeer, known, honboards, hknown, hpair⟩ |
    ⟨hhigher, hnotice, hlisted, hpair⟩
  · exact .copied (held_put_copy fun _ => hsame ▸ process_held hprocess alive)
  · exact .copied (held_put_copy fun _ => hcopy ▸ packet_held hpacket)
  · rw [show (delivered process packet.msg).node.sync.pair = _ from hpair] at hput
    refine .wrote hprocess alive ?_ (.onboarded hknown newPeer.syncPort) hput
    simp [raiser, inFlight, member, honboards]
  · rw [show (delivered process packet.msg).node.sync.pair = _ from hpair] at hput
    refine .stale ?_ (packet_held hpacket) hput
    simp [staleNotice, inFlight, member, hnotice, hlisted, hhigher]

private theorem departed_pair (process : Process) :
    (departed process).node.sync.pair = (process.node.sync.version + 1,
        process.node.sync.peers.erase process.node.state.ip) ∨
      (departed process).phase = .stopped := by
  unfold departed
  dsimp only
  split
  · exact .inl rfl
  · exact .inr rfl

private theorem selected_pair {process after : Process} {peerIp : Ip} {kind : SendKind}
    (picked : selected process peerIp kind = some after) :
    after.node = process.node ∧ after.phase = process.phase := by
  obtain ⟨_, number, rfl⟩ := selected_spec picked
  exact ⟨rfl, rfl⟩

theorem effect_of_next {network after : Network} {label : Label} (sane : Sane network)
    (h : next network label = some after) : Effect network label after := by
  have hfine {index : Nat} {process : Process}
      (member : network.processes[index]? = some process) : process.Fine :=
    sane.processes process (List.mem_of_getElem? member)
  have hkept {index position : Nat} {process : Process} {outgoing : Outgoing} {raises : Bool}
      (member : network.processes[index]? = some process)
      (queued : process.outbox[position]? = some outgoing) (alive : process.phase ≠ .stopped) :
      (network.put index { process with
        node := afterSend process.node outgoing raises
        outbox := process.outbox.eraseIdx position }).held ⊆ network.held := by
    refine held_put_copy fun _ => ?_
    rw [afterSend_eq (hfine member) (List.mem_of_getElem? queued)]
    have hheld := process_held (List.mem_of_getElem? member) alive
    exact hheld
  cases stepped_of_next h with
  | welcome member _ running _ _ =>
      exact .wrote (List.mem_of_getElem? member) (by simp [running]) (by simp [raiser, member])
        (.published (publication_welcome member _) rfl) (held_put _ _ _)
  | join _ =>
      rename_i index ticket _
      refine .started rfl (joined ticket).node.sync.peers ?_
      intro pair hpair
      rcases mem_held.mp hpair with ⟨other, hmem, halive, rfl⟩ | ⟨packet, hmem, rfl⟩
      · rcases List.mem_append.mp hmem with hold | hnew
        · exact .inr (process_held hold halive)
        · rw [List.mem_singleton.mp hnew]
          exact .inl rfl
      · exact .inr (packet_held hmem)
  | publishOwn member edited running =>
      exact .wrote (List.mem_of_getElem? member) (by simp [running]) (by simp [raiser, member])
        (.published (publication_own member edited) rfl) (held_put _ _ _)
  | heartbeat member picked alive =>
      obtain ⟨hnode, _⟩ := selected_pair picked
      exact .copied (held_put_copy fun _ =>
        hnode ▸ process_held (List.mem_of_getElem? member) alive)
  | lost member queued alive => exact .copied (hkept member queued alive)
  | sent member queued alive _ _ =>
      refine .copied (fun pair hpair => ?_)
      rcases mem_held.mp hpair with ⟨other, hmem, halive, rfl⟩ | ⟨packet, hmem, rfl⟩
      · exact hkept member queued alive (process_held hmem halive)
      · rcases List.mem_append.mp hmem with hold | hnew
        · exact packet_held hold
        · rw [List.mem_singleton.mp hnew]
          exact process_held (List.mem_of_getElem? member) alive
  | deliver inFlight member alive => exact deliver_effect sane inFlight member alive
  | drop =>
      exact .copied (held_packets fun packet hmem =>
        packet_held (List.mem_of_mem_eraseIdx hmem))
  | leave member running =>
      rename_i index process
      have halive : process.phase ≠ .stopped := by rw [running]; decide
      rcases departed_pair process with hpair | hstopped
      · refine .wrote (List.mem_of_getElem? member) halive (by simp [raiser, member])
          (.left member) ?_
        rw [← hpair]
        exact held_put _ _ _
      · exact .copied (held_put_copy fun h => absurd hstopped h)
  | depart member picked leaving =>
      obtain ⟨hnode, _⟩ := selected_pair picked
      exact .copied (held_put_copy fun _ => hnode ▸
        process_held (List.mem_of_getElem? member) (by rw [leaving]; decide))
  | stop member _ => exact .copied (held_put_copy fun h => absurd rfl h)

end WgBp.Gossip
