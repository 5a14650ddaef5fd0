import WgBp.Discovery.Join
import WgBp.Gossip.Network

/-! One gossip node with its threads: the join handlers, the event loop of the
synchronization module, and the main thread. The loop replaces the map outside
the lock of `State` and reconciles under it, so a pass has half-way points at
which the other threads run. -/
namespace WgBp.Gossip

open WgBp.Library WgBp.Library.Procedure WgBp.Library.Mutex WgBp.Library.Transition
open WgBp.Model WgBp.Discovery

/-- Where the event loop stands. Inside a pass it remembers the message whose
departure check is still to come. -/
inductive Loop where
  | idle
  | changed (next : Option Msg)
  | locked (next : Option Msg)
  | reconciled (next : Option Msg)
  | noticing (msg : Msg)
  deriving DecidableEq

def Loop.holds : Loop → Bool
  | .locked _ | .reconciled _ => true
  | _ => false

def Loop.inPass : Loop → Bool
  | .changed _ | .locked _ | .reconciled _ => true
  | _ => false

/-- A pass for a message is followed by its departure check, the pass of that check
by nothing. -/
def Loop.afterPass : Option Msg → Loop
  | some msg => .noticing msg
  | none => .idle

/-- `onboarding` are the version-zero messages whose handlers await their reply. -/
structure Member where
  node : GossipNode
  clients : List (Client GossipInfo)
  loop : Loop
  onboarding : List Msg
  deriving DecidableEq

inductive ThreadLabel where
  | accept (request : Request)
  | client (index : Nat)
  | crash (index : Nat)
  | receive (msg : Msg)
  | acquire
  | reconcile
  | release
  | notice
  | onboarded (index : Nat) (raises : Bool)
  | sendFails (peerIp : Ip)
  | publishOwn (edit : OwnEdit)
  | leave
  deriving DecidableEq

def ThreadLabel.isReceive : ThreadLabel → Bool
  | .receive _ => true
  | _ => false

def replaced (node : GossipNode) (msg : Msg) : GossipNode :=
  { node with sync := { node.sync with version := msg.version, peers := msg.state } }

/-- The part of `_handleGossip` that comes before the first await or lock. -/
def Member.receive (member : Member) (msg : Msg) : Member :=
  if msg.version = 0 then
    match (handleGossip msg).run member.node with
    | .ok _ node => { member with node, onboarding := member.onboarding ++ [msg] }
    | .error _ node => { member with node }
  else if msg.version ≤ member.node.sync.version then member
  else { member with node := replaced member.node msg, loop := .changed (some msg) }

def setLocked (node : GossipNode) (locked : Bool) : GossipNode :=
  { node with state := { node.state with locked } }

def Member.next (member : Member) : ThreadLabel → Option Member
  | .accept request => some { member with clients := member.clients ++ [.new request] }
  | .client index => do
    let client ← member.clients[index]?
    let (after, node) ← client.advance gossipModule member.node
    some { member with node, clients := member.clients.set index after }
  | .crash index => do
    let client ← member.clients[index]?
    some { member with clients := member.clients.set index client.crashed }
  | .receive msg => if member.loop = .idle then some (member.receive msg) else none
  | .acquire =>
    match member.loop with
    | .changed next =>
      if member.node.state.locked then none
      else some { member with node := setLocked member.node true, loop := .locked next }
    | _ => none
  | .reconcile =>
    match member.loop with
    | .locked next =>
      match (reconcile member.node.sync.peers).run member.node.state with
      | .ok _ state => some { member with
          node := { member.node with state }, loop := .reconciled next }
      | .error _ state => some { member with node := { member.node with state }, loop := .idle }
    | _ => none
  | .release =>
    match member.loop with
    | .reconciled next => some { member with
        node := setLocked member.node false
        loop := .afterPass next }
    | _ => none
  | .notice =>
    match member.loop with
    | .noticing msg =>
      if msg.type = .departureNotice ∧ msg.fromIp ∈ member.node.sync.peers then
        some { member with
          node := { member.node with sync := { member.node.sync with
            peers := member.node.sync.peers.erase msg.fromIp } }
          loop := .changed none }
      else some { member with loop := .idle }
    | _ => none
  | .onboarded index raises => do
    let msg ← member.onboarding[index]?
    if member.loop = .idle then
      some { member with
        onboarding := member.onboarding.eraseIdx index
        loop := if raises then .idle else .noticing msg }
    else none
  | .sendFails peerIp =>
    if member.loop = .idle ∧ peerIp ≠ member.node.state.ip then
      some { member with node := forgetUnreachable member.node peerIp }
    else none
  | .publishOwn edit => do
    let state ← edit.apply member.node.state
    some { member with node := publishChange { member.node with state } state.ownChange }
  | .leave =>
    if member.loop = .idle then
      some { member with node := { member.node with sync := { member.node.sync with
        version := member.node.sync.version + 1
        peers := member.node.sync.peers.erase member.node.state.ip } } }
    else none

/-- Gossip nodes and the messages any of them has sent; a message can be received
any number of times. -/
structure World where
  members : List Member
  mail : List Msg
  deriving DecidableEq

inductive WorldLabel where
  | thread (member : Nat) (label : ThreadLabel)
  | receive (member mail : Nat)
  | emit (member : Nat) (departure : Bool)
  | join (member client : Nat)
  deriving DecidableEq

def ticketOf (client : Client GossipInfo) : Option Ticket :=
  match client.stage, client.response, client.request.syncPort with
  | .published, some (.success content info), .port number
  | .closed, some (.success content info), .port number =>
    let request := client.request
    some ⟨⟨request.ip, request.publicKey, request.publicIp, request.port, number⟩,
      ⟨content.ip, content.publicKey, content.publicIp, content.port, info.syncPort⟩,
      info.syncSeed⟩
  | _, _, _ => none

def Member.start (node : GossipNode) : Member := ⟨node, [], .idle, []⟩

def World.create (config : Config) : World := ⟨[.start (created config).node], []⟩

def World.put (world : World) (index : Nat) (member : Member) : World :=
  { world with members := world.members.set index member }

def World.next (world : World) : WorldLabel → Option World
  | .thread index label => do
    let member ← world.members[index]?
    let after ← member.next label
    if label.isReceive then none else some (world.put index after)
  | .receive index position => do
    let member ← world.members[index]?
    let msg ← world.mail[position]?
    let after ← member.next (.receive msg)
    some (world.put index after)
  | .emit index departure => do
    let member ← world.members[index]?
    if member.loop = .idle then
      some { world with mail := world.mail ++ [stateMsg member.node departure] }
    else none
  | .join index position => do
    let member ← world.members[index]?
    let client ← member.clients[position]?
    let ticket ← ticketOf client
    some { world with members := world.members ++ [.start (joined ticket).node] }

variable {member : Member}

def Config.request (joiner : Config) : Request :=
  ⟨"JOIN", joiner.ip, joiner.publicKey, joiner.publicIp, joiner.publicPort,
    .port joiner.syncPort⟩

def Config.client (joiner : Config) (stage : Stage) (response : Option (Response GossipInfo)) :
    Client GossipInfo :=
  ⟨joiner.request, stage, true, response⟩

def welcoming (node : GossipNode) (seed : PeerRecord) : Response GossipInfo :=
  .success (interfaceJson node.state) ⟨"Gossip", node.state.ip, node.sync.port, seed⟩

theorem next_client {client after : Client GossipInfo} {node nodeAfter : GossipNode}
    (clients : List (Client GossipInfo))
    (advances : client.advance gossipModule node = some (after, nodeAfter)) :
    Member.next { member with node, clients := clients ++ [client] } (.client clients.length) =
      some { member with node := nodeAfter, clients := clients ++ [after] } := by
  simp [Member.next, advances]

theorem setLocked_self {node : GossipNode} {locked : Bool} (equal : node.state.locked = locked) :
    setLocked node locked = node := by
  subst equal
  rfl

/-- Alone, a handler admits at once: the node and the ticket are those of an admission
without interference. -/
theorem admission_alone {joiner : Config} {seed : PeerRecord}
    (seeded : member.node.sync.peers.lookup member.node.state.ip = some seed)
    (new : joiner.ip ∉ member.node.state.peers) (foreign : joiner.ip ≠ member.node.state.ip)
    (free : member.node.state.locked = false) :
    ∃ client, ticketOf client = some ⟨joiner, interfaceOf member.node, seed⟩ ∧
      Run Member.next always member
        { member with
          node := admitted member.node joiner
          clients := member.clients ++ [client] } := by
  have htested : (joiner.client .received none).advance gossipModule member.node =
      some (joiner.client .granted none, member.node) := by
    simp [Client.advance, Config.client, Config.request, new, foreign]
  have hreplied : (joiner.client .granted none).advance gossipModule member.node =
      some (joiner.client .replied (welcoming member.node seed), member.node) := by
    simp [Client.advance, gossipModule, seeded, Config.client, welcoming]
  have hlocked : (joiner.client .replied (welcoming member.node seed)).advance gossipModule
      member.node = some (joiner.client .locked (welcoming member.node seed),
        setLocked member.node true) := by
    simp [Client.advance, Config.client, free, setLocked]
  have hadded : (joiner.client .locked (welcoming member.node seed)).advance gossipModule
      (setLocked member.node true) = some (joiner.client .added (welcoming member.node seed),
        setLocked { member.node with state := joiner.addedTo member.node.state } true) := by
    simp [Client.advance, Config.client, Config.request, Request.addedTo, Config.addedTo,
      State.addPeer, foreign, setLocked]
  have hpublished : (joiner.client .added (welcoming member.node seed)).advance gossipModule
      (setLocked { member.node with state := joiner.addedTo member.node.state } true) =
        some (joiner.client .published (welcoming member.node seed),
          setLocked (admitted member.node joiner) true) := rfl
  have hfree : (admitted member.node joiner).state.locked = false :=
    (joiner.addedTo_same member.node.state).locked.trans free
  have hreleased : (joiner.client .published (welcoming member.node seed)).advance gossipModule
      (setLocked (admitted member.node joiner) true) =
        some (joiner.client .closed (welcoming member.node seed),
          admitted member.node joiner) := by
    have hunlocked := setLocked_self hfree
    calc (joiner.client .published (welcoming member.node seed)).advance gossipModule
          (setLocked (admitted member.node joiner) true)
        = some (joiner.client .closed (welcoming member.node seed),
            setLocked (admitted member.node joiner) false) := rfl
      _ = _ := by rw [hunlocked]
  refine ⟨joiner.client .closed (welcoming member.node seed), rfl, ?_⟩
  have haccepted : Member.next member (.accept joiner.request) =
      some { member with clients := member.clients ++ [joiner.client .received none] } := rfl
  exact .step (.step (.step (.step (.step (.step (.single trivial haccepted) trivial
    (next_client member.clients htested)) trivial (next_client member.clients hreplied)) trivial
    (next_client member.clients hlocked)) trivial (next_client member.clients hadded)) trivial
    (next_client member.clients hpublished)) trivial (next_client member.clients hreleased)

theorem pass_alone (member : Member) {next : Option Msg} (changed : member.loop = .changed next)
    (free : member.node.state.locked = false) (keyed : Keyed member.node.sync.peers)
    (foreign : member.node.state.ip ∉ member.node.state.peers) :
    Run Member.next always member
      { member with
        node := { member.node with state := checked member.node.sync.peers member.node.state }
        loop := .afterPass next } := by
  have hacquire : member.next .acquire =
      some { member with node := setLocked member.node true, loop := .locked next } := by
    simp [Member.next, changed, free]
  have hrun : (reconcile member.node.sync.peers).run (setLocked member.node true).state =
      .ok () (reconciled member.node.sync.peers (setLocked member.node true).state) :=
    run_reconcile keyed foreign
  have hreconcile : Member.next
      { member with node := setLocked member.node true, loop := .locked next } .reconcile =
        some { member with
          node := { member.node with
            state := reconciled member.node.sync.peers (setLocked member.node true).state }
          loop := .reconciled next } := by
    simp only [Member.next]
    rw [show (setLocked member.node true).sync = member.node.sync from rfl, hrun]
  have hrelease : Member.next
      { member with
        node := { member.node with
          state := reconciled member.node.sync.peers (setLocked member.node true).state }
        loop := .reconciled next } .release =
        some { member with
          node := { member.node with state := checked member.node.sync.peers member.node.state }
          loop := .afterPass next } := rfl
  exact .step (.step (.single trivial hacquire) trivial hreconcile) trivial hrelease

theorem notice_alone (member : Member) {msg : Msg} (noticing : member.loop = .noticing msg)
    (sound : Sound member.node) :
    Run Member.next always member
      { member with
        node := final ((noticeDeparture msg).run member.node)
        loop := .idle } := by
  rw [run_noticeDeparture sound, final_ok]
  split
  · rename_i h
    have hnotice : member.next .notice = some { member with
        node := { member.node with sync := { member.node.sync with
          peers := member.node.sync.peers.erase msg.fromIp } }
        loop := .changed none } := by
      simp [Member.next, noticing, h]
    have hpass := pass_alone
      { member with
        node := { member.node with sync := { member.node.sync with
          peers := member.node.sync.peers.erase msg.fromIp } }
        loop := .changed none }
      rfl sound.free (sound.keyed.erase msg.fromIp) sound.tracks.foreign
    exact (Run.single trivial hnotice).trans hpass
  · rename_i h
    have hnotice : member.next .notice = some { member with loop := .idle } := by
      simp [Member.next, noticing, h]
    exact .single trivial hnotice

/-- Alone, the event loop handles a state update or notice as `_handleGossip` does. -/
theorem handling_alone {msg : Msg} (idle : member.loop = .idle) (sound : Sound member.node)
    (keyed : Keyed msg.state) (positive : msg.version ≠ 0) :
    Run Member.next always member
      { member with node := final ((handleGossip msg).run member.node) } := by
  by_cases hknown : msg.version ≤ member.node.sync.version
  · rw [final_handleGossip_known positive hknown]
    exact .refl member
  · have hreceive : member.next (.receive msg) = some
        { member with node := replaced member.node msg, loop := .changed (some msg) } := by
      simp [Member.next, Member.receive, idle, positive, hknown]
    have hpass := pass_alone
      { member with node := replaced member.node msg, loop := .changed (some msg) }
      rfl sound.free keyed sound.tracks.foreign
    have hnotice := notice_alone
      { member with node := adopt member.node msg, loop := .noticing msg }
      rfl (sound.adopt keyed)
    rw [run_noticeDeparture (sound.adopt keyed)] at hnotice
    rw [run_handleGossip_higher sound keyed (by omega), idle]
    exact ((Run.single trivial hreceive).trans hpass).trans hnotice

end WgBp.Gossip
