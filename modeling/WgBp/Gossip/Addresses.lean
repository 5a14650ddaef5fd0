import WgBp.Gossip.Agreement

/-! Where gossip nodes send. A port reaches the views of others only from the node that
listens there, by its own messages and by the seeds of the nodes it admits. -/
namespace WgBp.Gossip

open WgBp.Library WgBp.Library.Transition WgBp.Model

/-- A node was started under the address, and it may have stopped since. -/
def Network.Knows (network : Network) (ip : Ip) (port : Nat) : Prop :=
  ∃ process ∈ network.processes, process.node.state.ip = ip ∧ process.node.sync.port = port

def Network.Names (network : Network) (record : PeerRecord) : Prop :=
  ∀ number, record.syncPort = .port number → network.Knows record.virtualIp number

def Network.Lists (network : Network) (peers : PeerMap) : Prop :=
  Dict.All peers fun _ record => network.Names record

structure Process.Addresses (network : Network) (process : Process) : Prop where
  view : network.Lists process.node.sync.peers
  outbox : ∀ outgoing ∈ process.outbox, network.Knows outgoing.ip outgoing.port

structure Addressed (network : Network) : Prop where
  processes : ∀ process ∈ network.processes, process.Addresses network
  packets : ∀ packet ∈ network.packets, network.Lists packet.msg.state
  tickets : ∀ ticket ∈ network.tickets, network.Names ticket.seed

variable {network after : Network} {process changed : Process}

theorem knows_self (member : process ∈ network.processes) :
    network.Knows process.node.state.ip process.node.sync.port := ⟨process, member, rfl, rfl⟩

def Network.Grows (network after : Network) : Prop :=
  ∀ ip port, network.Knows ip port → after.Knows ip port

theorem ProcessesStep.grows (step : ProcessesStep network after) (sane : Sane network) :
    network.Grows after := by
  rintro ip port ⟨process, hmem, hip, hport⟩
  obtain ⟨index, hindex⟩ := List.mem_iff_getElem?.mp hmem
  obtain ⟨changed, hchanged, hevolves⟩ := step.process sane hindex
  exact ⟨changed, List.mem_of_getElem? hchanged, hevolves.ip.trans hip, hevolves.port.trans hport⟩

theorem Network.Names.mono {record : PeerRecord} (names : network.Names record)
    (grows : network.Grows after) : after.Names record :=
  fun number hnumber => grows _ _ (names number hnumber)

theorem Network.Lists.mono {peers : PeerMap} (lists : network.Lists peers)
    (grows : network.Grows after) : after.Lists peers :=
  fun ip record hlookup => (lists ip record hlookup).mono grows

theorem Process.Addresses.mono (addresses : process.Addresses network)
    (grows : network.Grows after) : process.Addresses after where
  view := addresses.view.mono grows
  outbox := fun outgoing hmem => grows _ _ (addresses.outbox outgoing hmem)

theorem names_published (knows : network.Knows process.node.state.ip process.node.sync.port)
    {state : State} (ip : state.ip = process.node.state.ip) (change : Change) :
    network.Names (publishedRecord { process.node with state } change) := by
  intro number hnumber
  unfold publishedRecord at hnumber ⊢
  dsimp only at hnumber ⊢
  split at hnumber
  · rename_i hown
    cases hnumber
    rw [hown, ip]
    exact knows
  · cases hnumber

theorem names_onboarded {msg : Msg} {newPeer known : PeerRecord}
    (view : network.Lists process.node.sync.peers) (told : network.Lists msg.state)
    (keyed : Keyed process.node.sync.peers) (announced : msg.state.lookup msg.fromIp = some newPeer)
    (found : process.node.sync.peers.lookup newPeer.virtualIp = some known) :
    network.Lists (onboard process.node newPeer known).sync.peers := by
  refine Dict.All.set view fun number hnumber => ?_
  have hknown : known.virtualIp = newPeer.virtualIp := keyed _ _ found
  have hnames := told _ _ announced number hnumber
  dsimp only
  rw [hknown]
  exact hnames

theorem Handles.lists {msg : Msg} {node : GossipNode} {next : Option Handled}
    (handles : Handles msg process.node node next) (keyed : Keyed process.node.sync.peers)
    (view : network.Lists process.node.sync.peers) (told : network.Lists msg.state) :
    network.Lists node.sync.peers := by
  cases handles with
  | onboarded zero announced found ported => exact names_onboarded view told keyed announced found
  | raised zero => exact view
  | older positive lower => exact view
  | equal positive same => exact view
  | adopted higher stays => exact told
  | departed higher notice listed => exact Dict.All.erase told _

theorem mem_replyOf {msg : Msg} {node after : GossipNode} {next : Option Handled}
    (handles : Handles msg node after next) {outgoing : Outgoing}
    (member : outgoing ∈ replyOf msg next) :
    outgoing.ip = msg.fromIp ∧ outgoing.port = msg.fromPort := by
  cases handles with
  | onboarded | older =>
      rw [List.mem_singleton.mp member]
      exact ⟨rfl, rfl⟩
  | raised | equal | adopted | departed => cases member

theorem Process.Addresses.publishes (addresses : process.Addresses network)
    (member : process ∈ network.processes) (state : State)
    (ip : state.ip = process.node.state.ip) (change : Change) :
    Process.Addresses network
      { process with node := publishChange { process.node with state } change } where
  view := Dict.All.set addresses.view (names_published (knows_self member) ip change)
  outbox := addresses.outbox

theorem Process.Addresses.selects (addresses : process.Addresses network)
    (keyed : Keyed process.node.sync.peers) {peerIp : Ip} {kind : SendKind}
    (picked : selected process peerIp kind = some changed) : changed.Addresses network := by
  unfold selected at picked
  split at picked
  · cases picked
  · split at picked
    · rename_i virtualIp publicKey endpointIp endpointPort number allowedIps hfound
      cases picked
      refine ⟨addresses.view, fun outgoing hmem => ?_⟩
      rcases List.mem_append.mp hmem with hold | hnew
      · exact addresses.outbox outgoing hold
      · rw [List.mem_singleton.mp hnew]
        have hip : virtualIp = peerIp := keyed _ _ hfound
        exact hip ▸ addresses.view _ _ hfound number rfl
    · cases picked

theorem Process.Addresses.sends (addresses : process.Addresses network) (fine : process.Fine)
    {outgoing : Outgoing} {position : Nat} (queued : process.outbox[position]? = some outgoing)
    (raises : Bool) : Process.Addresses network { process with
      node := afterSend process.node outgoing raises
      outbox := process.outbox.eraseIdx position } where
  view := by
    rw [afterSend_eq fine (List.mem_of_getElem? queued)]
    exact addresses.view
  outbox := fun other hmem => addresses.outbox other (List.mem_of_mem_eraseIdx hmem)

theorem Process.Addresses.hears (addresses : process.Addresses network) (sound : Sound process.node)
    {msg : Msg} (keyed : Keyed msg.state) (told : network.Lists msg.state)
    (sender : network.Knows msg.fromIp msg.fromPort) :
    (delivered process msg).Addresses network := by
  have hhandles := handleGossip_cases sound keyed
  refine ⟨hhandles.lists sound.keyed addresses.view told, fun outgoing hmem => ?_⟩
  rcases List.mem_append.mp hmem with hold | hnew
  · exact addresses.outbox outgoing hold
  · obtain ⟨hip, hport⟩ := mem_replyOf hhandles hnew
    rw [hip, hport]
    exact sender

theorem Process.Addresses.departs (addresses : process.Addresses network) :
    (departed process).Addresses network := by
  unfold departed
  dsimp only
  split
  · exact ⟨Dict.All.erase addresses.view _, addresses.outbox⟩
  · exact ⟨addresses.view, addresses.outbox⟩

theorem addresses_joined {ticket : Ticket} (member : joined ticket ∈ network.processes)
    (seed : network.Names ticket.seed) : (joined ticket).Addresses network where
  view := by
    refine Dict.All.set (Dict.All.set (Dict.all_empty _) fun number hnumber => ?_) seed
    cases hnumber
    exact knows_self member
  outbox := fun outgoing hmem => by cases hmem

theorem Addressed.processes_next (addressed : Addressed network) (sane : Sane network)
    {label : Label} (step : Stepped network label after) :
    ∀ process ∈ after.processes, process.Addresses after := by
  have hgrows : network.Grows after := (step.processes sane).grows sane
  have hmember {index : Nat} {process : Process}
      (member : network.processes[index]? = some process) :
      process ∈ network.processes := List.mem_of_getElem? member
  have hset {index : Nat} {changed : Process} (addresses : changed.Addresses network) :
      ∀ process ∈ network.processes.set index changed, process.Addresses after := by
    intro process hmem
    rcases List.mem_or_eq_of_mem_set hmem with hold | rfl
    · exact (addressed.processes process hold).mono hgrows
    · exact addresses.mono hgrows
  have hsound {process : Process} (member : process ∈ network.processes) : Sound process.node :=
    (sane.processes process member).sound
  cases step with
  | welcome member seeded running new foreign =>
      exact hset ((addressed.processes _ (hmember member)).publishes (hmember member) _
        (Config.addedTo_same _ _).ip _)
  | join member =>
      rename_i index ticket
      intro process hmem
      rcases List.mem_append.mp hmem with hold | hnew
      · exact (addressed.processes process hold).mono hgrows
      · rw [List.mem_singleton.mp hnew]
        exact addresses_joined (List.mem_append_right _ (List.mem_singleton.mpr rfl))
          ((addressed.tickets ticket (List.mem_of_getElem? member)).mono hgrows)
  | publishOwn member edited running =>
      rename_i index edit process state
      have hip : state.ip = process.node.state.ip := by
        obtain ⟨allowedIps, rfl⟩ := OwnEdit.apply_spec edited
        rfl
      exact hset ((addressed.processes _ (hmember member)).publishes (hmember member) state hip _)
  | heartbeat member picked alive =>
      exact hset ((addressed.processes _ (hmember member)).selects
        (hsound (hmember member)).keyed picked)
  | lost member queued alive =>
      exact hset ((addressed.processes _ (hmember member)).sends
        (sane.processes _ (hmember member)) queued _)
  | sent member queued alive receiver listening =>
      exact hset ((addressed.processes _ (hmember member)).sends
        (sane.processes _ (hmember member)) queued _)
  | deliver inFlight member alive =>
      have hpacket := sane.packets _ (List.mem_of_getElem? inFlight)
      obtain ⟨sender, hsender, hsent⟩ := hpacket.sender
      exact hset ((addressed.processes _ (hmember member)).hears (hsound (hmember member))
        hpacket.keyed (addressed.packets _ (List.mem_of_getElem? inFlight))
        ⟨sender, hmember hsender, hsent.ip.symm, hsent.port.symm⟩)
  | drop => exact fun process hmem => (addressed.processes process hmem).mono hgrows
  | leave member running => exact hset (addressed.processes _ (hmember member)).departs
  | depart member picked leaving =>
      exact hset ((addressed.processes _ (hmember member)).selects
        (hsound (hmember member)).keyed picked)
  | stop member leaving =>
      exact hset ⟨(addressed.processes _ (hmember member)).view,
        (addressed.processes _ (hmember member)).outbox⟩

theorem Addressed.next (addressed : Addressed network) (sane : Sane network) {label : Label}
    (step : Gossip.next network label = some after) : Addressed after := by
  have hstep := stepped_of_next step
  have hgrows : network.Grows after := (hstep.processes sane).grows sane
  have hview {index : Nat} {process : Process} (member : network.processes[index]? = some process) :
      network.Lists process.node.sync.peers :=
    (addressed.processes process (List.mem_of_getElem? member)).view
  refine ⟨addressed.processes_next sane hstep, ?_, ?_⟩
  · intro packet hmem
    have hold (earlier : packet ∈ network.packets) : after.Lists packet.msg.state :=
      (addressed.packets packet earlier).mono hgrows
    cases hstep with
    | sent member queued _ _ _ =>
        rcases List.mem_append.mp hmem with hprevious | hnew
        · exact hold hprevious
        · rw [List.mem_singleton.mp hnew]
          exact (hview member).mono hgrows
    | drop => exact hold (List.mem_of_mem_eraseIdx hmem)
    | _ => exact hold hmem
  · intro ticket hmem
    have hold (earlier : ticket ∈ network.tickets) : after.Names ticket.seed :=
      (addressed.tickets ticket earlier).mono hgrows
    cases hstep with
    | welcome member seeded _ _ _ =>
        rcases List.mem_append.mp hmem with hprevious | hnew
        · exact hold hprevious
        · rw [List.mem_singleton.mp hnew]
          exact Network.Names.mono (hview member _ _ seeded) hgrows
    | join _ => exact hold (List.mem_of_mem_eraseIdx hmem)
    | _ => exact hold hmem

theorem Addressed.create (config : Config) : Addressed (.create config) where
  processes := by
    intro process hmem
    rw [List.mem_singleton.mp hmem]
    refine ⟨Dict.All.set (Dict.all_empty _) fun number hnumber => ?_, fun _ hmem => by cases hmem⟩
    cases hnumber
    exact ⟨created config, List.mem_singleton.mpr rfl, rfl, rfl⟩
  packets := fun packet hmem => by cases hmem
  tickets := fun ticket hmem => by cases hmem

/-- In every run every send goes to an address at which a node was started, so that it
finds nobody only if that node has stopped; and the seeds handed to joiners, like the
records on their way, name a port only if a node was started at it. -/
theorem gossip_addresses_started (config : Config) {network : Network}
    (run : Run Gossip.next always (Network.create config) network) :
    (∀ process ∈ network.processes, ∀ outgoing ∈ process.outbox,
      ∃ target ∈ network.processes, target.node.state.ip = outgoing.ip ∧
        target.node.sync.port = outgoing.port ∧
        accepts target outgoing = decide (target.phase ≠ .stopped)) ∧
      (∀ packet ∈ network.packets, network.Lists packet.msg.state) ∧
      ∀ ticket ∈ network.tickets, network.Names ticket.seed := by
  have haddressed : Sane network ∧ Addressed network :=
    run.invariant (fun network => Sane network ∧ Addressed network) ⟨.create config, .create config⟩
      fun _ _ _ _ hbefore _ hstep => ⟨hbefore.1.next hstep, hbefore.2.next hbefore.1 hstep⟩
  refine ⟨?_, haddressed.2.packets, haddressed.2.tickets⟩
  intro process hprocess outgoing houtgoing
  obtain ⟨target, htarget, hip, hport⟩ :=
    (haddressed.2.processes process hprocess).outbox outgoing houtgoing
  refine ⟨target, htarget, hip, hport, ?_⟩
  simp [accepts, hip, hport]

theorem gossip_addresses_started_heartbeat :
    ∃ network : Network,
      (network.processes.map fun process => process.outbox) =
        [[], [⟨"10.0.0.1", 6888, .heartbeat⟩]] ∧
      (network.tickets.map fun ticket => (ticket.seed.virtualIp, ticket.seed.syncPort)) =
        [("10.0.0.2", .port 6888)] ∧
      (∀ process ∈ network.processes, ∀ outgoing ∈ process.outbox,
        ∃ target ∈ network.processes, target.node.state.ip = outgoing.ip ∧
          target.node.sync.port = outgoing.port ∧
          accepts target outgoing = decide (target.phase ≠ .stopped)) ∧
      (∀ packet ∈ network.packets, network.Lists packet.msg.state) ∧
      ∀ ticket ∈ network.tickets, network.Names ticket.seed := by
  have hreplay : (replay next (fun _ _ => true) (Network.create nodeA)
      (onboarding ++ [.welcome 1 nodeC, .heartbeat 1 nodeA.ip])).any (fun network =>
        (network.processes.map fun process => process.outbox) =
            [[], [⟨"10.0.0.1", 6888, .heartbeat⟩]] &&
          (network.tickets.map fun ticket => (ticket.seed.virtualIp, ticket.seed.syncPort)) =
            [("10.0.0.2", .port 6888)]) = true := by
    decide +kernel
  obtain ⟨network, hrun, hfound⟩ := reached_of_replay (fun _ _ _ => trivial) hreplay
  simp only [Bool.and_eq_true, decide_eq_true_eq] at hfound
  exact ⟨network, hfound.1, hfound.2, gossip_addresses_started nodeA hrun⟩

end WgBp.Gossip
