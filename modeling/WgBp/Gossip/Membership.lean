import WgBp.Gossip.Tracking

/-! Who the entries of a gossip network are about. Records are created, copied between
nodes, patched and read into `State`; each stays the identity of one incarnation. -/
namespace WgBp.Gossip

open WgBp.Library WgBp.Library.Transition WgBp.Model WgBp.Discovery

structure Identity where
  virtualIp : Ip
  publicKey : String
  endpointIp : String
  endpointPort : Nat
  deriving DecidableEq

def ofConfig (config : Config) : Identity :=
  ⟨config.ip, config.publicKey, config.publicIp, config.publicPort⟩

def ofRequest (request : Request) : Identity :=
  ⟨request.ip, request.publicKey, request.publicIp, request.port⟩

def ofState (state : State) : Identity :=
  ⟨state.ip, state.publicKey, state.publicIp, state.publicPort⟩

def ofInterface (content : Interface) : Identity :=
  ⟨content.ip, content.publicKey, content.publicIp, content.port⟩

def ofRecord (record : PeerRecord) : Identity :=
  ⟨record.virtualIp, record.publicKey, record.endpointIp, record.endpointPort⟩

def ofPeer (ip : Ip) (info : PeerInfo) : Identity :=
  ⟨ip, info.publicKey, info.endpointIp, info.endpointPort⟩

variable (started : Identity → Prop)

/-- Every record of a map is about a started incarnation. -/
def Genuine (peers : PeerMap) : Prop := Dict.All peers fun _ record => started (ofRecord record)

structure Introduced (client : Client GossipInfo) : Prop where
  request : started (ofRequest client.request)
  response : ∀ content info, client.response = some (.success content info) →
    started (ofInterface content) ∧ started (ofRecord info.syncSeed)

structure Known (member : Member) : Prop where
  own : started (ofState member.node.state)
  view : Genuine started member.node.sync.peers
  peers : Dict.All member.node.state.peers fun ip info => started (ofPeer ip info)
  clients : ∀ client ∈ member.clients, Introduced started client

variable {started} {member : Member}

theorem Genuine.published {node : GossipNode} {change : Change}
    (genuine : Genuine started node.sync.peers)
    (known : started (ofRecord (publishedRecord node change))) :
    Genuine started (publishChange node change).sync.peers := Dict.All.set genuine known

theorem Known.edited (known : Known started member) {node : GossipNode} {loop : Loop}
    {onboarding : List Msg} (own : ofState node.state = ofState member.node.state)
    (view : Genuine started node.sync.peers)
    (peers : Dict.All node.state.peers fun ip info => started (ofPeer ip info)) :
    Known started { member with node, loop, onboarding } :=
  ⟨own ▸ known.own, view, peers, known.clients⟩

theorem ofState_same {before after : State} (same : State.SameNode before after) :
    ofState after = ofState before := by
  unfold ofState
  rw [same.ip, same.publicKey, same.publicIp, same.publicPort]

theorem all_addPeer {state : State} {holds : Ip → PeerInfo → Prop} {ip : Ip}
    {publicKey endpointIp : String} {endpointPort : Nat} (all : Dict.All state.peers holds)
    (new : holds ip ⟨publicKey, endpointIp, endpointPort, State.getAllowedIPs ip⟩) :
    Dict.All (state.addPeer ip publicKey endpointIp endpointPort).peers holds := by
  unfold State.addPeer
  split
  · exact all
  · exact Dict.All.set all new

/-- Reconciling takes a new peer's identity from its record and keeps a known one's. -/
theorem Known.reconciled (known : Known started member) (steady : Steady member) :
    Dict.All (Model.reconciled member.node.sync.peers member.node.state).peers
      fun ip info => started (ofPeer ip info) := by
  intro ip info hfound
  rw [lookup_reconciled _ steady.keyed steady.single steady.foreign] at hfound
  split at hfound
  · cases hfound
  · obtain ⟨record, hrecord, rfl⟩ := Option.map_eq_some_iff.mp hfound
    have hip : record.virtualIp = ip := steady.keyed ip record hrecord
    have hlisted : started (ofRecord record) := known.view ip record hrecord
    cases hold : member.node.state.peers.lookup ip with
    | none =>
        rw [ofRecord, hip] at hlisted
        exact hlisted
    | some peer => exact known.peers ip peer hold

theorem Known.turned (known : Known started member) (steady : Steady member) {after : Member}
    {label : ThreadLabel} (told : ∀ msg, label = .receive msg → Genuine started msg.state)
    (turns : Turns member label after) : Known started after := by
  cases turns with
  | ignores => exact known
  | onboards idle found =>
      have hknown := known.view _ _ found
      exact known.edited rfl (Dict.All.set known.view hknown) known.peers
  | replaces idle newer => exact known.edited rfl (told _ rfl) known.peers
  | acquires changed free => exact known.edited rfl known.view known.peers
  | reconciles locked run =>
      rw [run_reconcile steady.keyed steady.foreign] at run
      cases run
      exact known.edited (ofState_same (reconciled_same _ _)) known.view (known.reconciled steady)
  | raises run =>
      rw [run_reconcile steady.keyed steady.foreign] at run
      cases run
  | releases reconciled => exact known.edited rfl known.view known.peers
  | notices noticing notice listed =>
      exact known.edited rfl (Dict.All.erase known.view _) known.peers
  | passes noticing => exact known.edited rfl known.view known.peers
  | resumes msg idle => exact known.edited rfl known.view known.peers
  | forgets idle foreign =>
      rw [steady.attended.forgetUnreachable idle foreign]
      exact known
  | publishes allowedIps =>
      refine known.edited rfl (Genuine.published ?_ known.own) known.peers
      exact known.view
  | leaves idle => exact known.edited rfl (Dict.All.erase known.view _) known.peers

theorem ofRecord_published {node : GossipNode} {request : Request} {change : Change}
    (complete : request.change = some change) :
    ofRecord (publishedRecord node change) = ofRequest request := by
  unfold Request.change at complete
  split at complete <;> cases complete <;> rfl

theorem Known.advanced (known : Known started member) {index : Nat}
    {client after : Client GossipInfo} {node : GossipNode}
    (found : member.clients[index]? = some client)
    (advances : Advances gossipModule client member.node after node) :
    Known started { member with node, clients := member.clients.set index after } := by
  have hclient := known.clients client (List.mem_of_getElem? found)
  have hclients {changed : Client GossipInfo} (introduced : Introduced started changed) :
      ∀ other ∈ member.clients.set index changed, Introduced started other := by
    intro other hmem
    rcases List.mem_or_eq_of_mem_set hmem with hold | rfl
    · exact known.clients other hold
    · exact introduced
  have hsame : Introduced started { client with stage := after.stage } :=
    ⟨hclient.request, hclient.response⟩
  cases advances with
  | refused received status =>
      refine ⟨known.own, known.view, known.peers, hclients ⟨hclient.request, ?_⟩⟩
      intro content info h
      cases h
  | granted received new foreign => exact ⟨known.own, known.view, known.peers, hclients hsame⟩
  | replied granted known' =>
      refine ⟨known.own, known.view, known.peers, hclients ⟨hclient.request, ?_⟩⟩
      intro content info h
      obtain ⟨seed, hseed, rfl⟩ := Option.map_eq_some_iff.mp known'
      cases h
      exact ⟨known.own, known.view _ _ hseed⟩
  | locked replied free => exact ⟨known.own, known.view, known.peers, hclients hsame⟩
  | added locked =>
      have hstate := client.request.addedTo_same member.node.state
      have hpeers := all_addPeer known.peers (hclient.request)
      exact ⟨ofState_same hstate ▸ known.own, known.view, hpeers, hclients hsame⟩
  | published added complete =>
      refine ⟨known.own, Genuine.published known.view ?_, known.peers, hclients hsame⟩
      rw [ofRecord_published complete]
      exact hclient.request
  | raised added complete raises => cases raises
  | released published => exact ⟨known.own, known.view, known.peers, hclients hsame⟩
  | crashed =>
      exact ⟨known.own, known.view, known.peers, hclients ⟨hclient.request, hclient.response⟩⟩

theorem Known.accepted (known : Known started member) {request : Request}
    (honest : started (ofRequest request)) :
    Known started { member with clients := member.clients ++ [.new request] } := by
  refine ⟨known.own, known.view, known.peers, fun client hmem => ?_⟩
  rcases List.mem_append.mp hmem with hold | hnew
  · exact known.clients client hold
  · rw [List.mem_singleton.mp hnew]
    exact ⟨honest, fun _ _ h => by cases h⟩

def Honest (started : Identity → Prop) : ThreadLabel → Prop
  | .accept request => started (ofRequest request)
  | _ => True

theorem Known.next (known : Known started member) (steady : Steady member) {after : Member}
    {label : ThreadLabel} (honest : Honest started label)
    (told : ∀ msg, label = .receive msg → Genuine started msg.state)
    (step : member.next label = some after) : Known started after := by
  cases label with
  | accept request =>
      cases step
      exact known.accepted honest
  | client index =>
      obtain ⟨client, hfound, step⟩ := Option.bind_eq_some_iff.mp step
      obtain ⟨⟨changed, node⟩, hadvance, step⟩ := Option.bind_eq_some_iff.mp step
      cases step
      exact known.advanced hfound (advances_of_advance hadvance)
  | crash index =>
      obtain ⟨client, hfound, step⟩ := Option.bind_eq_some_iff.mp step
      cases step
      exact known.advanced hfound .crashed
  | _ => exact known.turned steady told (turns_of_next rfl step)

theorem Known.created {config : Config} (known : started (ofConfig config)) :
    Known started (.start (created config).node) where
  own := known
  view := Dict.All.set (Dict.all_empty _) known
  peers := Dict.all_empty _
  clients := fun client hmem => by cases hmem

theorem Introduced.ticket {client : Client GossipInfo} (introduced : Introduced started client)
    {ticket : Ticket} (accepted : ticketOf client = some ticket) :
    started (ofConfig ticket.config) ∧ started (ofConfig ticket.bootstrap) ∧
      started (ofRecord ticket.seed) := by
  unfold ticketOf at accepted
  split at accepted
  · rename_i hresponse _
    cases accepted
    exact ⟨introduced.request, introduced.response _ _ hresponse⟩
  · rename_i hresponse _
    cases accepted
    exact ⟨introduced.request, introduced.response _ _ hresponse⟩
  · cases accepted

theorem Known.joined {ticket : Ticket} (config : started (ofConfig ticket.config))
    (bootstrap : started (ofConfig ticket.bootstrap)) (seed : started (ofRecord ticket.seed)) :
    Known started (.start (joined ticket).node) := by
  have hsame := ticket.bootstrap.addedTo_same ticket.config.state
  have hown : started (ofState (ticket.bootstrap.addedTo ticket.config.state)) := by
    rw [ofState_same hsame]
    exact config
  refine ⟨hown, ?_, ?_, fun client hmem => by cases hmem⟩
  · exact Dict.All.set (Dict.All.set (Dict.all_empty _) hown) seed
  · exact all_addPeer (Dict.all_empty _) bootstrap

def World.founded (configs : List Config) : World :=
  ⟨configs.map fun config => .start (created config).node, []⟩

def World.Honest (started : Identity → Prop) : WorldLabel → Prop
  | .thread _ label => Gossip.Honest started label
  | _ => True

/-- Every entry is filed under its own address and is about a started incarnation, and
no State has its own address. -/
structure Integrity (started : Identity → Prop) (world : World) : Prop where
  views : ∀ member ∈ world.members,
    Keyed member.node.sync.peers ∧ Genuine started member.node.sync.peers
  mail : ∀ msg ∈ world.mail, Keyed msg.state ∧ Genuine started msg.state
  states : ∀ member ∈ world.members,
    Dict.All member.node.state.peers fun ip info => started (ofPeer ip info)
  foreign : ∀ member ∈ world.members, member.node.state.ip ∉ member.node.state.peers

/-- The records, messages and configured peers of a network of gossip nodes are those of
incarnations that were started under the same address. -/
theorem gossip_membership_integrity {started : Identity → Prop} {configs : List Config}
    {world : World} (founders : ∀ config ∈ configs, started (ofConfig config))
    (run : Run World.next (fun _ label => World.Honest started label) (.founded configs) world) :
    Integrity started world := by
  have hworld : (∀ member ∈ world.members, Steady member ∧ Known started member) ∧
      ∀ msg ∈ world.mail, Keyed msg.state ∧ Genuine started msg.state := by
    refine run.invariant (fun world => (∀ member ∈ world.members, Steady member ∧
      Known started member) ∧ ∀ msg ∈ world.mail, Keyed msg.state ∧ Genuine started msg.state) ?_ ?_
    · refine ⟨fun member hmem => ?_, fun _ hmem => by cases hmem⟩
      obtain ⟨config, hconfig, rfl⟩ := List.mem_map.mp hmem
      exact ⟨.start (created_fine config).sound, .created (founders config hconfig)⟩
    · rintro mid label after - ⟨hmembers, hmail⟩ hhonest hstep
      refine World.all_next (Gossip.Honest started) ?_ (fun _ => trivial) ?_ ?_ ?_ hmembers hmail
        hstep
      · rintro member changed thread ⟨hsteady, hknown⟩ hthread htold hturn
        exact ⟨hsteady.next (fun msg h => (htold msg h).1) hturn,
          hknown.next hsteady hthread (fun msg h => (htold msg h).2) hturn⟩
      · rintro member departure ⟨hsteady, hknown⟩
        exact ⟨hsteady.keyed, hknown.view⟩
      · rintro member client ticket ⟨hsteady, hknown⟩ hclient haccepted
        obtain ⟨hconfig, hbootstrap, hseed⟩ := (hknown.clients client hclient).ticket haccepted
        exact ⟨hsteady.joined hclient haccepted, .joined hconfig hbootstrap hseed⟩
      · rintro index thread rfl
        exact hhonest
  exact ⟨fun member hmem => ⟨(hworld.1 member hmem).1.keyed, (hworld.1 member hmem).2.view⟩,
    hworld.2, fun member hmem => (hworld.1 member hmem).2.peers,
    fun member hmem => (hworld.1 member hmem).1.foreign⟩

def bothStarted : List Identity :=
  [⟨"10.0.0.1", "ka", "198.51.100.1", 51820⟩, ⟨"10.0.0.2", "kb", "198.51.100.2", 51820⟩]

def honestOf (started : List Identity) : WorldLabel → Bool
  | .thread _ (.accept request) => ofRequest request ∈ started
  | _ => true

theorem honest_of_check {started : List Identity} {label : WorldLabel}
    (check : honestOf started label = true) : World.Honest (· ∈ started) label := by
  unfold honestOf at check
  split at check
  · rename_i request
    have hstarted : ofRequest request ∈ started := of_decide_eq_true check
    exact hstarted
  · rename_i hother
    cases label with
    | thread index thread =>
        cases thread with
        | accept request => exact absurd rfl (hother index request)
        | _ => trivial
    | _ => trivial

theorem gossip_membership_integrity_firstJoin :
    ∃ world : World, world.members.map (fun member => member.node.state.peers.keys) =
      [["10.0.0.2"], ["10.0.0.1"]] ∧ Integrity (· ∈ bothStarted) world := by
  have hreplay : (replay World.next (fun _ label => honestOf bothStarted label)
      (.founded [founder]) firstJoin).any (fun world =>
        world.members.map (fun member => member.node.state.peers.keys) =
          [["10.0.0.2"], ["10.0.0.1"]]) = true := by
    decide +kernel
  obtain ⟨world, hrun, hpeers⟩ := reached_of_replay (fun _ _ h => honest_of_check h) hreplay
  have hfounders : ∀ config ∈ [founder], ofConfig config ∈ bothStarted := by decide
  exact ⟨world, of_decide_eq_true hpeers, gossip_membership_integrity hfounders hrun⟩

end WgBp.Gossip
