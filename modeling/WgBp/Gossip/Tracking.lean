import WgBp.Gossip.EventLoop

/-! `State.peers` tracks the gossip view at every point where neither an admission
nor a pass is half-way, whatever the threads of the node do in between. -/
namespace WgBp.Gossip

open WgBp.Library WgBp.Library.Procedure WgBp.Library.Mutex WgBp.Library.Transition
open WgBp.Model WgBp.Discovery

/-- A handler past its test asks for a foreign address, and a success response
carries the node's own address and record. -/
structure ClientFine (node : GossipNode) (client : Client GossipInfo) : Prop where
  foreign : client.stage ≠ .received → client.stage ≠ .closed →
    client.request.ip ≠ node.state.ip
  response : ∀ content info, client.response = some (.success content info) →
    client.request.ip ≠ node.state.ip ∧ content.ip = node.state.ip ∧
      info.syncSeed.virtualIp = node.state.ip

def Added (clients : List (Client GossipInfo)) (ip : Ip) : Prop :=
  ∃ client ∈ clients, client.stage = .added ∧ client.request.ip = ip

/-- Between passes `State.peers` has the foreign addresses of the view, and those
that a handler has added and not published yet. -/
def Covers (member : Member) : Prop :=
  ∀ ip, ip ∈ member.node.state.peers ↔
    (ip ∈ member.node.sync.peers ∨ Added member.clients ip) ∧ ip ≠ member.node.state.ip

structure Steady (member : Member) : Prop where
  keyed : Keyed member.node.sync.peers
  single : member.node.state.allSyncMode = 0
  foreign : member.node.state.ip ∉ member.node.state.peers
  lock : holders Client.holds member.clients + member.loop.holds.toNat =
    member.node.state.locked.toNat
  clients : ∀ client ∈ member.clients, ClientFine member.node client
  covers : (∀ next, member.loop ≠ .changed next) → (∀ next, member.loop ≠ .locked next) →
    Covers member

theorem ClientFine.moved {node after : GossipNode} {client : Client GossipInfo}
    (fine : ClientFine node client) (ip : after.state.ip = node.state.ip) :
    ClientFine after client where
  foreign := fun hreceived hclosed => ip ▸ fine.foreign hreceived hclosed
  response := fun content info hresponse => ip ▸ fine.response content info hresponse

/-- Without a holder among the handlers none is between adding and publishing. -/
theorem Covers.tracks {member : Member} (covers : Covers member)
    (idle : ∀ client ∈ member.clients, client.holds = false) :
    Tracks member.node.state member.node.sync.peers := by
  have hcovers : CoversWith (Added member.clients) member.node := covers
  refine hcovers.tracks ?_
  rintro ip ⟨client, hmem, hadded, -⟩
  have hholds := idle client hmem
  simp [Client.holds, hadded] at hholds

variable {member : Member}

theorem added_set {clients : List (Client GossipInfo)} {index : Nat}
    {client : Client GossipInfo} (found : clients[index]? = some client)
    (after : Client GossipInfo) (ip : Ip) :
    Added (clients.set index after) ip ∨ (client.stage = .added ∧ client.request.ip = ip) ↔
      Added clients ip ∨ (after.stage = .added ∧ after.request.ip = ip) := by
  constructor
  · rintro (⟨other, hmem, hadded⟩ | hadded)
    · rcases List.mem_or_eq_of_mem_set hmem with hold | rfl
      · exact .inl ⟨other, hold, hadded⟩
      · exact .inr hadded
    · exact .inl ⟨client, List.mem_of_getElem? found, hadded⟩
  · rintro (⟨other, hmem, hadded⟩ | hadded)
    · rcases thread_set_stays found hmem after with rfl | hstays
      · exact .inr hadded
      · exact .inl ⟨other, hstays, hadded⟩
    · exact .inl ⟨after, thread_set_mem found after, hadded⟩

theorem Steady.clientMoved (steady : Steady member) {index : Nat}
    {client after : Client GossipInfo} {node : GossipNode}
    (found : member.clients[index]? = some client)
    (ip : node.state.ip = member.node.state.ip)
    (single : node.state.allSyncMode = member.node.state.allSyncMode)
    (foreign : node.state.ip ∉ node.state.peers) (keyed : Keyed node.sync.peers)
    (lock : after.holds.toNat + member.node.state.locked.toNat =
      client.holds.toNat + node.state.locked.toNat)
    (fine : ClientFine member.node after)
    (covers : Covers member →
      Covers { member with node, clients := member.clients.set index after }) :
    Steady { member with node, clients := member.clients.set index after } where
  keyed := keyed
  single := single.trans steady.single
  foreign := foreign
  lock := by
    have hbalance := holders_set Client.holds found after
    have hlock := steady.lock
    dsimp only
    omega
  clients := by
    intro other hmem
    have hfine : ClientFine member.node other := by
      rcases List.mem_or_eq_of_mem_set hmem with hold | rfl
      · exact steady.clients other hold
      · exact fine
    exact hfine.moved ip
  covers := fun hchanged hlocked => covers (steady.covers hchanged hlocked)

theorem added_set_same {clients : List (Client GossipInfo)} {index : Nat}
    {client after : Client GossipInfo} (found : clients[index]? = some client)
    (request : after.request = client.request)
    (stage : after.stage = .added ↔ client.stage = .added) (ip : Ip) :
    Added (clients.set index after) ip ↔ Added clients ip := by
  have hset := added_set found after ip
  rw [request, stage] at hset
  by_cases hadded : client.stage = .added ∧ client.request.ip = ip
  · have hbefore : Added clients ip := ⟨client, List.mem_of_getElem? found, hadded⟩
    have hafter : Added (clients.set index after) ip :=
      ⟨after, thread_set_mem found after, stage.mpr hadded.1, request ▸ hadded.2⟩
    exact ⟨fun _ => hbefore, fun _ => hafter⟩
  · simpa [hadded] using hset

theorem Covers.added (covers : Covers member) {index : Nat} {client : Client GossipInfo}
    (found : member.clients[index]? = some client) (locked : client.stage = .locked)
    (foreign : client.request.ip ≠ member.node.state.ip) :
    Covers { member with
      node := { member.node with state := client.request.addedTo member.node.state }
      clients := member.clients.set index { client with stage := .added } } := by
  have hcovers : CoversWith (Added member.clients) member.node := covers
  refine (hcovers.added foreign).congr fun other => ?_
  have hset := added_set found { client with stage := .added } other
  simpa [locked] using hset

theorem Covers.published (covers : Covers member) {index : Nat} {client : Client GossipInfo}
    (found : member.clients[index]? = some client) (added : client.stage = .added)
    {change : Change} (complete : client.request.change = some change) :
    Covers { member with
      node := publishChange member.node change
      clients := member.clients.set index { client with stage := .published } } := by
  have hcovers : CoversWith (Added member.clients) member.node := covers
  refine CoversWith.published (hcovers.congr fun other => ?_)
  have hset := added_set found { client with stage := .published } other
  rw [Request.change_ip complete]
  simpa [added] using hset

theorem Steady.locked_of_holds (steady : Steady member) {client : Client GossipInfo}
    (mem : client ∈ member.clients) (holds : client.holds = true) :
    member.node.state.locked = true := by
  by_contra hfree
  have hlock := steady.lock
  rw [Bool.not_eq_true] at hfree
  rw [hfree, Bool.toNat_false] at hlock
  have hnone : holders Client.holds member.clients = 0 := by omega
  rw [holds_false hnone mem] at holds
  cases holds

theorem Steady.advance (steady : Steady member) {index : Nat} {client after : Client GossipInfo}
    {node : GossipNode} (found : member.clients[index]? = some client)
    (advances : Advances gossipModule client member.node after node) :
    Steady { member with node, clients := member.clients.set index after } := by
  have hfine := steady.clients client (List.mem_of_getElem? found)
  have hsame (request : after.request = client.request)
      (stage : after.stage = .added ↔ client.stage = .added)
      (ip : node.state.ip = member.node.state.ip)
      (peers : node.state.peers = member.node.state.peers)
      (view : node.sync.peers = member.node.sync.peers) (covers : Covers member) :
      Covers { member with node, clients := member.clients.set index after } := by
    intro other
    dsimp only
    rw [added_set_same found request stage, ip, peers, view]
    exact covers other
  cases advances with
  | refused received status =>
      refine steady.clientMoved found rfl rfl steady.foreign steady.keyed ?_ ?_
        (hsame rfl (by simp [received]) rfl rfl rfl)
      · simp [Client.holds, received]
      · exact ⟨fun _ h => absurd rfl h, fun content info h => by cases h⟩
  | granted received new foreign =>
      refine steady.clientMoved found rfl rfl steady.foreign steady.keyed ?_ ?_
        (hsame rfl (by simp [received]) rfl rfl rfl)
      · simp [Client.holds, received]
      · exact ⟨fun _ _ => foreign, hfine.response⟩
  | replied granted known =>
      have hforeign := hfine.foreign (by rw [granted]; decide) (by rw [granted]; decide)
      refine steady.clientMoved found rfl rfl steady.foreign steady.keyed ?_ ?_
        (hsame rfl (by simp [granted]) rfl rfl rfl)
      · simp [Client.holds, granted]
      · refine ⟨fun _ _ => hforeign, fun content info h => ?_⟩
        obtain ⟨seed, hseed, rfl⟩ := Option.map_eq_some_iff.mp known
        cases h
        exact ⟨hforeign, rfl, steady.keyed _ _ hseed⟩
  | locked replied free =>
      have hforeign := hfine.foreign (by rw [replied]; decide) (by rw [replied]; decide)
      refine steady.clientMoved found rfl rfl steady.foreign steady.keyed ?_
        ⟨fun _ _ => hforeign, hfine.response⟩ (hsame rfl (by simp [replied]) rfl rfl rfl)
      simp [Client.holds, replied, free]
  | added locked =>
      have hforeign := hfine.foreign (by rw [locked]; decide) (by rw [locked]; decide)
      have hstate := client.request.addedTo_same member.node.state
      refine steady.clientMoved found hstate.ip hstate.allSyncMode ?_ steady.keyed ?_
        ⟨fun _ _ => hforeign, hfine.response⟩ fun covers => covers.added found locked hforeign
      · intro hown
        rcases (Request.mem_addedTo hforeign _).mp hown with heq | hold
        · exact hforeign (heq.symm.trans hstate.ip)
        · exact steady.foreign (hstate.ip ▸ hold)
      · simp [Client.holds, locked, hstate.locked]
  | published added complete =>
      refine steady.clientMoved found rfl rfl steady.foreign (steady.keyed.set rfl) ?_ ?_
        fun covers => covers.published found added complete
      · simp [Client.holds, added, gossipModule, publishChange]
      · exact ⟨fun _ _ => hfine.foreign (by rw [added]; decide) (by rw [added]; decide),
          hfine.response⟩
  | raised added complete raises => cases raises
  | released published =>
      have hholds : client.holds = true := by simp [Client.holds, published]
      have hlocked := steady.locked_of_holds (List.mem_of_getElem? found) hholds
      refine steady.clientMoved found rfl rfl steady.foreign steady.keyed ?_
        ⟨fun _ h => absurd rfl h, hfine.response⟩ (hsame rfl (by simp [published]) rfl rfl rfl)
      simp [Client.holds, published, hlocked]
  | crashed =>
      exact steady.clientMoved found rfl rfl steady.foreign steady.keyed rfl
        ⟨hfine.foreign, hfine.response⟩ (hsame rfl Iff.rfl rfl rfl rfl)

theorem Steady.attended (steady : Steady member) :
    Attended (Added member.clients) (holders Client.holds member.clients) member :=
  ⟨steady.keyed, steady.single, steady.foreign, steady.lock, steady.covers⟩

theorem Steady.attending (steady : Steady member) {after : Member} {label : ThreadLabel}
    (own : label.isHandler = false) (keyed : ∀ msg, label = .receive msg → Keyed msg.state)
    (step : member.next label = some after) : Steady after := by
  have hattended := steady.attended
  have hcovered : label = .reconcile → member.loop.holds = true →
      ∀ ip, Added member.clients ip → ip ∈ member.node.sync.peers := by
    rintro - hholds ip ⟨client, hmem, hstage, -⟩
    have hfree := holds_false (hattended.alone hholds).1 hmem
    simp [Client.holds, hstage] at hfree
  have hturns := turns_of_next own step
  have hclients := hturns.clients
  obtain ⟨⟨hkeyed, hsingle, hforeign, hlock, hcovers⟩, hip⟩ :=
    hattended.next hturns keyed hcovered
  rw [← hclients] at hlock hcovers
  refine ⟨hkeyed, hsingle, hforeign, hlock, fun client hmem => ?_, hcovers⟩
  exact (steady.clients client (hclients ▸ hmem)).moved hip

theorem Steady.accepted (steady : Steady member) (request : Request) :
    Steady { member with clients := member.clients ++ [.new request] } where
  keyed := steady.keyed
  single := steady.single
  foreign := steady.foreign
  lock := by
    dsimp only
    rw [holders_append]
    exact steady.lock
  clients := by
    intro client hmem
    rcases List.mem_append.mp hmem with hold | hnew
    · exact steady.clients client hold
    · rw [List.mem_singleton.mp hnew]
      exact ⟨fun h => absurd rfl h, fun _ _ h => by cases h⟩
  covers := by
    intro hchanged hlocked ip
    rw [steady.covers hchanged hlocked ip]
    simp [Added, Client.new]

theorem Steady.next (steady : Steady member) {after : Member} {label : ThreadLabel}
    (keyed : ∀ msg, label = .receive msg → Keyed msg.state)
    (step : member.next label = some after) : Steady after := by
  cases label with
  | accept request =>
      cases step
      exact steady.accepted request
  | client index =>
      obtain ⟨client, hfound, step⟩ := Option.bind_eq_some_iff.mp step
      obtain ⟨⟨changed, node⟩, hadvance, step⟩ := Option.bind_eq_some_iff.mp step
      cases step
      exact steady.advance hfound (advances_of_advance hadvance)
  | crash index =>
      obtain ⟨client, hfound, step⟩ := Option.bind_eq_some_iff.mp step
      cases step
      exact steady.advance hfound .crashed
  | _ => exact steady.attending rfl keyed step

structure World.Fine (world : World) : Prop where
  members : ∀ member ∈ world.members, Steady member
  mail : ∀ msg ∈ world.mail, Keyed msg.state

theorem Steady.start {node : GossipNode} (sound : Sound node) : Steady (.start node) where
  keyed := sound.keyed
  single := sound.single
  foreign := sound.tracks.foreign
  lock := by
    dsimp only [Member.start]
    rw [sound.free]
    rfl
  clients := fun client hmem => by cases hmem
  covers := by
    intro _ _ ip
    dsimp only [Member.start]
    rw [sound.tracks ip]
    simp [Added]

theorem ticketOf_fine {node : GossipNode} {client : Client GossipInfo} {ticket : Ticket}
    (fine : ClientFine node client) (h : ticketOf client = some ticket) : ticket.Fine := by
  have hfine {content : Interface} {info : GossipInfo}
      (response : client.response = some (.success content info)) :
      info.syncSeed.virtualIp = content.ip ∧ content.ip ≠ client.request.ip := by
    obtain ⟨hforeign, hcontent, hseed⟩ := fine.response content info response
    exact ⟨hseed.trans hcontent.symm, fun h => hforeign (h.symm.trans hcontent)⟩
  unfold ticketOf at h
  split at h
  · rename_i hresponse _
    cases h
    exact ⟨(hfine hresponse).1, (hfine hresponse).2⟩
  · rename_i hresponse _
    cases h
    exact ⟨(hfine hresponse).1, (hfine hresponse).2⟩
  · cases h

/-- What the threads of a member keep, given what they are told, and what the messages
they send and the nodes they admit inherit, holds throughout a world. -/
theorem World.all_next {world after : World} {label : WorldLabel} {inv : Member → Prop}
    {told : Msg → Prop} (ok : ThreadLabel → Prop)
    (turn : ∀ member changed thread, inv member → ok thread →
      (∀ msg, thread = .receive msg → told msg) → member.next thread = some changed → inv changed)
    (receive : ∀ msg, ok (.receive msg))
    (emit : ∀ member departure, inv member → told (stateMsg member.node departure))
    (join : ∀ member client ticket, inv member → client ∈ member.clients →
      ticketOf client = some ticket → inv (.start (joined ticket).node))
    (allowed : ∀ index thread, label = .thread index thread → ok thread)
    (members : ∀ member ∈ world.members, inv member) (mail : ∀ msg ∈ world.mail, told msg)
    (step : world.next label = some after) :
    (∀ member ∈ after.members, inv member) ∧ ∀ msg ∈ after.mail, told msg := by
  have hput {index : Nat} {member changed : Member} {thread : ThreadLabel}
      (found : world.members[index]? = some member) (hok : ok thread)
      (htold : ∀ msg, thread = .receive msg → told msg)
      (moved : member.next thread = some changed) :
      (∀ other ∈ (world.put index changed).members, inv other) ∧
        ∀ msg ∈ (world.put index changed).mail, told msg := by
    refine ⟨fun other hmem => ?_, mail⟩
    rcases List.mem_or_eq_of_mem_set hmem with hold | rfl
    · exact members other hold
    · exact turn member _ thread (members member (List.mem_of_getElem? found)) hok htold moved
  cases label with
  | thread index thread =>
      obtain ⟨member, hfound, step⟩ := Option.bind_eq_some_iff.mp step
      obtain ⟨changed, hmoved, step⟩ := Option.bind_eq_some_iff.mp step
      split at step
      · cases step
      · rename_i hlabel
        cases step
        refine hput hfound (allowed index thread rfl) (fun msg heq => ?_) hmoved
        exact absurd (heq ▸ rfl) hlabel
  | receive index position =>
      obtain ⟨member, hfound, step⟩ := Option.bind_eq_some_iff.mp step
      obtain ⟨msg, hmail, step⟩ := Option.bind_eq_some_iff.mp step
      obtain ⟨changed, hmoved, step⟩ := Option.bind_eq_some_iff.mp step
      cases step
      refine hput hfound (receive msg) (fun other heq => ?_) hmoved
      cases heq
      exact mail msg (List.mem_of_getElem? hmail)
  | emit index departure =>
      obtain ⟨member, hfound, step⟩ := Option.bind_eq_some_iff.mp step
      split at step
      · cases step
        refine ⟨members, fun msg hmem => ?_⟩
        rcases List.mem_append.mp hmem with hold | hnew
        · exact mail msg hold
        · rw [List.mem_singleton.mp hnew]
          exact emit member departure (members member (List.mem_of_getElem? hfound))
      · cases step
  | join index position =>
      obtain ⟨member, hfound, step⟩ := Option.bind_eq_some_iff.mp step
      obtain ⟨client, hclient, step⟩ := Option.bind_eq_some_iff.mp step
      obtain ⟨ticket, hticket, step⟩ := Option.bind_eq_some_iff.mp step
      cases step
      refine ⟨fun other hmem => ?_, mail⟩
      rcases List.mem_append.mp hmem with hold | hnew
      · exact members other hold
      · rw [List.mem_singleton.mp hnew]
        exact join member client ticket (members member (List.mem_of_getElem? hfound))
          (List.mem_of_getElem? hclient) hticket

theorem Steady.joined (steady : Steady member) {client : Client GossipInfo} {ticket : Ticket}
    (mem : client ∈ member.clients) (accepted : ticketOf client = some ticket) :
    Steady (.start (joined ticket).node) :=
  .start (joined_fine (ticketOf_fine (steady.clients client mem) accepted)).sound

theorem World.Fine.next {world after : World} {label : WorldLabel} (fine : world.Fine)
    (step : world.next label = some after) : after.Fine := by
  obtain ⟨hmembers, hmail⟩ := World.all_next (fun _ => True)
    (fun _ _ _ hsteady _ hkeyed hstep => hsteady.next hkeyed hstep) (fun _ => trivial)
    (fun _ _ hsteady => hsteady.keyed)
    (fun _ _ _ hsteady hmem haccepted => hsteady.joined hmem haccepted)
    (fun _ _ _ => trivial) fine.members fine.mail step
  exact ⟨hmembers, hmail⟩

theorem World.Fine.create (config : Config) : (World.create config).Fine where
  members := by
    intro member hmem
    rw [List.mem_singleton.mp hmem]
    exact .start (created_fine config).sound
  mail := fun msg hmem => by cases hmem

theorem state_tracks_gossip (config : Config) (world : World) (member : Member)
    (run : Run World.next always (World.create config) world) (mem : member ∈ world.members)
    (noAdmission : ∀ client ∈ member.clients, client.holds = false)
    (noPass : member.loop.inPass = false) :
    Tracks member.node.state member.node.sync.peers := by
  have hfine : world.Fine := Run.invariant World.Fine (World.Fine.create config)
    (fun _ _ _ _ hfine _ hstep => hfine.next hstep) run
  have hsteady := hfine.members member mem
  refine (hsteady.covers ?_ ?_).tracks noAdmission
  · intro next hloop
    rw [hloop] at noPass
    cases noPass
  · intro next hloop
    rw [hloop] at noPass
    cases noPass

def founder : Config := ⟨"10.0.0.1", "ka", "198.51.100.1", 51820, 6888⟩

def firstJoin : List WorldLabel :=
  [.thread 0 (.accept ⟨"JOIN", "10.0.0.2", "kb", "198.51.100.2", 51820, .port 6888⟩),
    .thread 0 (.client 0), .thread 0 (.client 0), .thread 0 (.client 0), .thread 0 (.client 0),
    .thread 0 (.client 0), .thread 0 (.client 0), .join 0 0, .emit 1 false, .receive 0 0,
    .emit 0 false, .receive 1 1, .thread 1 .acquire, .thread 1 .reconcile, .thread 1 .release,
    .thread 1 .notice]

theorem state_tracks_gossip_firstJoin :
    ∃ member : Member, member.node.sync.version = 2 ∧
      member.node.state.peers.keys = ["10.0.0.1"] ∧
      Tracks member.node.state member.node.sync.peers := by
  have hreplay : (replay World.next (fun _ _ => true) (World.create founder) firstJoin).any
      (fun world => world.members[1]?.any fun member => member.node.sync.version = 2 &&
        member.node.state.peers.keys = ["10.0.0.1"] &&
        (!member.loop.inPass && member.clients.all fun client => !client.holds)) = true := by
    decide +kernel
  obtain ⟨world, hrun, hfound⟩ := reached_of_replay (fun _ _ _ => trivial) hreplay
  obtain ⟨member, hmember, hcheck⟩ := (Option.any_eq_true _ _).mp hfound
  simp only [Bool.and_eq_true, decide_eq_true_eq, Bool.not_eq_true', List.all_eq_true] at hcheck
  exact ⟨member, hcheck.1.1, hcheck.1.2, state_tracks_gossip founder world member hrun
    (List.mem_of_getElem? hmember) hcheck.2.2 hcheck.2.1⟩

end WgBp.Gossip
