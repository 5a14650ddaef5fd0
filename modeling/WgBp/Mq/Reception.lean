import WgBp.Mq.Onboarding

/-! The swarm with joiners that come through `DiscoveryBroadcast` as well. Its handler
takes no lock, so other steps of the node fall between its `add_peer`, its `getInfo` and its
`publishChange`. -/
namespace WgBp.Mq

open WgBp.Library WgBp.Library.Procedure WgBp.Library.Mailbox WgBp.Library.Transition WgBp.Model
open WgBp.Gossip (Config Ticket OwnEdit)

/-- A broadcast request whose joiner is in `State` already, with what `interface_json` and
`getInfo` have put into the response. -/
structure Request where
  node : Nat
  joiner : Config
  response : Option (Config × PeerRecord)
  deriving DecidableEq

structure Reception where
  swarm : Swarm
  requests : List Request
  deriving DecidableEq

inductive ReceptionLabel where
  | other (label : SwarmLabel)
  | addPeer (node : Nat) (joiner : Config)
  | getInfo (request : Nat)
  | publishChange (request : Nat)
  deriving DecidableEq

def configured (node : MqNode) (joiner : Config) : MqNode :=
  { node with state := joiner.addedTo node.state }

def Reception.next (reception : Reception) : ReceptionLabel → Option Reception
  | .other label => do
    let swarm ← reception.swarm.next label
    some { reception with swarm }
  | .addPeer index joiner => do
    let process ← reception.swarm.processes[index]?
    -- the accept loop answers one request after the other
    if process.serves ∧ joiner.ip ∉ process.node.state.peers ∧
        joiner.ip ≠ process.node.state.ip ∧
        ∀ request ∈ reception.requests, request.node ≠ index then
      some ⟨reception.swarm.act index { process with node := configured process.node joiner },
        reception.requests ++ [⟨index, joiner, none⟩]⟩
    else none
  | .getInfo index => do
    let request ← reception.requests[index]?
    let process ← reception.swarm.processes[request.node]?
    let seed ← process.node.sync.peers.lookup process.node.state.ip
    if request.response = none then
      let answered := { request with response := some (interfaceOf process.node, seed) }
      some { reception with requests := reception.requests.set index answered }
    else none
  | .publishChange index => do
    let request ← reception.requests[index]?
    let response ← request.response
    let process ← reception.swarm.processes[request.node]?
    if process.phase ≠ .stopped then
      let after := reception.swarm.act request.node
        { process with node := publishChange process.node request.joiner.change }
      some ⟨{ after with tickets := after.tickets ++ [⟨request.joiner, response.1, response.2⟩] },
        reception.requests.eraseIdx index⟩
    else none

/-- The steps of the swarm are timely, a joiner gives a port, and `State` still lists it
when it is published. -/
def Reception.timely (reception : Reception) : ReceptionLabel → Bool
  | .other label => reception.swarm.timely label
  | .addPeer _ joiner => joiner.syncPort ≠ 0
  | .getInfo _ => true
  | .publishChange index =>
    reception.requests[index]?.all fun request =>
      reception.swarm.processes[request.node]?.all fun process =>
        request.joiner.ip ∈ process.node.state.peers

def ReceptionLabel.reliable : ReceptionLabel → Bool
  | .other (.welcome _ joiner) => joiner.syncPort ≠ 0
  | .other (.lose _ _) => false
  | .addPeer _ joiner => joiner.syncPort ≠ 0
  | _ => true

def Reception.founded (configs : List Config) : Reception := ⟨.founded configs, []⟩

structure Request.Fine (swarm : Swarm) (request : Request) : Prop where
  ported : request.joiner.syncPort ≠ 0
  known : ∃ process, swarm.processes[request.node]? = some process ∧
    request.joiner.ip ≠ process.node.state.ip
  response : ∀ answer, request.response = some answer →
    Ticket.Fine ⟨request.joiner, answer.1, answer.2⟩

structure Attended (reception : Reception) : Prop where
  healthy : Healthy reception.swarm
  requests : ∀ request ∈ reception.requests, request.Fine reception.swarm

variable {swarm after : Swarm} {reception : Reception} {process acting : Process} {index : Nat}

theorem configured_emits {node : MqNode} (sound : Sound node) (joiner : Config) :
    Emits (configured node joiner) := .quiet (sound.addPeer _ _ _ _)

theorem published_emits {node : MqNode} (sound : Sound node) {joiner : Config}
    (port : joiner.syncPort ≠ 0) (listed : joiner.ip ∈ node.state.peers) :
    Emits (publishChange node joiner.change) := by
  refine .publishChange sound ?_ fun _ => listed
  intro _
  have hgiven : portGiven joiner.change = some joiner.syncPort := by
    simp [portGiven, Config.change, Option.filter, Nat.pos_of_ne_zero port]
  rw [hgiven]
  exact Option.some_ne_none _

theorem Request.Fine.stays {request : Request} (fine : request.Fine swarm)
    (members : ∀ (index : Nat) (process : Process), swarm.processes[index]? = some process →
      ∃ later, after.processes[index]? = some later ∧
        later.node.state.ip = process.node.state.ip) :
    request.Fine after := by
  obtain ⟨process, hprocess, hforeign⟩ := fine.known
  obtain ⟨later, hlater, hip⟩ := members _ _ hprocess
  exact ⟨fine.ported, ⟨later, hlater, hip ▸ hforeign⟩, fine.response⟩

theorem next_members (healthy : Healthy swarm) {label : SwarmLabel}
    (timely : swarm.timely label = true) (step : swarm.next label = some after) (index : Nat)
    (process : Process) (member : swarm.processes[index]? = some process) :
    ∃ later, after.processes[index]? = some later ∧
      later.node.state.ip = process.node.state.ip := by
  obtain ⟨later, hlater, hnode⟩ := (Swarm.stepped_of_next step).member member
  refine ⟨later, hlater, ?_⟩
  rcases hnode with hsame | ⟨acting, hacts, hacted⟩
  · rw [hsame]
  · have hlocated := hacts.located (healthy.member member) member timely
    rw [hacted]
    exact congrArg Address.ip hlocated

theorem act_members (acts : swarm.processes[index]? = some process)
    (ip : acting.node.state.ip = process.node.state.ip) (other : Nat) (existing : Process)
    (member : swarm.processes[other]? = some existing) :
    ∃ later, (swarm.act index acting).processes[other]? = some later ∧
      later.node.state.ip = existing.node.state.ip := by
  by_cases hsame : other = index
  · subst hsame
    rw [acts] at member
    cases member
    exact ⟨_, swarm.act_self acts acting, ip⟩
  · refine ⟨_, swarm.act_other member hsame acting, ?_⟩
    rw [Process.hear_node]

theorem Attended.addPeer (attended : Attended reception)
    (member : reception.swarm.processes[index]? = some process) {joiner : Config}
    (port : joiner.syncPort ≠ 0) (foreign : joiner.ip ≠ process.node.state.ip) :
    Attended ⟨reception.swarm.act index { process with node := configured process.node joiner },
      reception.requests ++ [⟨index, joiner, none⟩]⟩ := by
  have hfine := attended.healthy.member member
  have hip : (configured process.node joiner).state.ip = process.node.state.ip :=
    (joiner.addedTo_same process.node.state).ip
  refine ⟨attended.healthy.act (configured_emits hfine.sound joiner) hfine.listening
    hfine.inbox, fun request hrequest => ?_⟩
  rcases List.mem_append.mp hrequest with hold | hnew
  · exact (attended.requests request hold).stays (act_members member hip)
  · rw [List.mem_singleton.mp hnew]
    refine ⟨port, ⟨_, reception.swarm.act_self member _, ?_⟩, fun answer hanswer => ?_⟩
    · exact fun hsame => foreign (hsame.trans hip)
    · cases hanswer

theorem Request.Fine.answer {request : Request} (fine : request.Fine swarm)
    (healthy : Healthy swarm) (member : swarm.processes[request.node]? = some process)
    {seed : PeerRecord}
    (seeded : process.node.sync.peers.lookup process.node.state.ip = some seed) :
    Request.Fine swarm { request with response := some (interfaceOf process.node, seed) } := by
  refine ⟨fine.ported, fine.known, ?_⟩
  intro answer hanswer
  cases hanswer
  obtain ⟨known, hknown, hforeign⟩ := fine.known
  rw [member] at hknown
  cases hknown
  exact ⟨(healthy.member member).sound.keyed _ _ seeded, hforeign.symm⟩

theorem Attended.publish (attended : Attended reception) {request : Request}
    (requested : reception.requests[index]? = some request) {answer : Config × PeerRecord}
    (answered : request.response = some answer)
    (member : reception.swarm.processes[request.node]? = some process)
    (listed : request.joiner.ip ∈ process.node.state.peers) :
    let after := reception.swarm.act request.node
      { process with node := publishChange process.node request.joiner.change }
    Attended ⟨{ after with tickets := after.tickets ++ [⟨request.joiner, answer.1, answer.2⟩] },
      reception.requests.eraseIdx index⟩ := by
  intro after
  have hfine := attended.healthy.member member
  have hrequested := attended.requests request (List.mem_of_getElem? requested)
  have hafter : Healthy after :=
    attended.healthy.act (published_emits hfine.sound hrequested.ported listed) hfine.listening
      hfine.inbox
  have hip : (publishChange process.node request.joiner.change).state.ip =
      process.node.state.ip := congrArg Address.ip (publishChange_moves _ _).1
  refine ⟨hafter.issue (hrequested.response _ answered), fun other hother => ?_⟩
  exact (attended.requests other (List.mem_of_mem_eraseIdx hother)).stays
    (act_members member hip)

theorem Attended.next (attended : Attended reception) {label : ReceptionLabel}
    {after : Reception} (timely : reception.timely label = true)
    (step : reception.next label = some after) : Attended after := by
  cases label with
  | other label =>
      obtain ⟨swarm, hswarm, step⟩ := Option.bind_eq_some_iff.mp step
      cases step
      refine ⟨attended.healthy.next timely hswarm, fun request hrequest => ?_⟩
      exact (attended.requests request hrequest).stays
        (next_members attended.healthy timely hswarm)
  | addPeer index joiner =>
      obtain ⟨process, hprocess, step⟩ := Option.bind_eq_some_iff.mp step
      split at step
      · rename_i hguard
        cases step
        exact attended.addPeer hprocess (of_decide_eq_true timely) hguard.2.2.1
      · cases step
  | getInfo index =>
      obtain ⟨request, hrequest, step⟩ := Option.bind_eq_some_iff.mp step
      obtain ⟨process, hprocess, step⟩ := Option.bind_eq_some_iff.mp step
      obtain ⟨seed, hseed, step⟩ := Option.bind_eq_some_iff.mp step
      have hfine := attended.requests request (List.mem_of_getElem? hrequest)
      split at step
      · cases step
        refine ⟨attended.healthy, fun other hother => ?_⟩
        rcases List.mem_or_eq_of_mem_set hother with hold | rfl
        · exact attended.requests other hold
        · exact hfine.answer attended.healthy hprocess hseed
      · cases step
  | publishChange index =>
      obtain ⟨request, hrequest, step⟩ := Option.bind_eq_some_iff.mp step
      obtain ⟨response, hresponse, step⟩ := Option.bind_eq_some_iff.mp step
      obtain ⟨process, hprocess, step⟩ := Option.bind_eq_some_iff.mp step
      have hlisted : request.joiner.ip ∈ process.node.state.peers := by
        simpa [Reception.timely, hrequest, hprocess] using timely
      split at step
      · cases step
        exact attended.publish hrequest hresponse hprocess hlisted
      · cases step

end WgBp.Mq
