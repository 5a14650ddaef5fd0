import WgBp.Gossip.Membership
import WgBp.Mq.Subscriber
import WgBp.Mq.Traffic
import WgBp.Wireguard.Mirror

/-! From the messages of the queue to the interfaces. A node that listens has exactly the
peers of its view configured, each with the key and the endpoint that peer was started
with; and once it is onboarded, nobody holds a range its view does not give to them. -/
namespace WgBp.Mq

open WgBp.Library WgBp.Library.Procedure WgBp.Library.Mailbox WgBp.Library.Transition WgBp.Model
open WgBp.Gossip (Config Ticket OwnEdit Identity Genuine ofConfig ofState ofRecord ofPeer)

def Unshared (started : Identity → Prop) : Prop :=
  ∀ first second, started first → started second →
    first.virtualIp = second.virtualIp ∨
      State.strip first.publicKey = State.strip second.publicKey → first = second

structure Trusted (started : Identity → Prop) (peers : PeerMap) : Prop where
  keyed : Keyed peers
  ported : Ported peers
  genuine : Genuine started peers

def Msg.Trusted (started : Identity → Prop) (msg : Msg) : Prop :=
  ∀ version peers, msg.body = .stateUpdate version peers → Mq.Trusted started peers

def Speaks (sync : MessageQueueSync) : Prop :=
  ∀ msg ∈ sync.pub, ∀ version peers, msg.body = .stateUpdate version peers → peers = sync.peers

def Routes (node : MqNode) : Prop :=
  ∀ ip, ip ≠ node.state.ip → (node.state.peers.lookup ip).map PeerInfo.allowedIps =
    (node.sync.peers.lookup ip).map PeerRecord.allowedIps

structure Kept {ρ : Type} [DecidableEq ρ] (started : Identity → Prop) (rangeOf : String → ρ)
    (owner : String → Ip) (node : MqNode) : Prop where
  own : started (ofState node.state)
  view : Trusted started node.sync.peers
  peers : Dict.All node.state.peers fun ip info => started (ofPeer ip info)
  wireguard : Wireguard.Sound rangeOf owner node.state
  free : node.state.locked = false
  single : node.state.allSyncMode = 0

variable {ρ : Type} [DecidableEq ρ] {started : Identity → Prop} {rangeOf : String → ρ}
  {owner : String → Ip} {node : MqNode} {msg : Msg}

theorem Kept.sound (kept : Kept started rangeOf owner node) (flushed : node.sync.pub = [])
    (tracks : Tracks node.state node.sync.peers) : Sound node where
  free := kept.free
  single := kept.single
  foreign := kept.wireguard.foreign
  configured := fun ip listed foreign => (tracks ip).mpr ⟨listed, foreign⟩
  keyed := kept.view.keyed
  ported := kept.view.ported
  flushed := flushed

theorem Kept.viewed (kept : Kept started rangeOf owner node) {sync : MessageQueueSync}
    (view : Trusted started sync.peers) : Kept started rangeOf owner { node with sync } :=
  ⟨kept.own, view, kept.peers, kept.wireguard, kept.free, kept.single⟩

def Owned (started : Identity → Prop) (owner : String → Ip) : Prop :=
  ∀ identity, started identity → owner (State.strip identity.publicKey) = identity.virtualIp

theorem Trusted.owns (owned : Owned started owner) {peers : PeerMap}
    (trusted : Trusted started peers) : Wireguard.Owns owner peers := by
  intro ip record hfound
  have hstarted : started (ofRecord record) := trusted.genuine ip record hfound
  exact owned (ofRecord record) hstarted

theorem Kept.passed (kept : Kept started rangeOf owner node) (owned : Owned started owner)
    {sync : MessageQueueSync} (view : Trusted started sync.peers) :
    Kept started rangeOf owner ⟨checked sync.peers node.state, sync⟩ ∧
      Tracks (checked sync.peers node.state) sync.peers ∧
      Routes ⟨checked sync.peers node.state, sync⟩ := by
  have hsame := reconciled_same sync.peers { node.state with locked := true }
  have hforeign := kept.wireguard.foreign
  have hlookup (ip : Ip) : (checked sync.peers node.state).peers.lookup ip =
      if ip = node.state.ip then none
      else (sync.peers.lookup ip).map (reconciledPeer (node.state.peers.lookup ip)) :=
    lookup_reconciled { node.state with locked := true } view.keyed kept.single hforeign ip
  have hown : ofState (checked sync.peers node.state) = ofState node.state := by
    simp [ofState, checked, hsame.ip, hsame.publicKey, hsame.publicIp, hsame.publicPort]
  refine ⟨⟨hown ▸ kept.own, view, ?_, ?_, rfl, ?_⟩, ?_, ?_⟩
  · intro ip info hfound
    rw [hlookup] at hfound
    split at hfound
    · cases hfound
    · obtain ⟨record, hrecord, rfl⟩ := Option.map_eq_some_iff.mp hfound
      have hip : record.virtualIp = ip := view.keyed ip record hrecord
      have hstarted : started (ofRecord record) := view.genuine ip record hrecord
      cases hold : node.state.peers.lookup ip with
      | none =>
          rw [ofRecord, hip] at hstarted
          exact hstarted
      | some info => exact kept.peers ip info hold
  · exact ⟨kept.wireguard.configured.checked (view.owns owned), checked_foreign view.keyed hforeign⟩
  · exact (checked_allSyncMode _ _).trans kept.single
  · exact checked_tracks view.keyed kept.single hforeign
  · intro ip hip
    have hother : ip ≠ node.state.ip := fun h => hip (h.trans (checked_ip _ _).symm)
    dsimp only
    rw [hlookup, if_neg hother]
    cases sync.peers.lookup ip with
    | none => rfl
    | some record => cases node.state.peers.lookup ip <;> rfl

theorem Trusted.erase {peers : PeerMap} (trusted : Trusted started peers) (ip : Ip) :
    Trusted started (peers.erase ip) :=
  ⟨trusted.keyed.erase ip, trusted.ported.erase ip, trusted.genuine.erase ip⟩

inductive Views (node : MqNode) (msg : Msg) : PeerMap → Prop where
  | same : Views node msg node.sync.peers
  | carried {version : Nat} {peers : PeerMap} (body : msg.body = .stateUpdate version peers) :
      Views node msg peers
  | erased (ip : Ip) : Views node msg (node.sync.peers.erase ip)

theorem Kept.views (kept : Kept started rangeOf owner node) (trusted : msg.Trusted started)
    {peers : PeerMap} (views : Views node msg peers) : Trusted started peers := by
  cases views with
  | same => exact kept.view
  | carried body => exact trusted _ _ body
  | erased ip => exact kept.view.erase ip

/-- What a listening node makes of a message: the view stays, with an answer at most, or
a pass is made over a new one, or the task ends with `State` as it was. -/
inductive Takes (node : MqNode) (msg : Msg) : EStateM.Result Halt MqNode Unit → Prop where
  | keeps {sync : MessageQueueSync} (peers : sync.peers = node.sync.peers)
      (ready : sync.ready = node.sync.ready) (speaks : Speaks sync) :
      Takes node msg (.ok () { node with sync })
  | passes {sync : MessageQueueSync} (views : Views node msg sync.peers)
      (silent : sync.pub = []) :
      Takes node msg (.ok () ⟨checked sync.peers node.state, sync⟩)
  | fails {error : Halt} {sync : MessageQueueSync} (views : Views node msg sync.peers)
      (silent : sync.pub = []) : Takes node msg (.error error { node with sync })

theorem speaks_silent {sync : MessageQueueSync} (silent : sync.pub = []) : Speaks sync := by
  intro msg hmsg
  rw [silent] at hmsg
  cases hmsg

theorem speaks_publishState (flushed : node.sync.pub = []) :
    Speaks (publishState node).sync := by
  intro msg hmsg version peers hbody
  simp only [publishState, handOver, flushed, List.nil_append, List.mem_singleton] at hmsg
  subst hmsg
  cases hbody
  rfl

theorem takes_pass {after point : MqNode} {version : Nat} {peers : PeerMap} {sub : List Address}
    (run : (listenForUpdates msg).run node = .ok () after)
    (checks : checkpoint node msg = some point)
    (becomes : Becomes node version peers sub after) (keyed : Keyed peers)
    (views : Views node msg peers) (state : point.state = node.state)
    (view : point.sync.peers = peers) : Takes node msg (.ok () after) := by
  have hpass := checkForChanges_of_listen checks run
  have hstate := checkForChanges_returned (view ▸ keyed) hpass
  obtain ⟨afterState, sync⟩ := after
  have hpeers : sync.peers = peers := becomes.peers
  have hafter : afterState = checked sync.peers node.state := by
    rw [hpeers, ← view, ← state]
    exact hstate
  subst hafter
  exact .passes (hpeers ▸ views) becomes.sound.flushed

theorem takes (kept : Kept started rangeOf owner node) (flushed : node.sync.pub = [])
    (tracks : Tracks node.state node.sync.peers) (trusted : msg.Trusted started) :
    Takes node msg ((listenForUpdates msg).run node) := by
  have hsound := kept.sound flushed tracks
  have hstays : Takes node msg (.ok () node) := .keeps rfl rfl (speaks_silent flushed)
  have hanswers : Takes node msg (.ok () (publishState node)) :=
    .keeps rfl rfl (speaks_publishState flushed)
  by_cases hself : msg.sender = address node
  · have hrun : (listenForUpdates msg).run node = .ok () node := by
      simp [listenForUpdates, hself]
    rw [hrun]
    exact hstays
  · cases hbody : msg.body with
    | stateUpdate version peers =>
        have hpeers := trusted version peers hbody
        rcases Nat.lt_trichotomy node.sync.version version with hnewer | hequal | hlater
        · obtain ⟨after, hrun, hbecomes⟩ :=
            run_newer hsound hself hbody hnewer hpeers.keyed hpeers.ported
          have hchecks : checkpoint node msg = some { node with sync := { node.sync with
              ready := node.sync.ready || node.sync.version = 0
              version := version
              peers := peers } } := by
            simp only [checkpoint, hself, hbody, hnewer, if_false, if_true]
          rw [hrun]
          exact takes_pass hrun hchecks hbecomes hpeers.keyed (.carried hbody) rfl rfl
        · rw [run_equal hself hbody hequal.symm]
          exact hstays
        · rw [run_older hself hbody hlater]
          exact hanswers
    | departureNotice virtualIp =>
        cases hfound : node.sync.peers.lookup virtualIp with
        | none =>
            have hrun : (listenForUpdates msg).run node = .error (.raised .keyError) node := by
              simp [listenForUpdates, hself, hbody, hfound]
            rw [hrun]
            exact .fails .same flushed
        | some record =>
            by_cases hconnected : msg.sender ∈ node.sync.sub
            · obtain ⟨after, hrun, hbecomes⟩ :=
                run_departure hsound hself hbody (Dict.mem_of_lookup hfound) hconnected
              have hchecks : checkpoint node msg = some { node with sync := { node.sync with
                  peers := node.sync.peers.erase virtualIp
                  sub := node.sync.sub.erase msg.sender
                  version := node.sync.version + 1 } } := by
                simp only [checkpoint, hself, hbody, if_false]
              rw [hrun]
              exact takes_pass hrun hchecks hbecomes (kept.view.keyed.erase virtualIp)
                (.erased virtualIp) rfl rfl
            · have hunconnected : (⟨msg.sender.ip, msg.sender.port⟩ : Address) ∉ node.sync.sub :=
                hconnected
              have hrun : (listenForUpdates msg).run node = .error (.raised .zmqError)
                  { node with sync := { node.sync with
                      peers := node.sync.peers.erase virtualIp } } := by
                simp [listenForUpdates, hself, hbody, hfound, disconnect, hunconnected]
              rw [hrun]
              exact .fails (.erased virtualIp) flushed
    | onboardNotice =>
        have hrun : (listenForUpdates msg).run node = .ok () (publishState node) := by
          simp [listenForUpdates, hself, hbody]
        rw [hrun]
        exact hanswers

theorem publishChange_view (node : MqNode) (change : Change) :
    (publishChange node change).state = node.state ∧
      (publishChange node change).sync.peers =
        node.sync.peers.set change.virtualIp (publishedRecord node change) ∧
      (publishChange node change).sync.ready = node.sync.ready ∧
      (node.sync.pub = [] → Speaks (publishChange node change).sync) := by
  unfold publishChange
  dsimp only
  generalize hstored : { node.sync with
    peers := node.sync.peers.set change.virtualIp (publishedRecord node change) } = stored
  have hconnects := subscribed_connects stored change.virtualIp (portGiven change)
  have hready : (stored.subscribed change.virtualIp (portGiven change)).ready = stored.ready := by
    cases portGiven change with
    | none => rfl
    | some number =>
        simp only [MessageQueueSync.subscribed, MessageQueueSync.connected]
        split <;> rfl
  subst hstored
  refine ⟨rfl, hconnects.peers, hready, fun flushed => ?_⟩
  exact speaks_publishState (hconnects.pub.trans flushed)

theorem Kept.publishes (kept : Kept started rangeOf owner node) {change : Change}
    (known : started (ofRecord (publishedRecord node change)))
    (ported : change.virtualIp ≠ node.state.ip → portGiven change ≠ none) :
    Kept started rangeOf owner (publishChange node change) := by
  obtain ⟨hstate, hpeers, -, -⟩ := publishChange_view node change
  have hrecord : ∃ number, (publishedRecord node change).syncPort = .port number := by
    by_cases hown : change.virtualIp = node.state.ip
    · exact ⟨node.sync.port, by simp [publishedRecord, hown]⟩
    · obtain ⟨number, hnumber⟩ := Option.ne_none_iff_exists'.mp (ported hown)
      exact ⟨number, by simp [publishedRecord, hown, hnumber]⟩
  have hview : Trusted started (publishChange node change).sync.peers := by
    rw [hpeers]
    exact ⟨kept.view.keyed.set rfl, kept.view.ported.set hrecord, kept.view.genuine.set known⟩
  have hafter : publishChange node change = ⟨node.state, (publishChange node change).sync⟩ := by
    rw [← hstate]
  rw [hafter]
  exact kept.viewed hview

structure Process.Kept (started : Identity → Prop) (rangeOf : String → ρ) (owner : String → Ip)
    (process : Process) : Prop where
  node : Mq.Kept started rangeOf owner process.node
  speaks : Speaks process.node.sync
  inbox : ∀ entry ∈ process.inbox, entry.2.Trusted started
  tracks : process.listening = true → Tracks process.node.state process.node.sync.peers
  routes : process.listening = true → (process.seeded = false ∨ process.node.sync.ready = true) →
    Routes process.node

/-- A joiner has a started identity, a port, and an address without a prefix length. -/
def Introduces (started : Identity → Prop) : SwarmLabel → Prop
  | .welcome _ joiner =>
    started (ofConfig joiner) ∧ joiner.syncPort ≠ 0 ∧ '/' ∉ joiner.ip.toList
  | _ => True

variable {process acting : Process} {index : Nat} {label : SwarmLabel}

/-- A change that concerns neither `State` nor the view. -/
theorem Process.Kept.congr (kept : process.Kept started rangeOf owner) {changed : Process}
    (state : changed.node.state = process.node.state)
    (peers : changed.node.sync.peers = process.node.sync.peers)
    (ready : changed.node.sync.ready = process.node.sync.ready)
    (seeded : changed.seeded = process.seeded)
    (listening : changed.listening = true → process.listening = true)
    (speaks : Speaks changed.node.sync)
    (inbox : ∀ entry ∈ changed.inbox, entry.2.Trusted started) :
    changed.Kept started rangeOf owner := by
  have hnode : changed.node = ⟨process.node.state, changed.node.sync⟩ := by rw [← state]
  refine ⟨?_, speaks, inbox, fun h => ?_, fun h hsettled ip => ?_⟩
  · rw [hnode]
    exact kept.node.viewed (peers ▸ kept.node.view)
  · rw [state, peers]
    exact kept.tracks (listening h)
  · rw [seeded, ready] at hsettled
    rw [state, peers]
    exact kept.routes (listening h) hsettled ip

theorem Process.Kept.admits (kept : process.Kept started rangeOf owner)
    (owned : Owned started owner) (flushed : process.node.sync.pub = []) {joiner : Config}
    (new : joiner.ip ∉ process.node.state.peers) (foreign : joiner.ip ≠ process.node.state.ip)
    (introduces : Introduces started (.welcome index joiner)) :
    Process.Kept started rangeOf owner { process with node := admitted process.node joiner } := by
  obtain ⟨hstarted, hport, hplain⟩ := introduces
  have hsame := joiner.addedTo_same process.node.state
  have hadded : Mq.Kept started rangeOf owner
      { process.node with state := joiner.addedTo process.node.state } := by
    refine ⟨Gossip.ofState_same hsame ▸ kept.node.own, kept.node.view,
      Gossip.all_addPeer kept.node.peers hstarted, ⟨?_, ?_⟩, hsame.locked.trans kept.node.free,
      hsame.allSyncMode.trans kept.node.single⟩
    · exact kept.node.wireguard.configured.addPeer (owned _ hstarted) new _ _
    · exact Wireguard.addPeer_foreign kept.node.wireguard.foreign _ _ _ _
  obtain ⟨hstate, hpeers, hready, hspeaks⟩ := publishChange_view
    { process.node with state := joiner.addedTo process.node.state } joiner.change
  have hgiven : portGiven joiner.change = some joiner.syncPort := by
    simp [portGiven, Config.change, Option.filter, Nat.pos_of_ne_zero hport]
  refine ⟨hadded.publishes hstarted fun _ => by simp [hgiven], hspeaks flushed, kept.inbox, ?_, ?_⟩
  · intro hlistening ip
    have htracks := kept.tracks hlistening ip
    rw [admitted, hstate, hpeers, Config.mem_addedTo foreign, hsame.ip, Dict.mem_set, htracks]
    constructor
    · rintro (rfl | ⟨hlisted, hother⟩)
      · exact ⟨.inl rfl, foreign⟩
      · exact ⟨.inr hlisted, hother⟩
    · rintro ⟨rfl | hlisted, hother⟩
      · exact .inl rfl
      · exact .inr ⟨hlisted, hother⟩
  · intro hlistening hsettled ip
    rw [admitted, hready] at hsettled
    have hroutes := kept.routes hlistening hsettled ip
    have hlookup : (joiner.addedTo process.node.state).peers.lookup ip = _ :=
      State.lookup_addPeer process.node.state _ _ _ ip foreign
    rw [admitted, hstate, hpeers, hlookup, hsame.ip, Dict.lookup_set]
    intro hother
    by_cases hjoiner : ip = joiner.ip
    · subst hjoiner
      simp [publishedRecord, Config.change, Change.allowedOrDefault, State.getAllowedIPs, hplain]
    · have hchanged : ip ≠ joiner.change.virtualIp := hjoiner
      rw [if_neg hjoiner, if_neg hchanged]
      exact hroutes hother

theorem Process.Kept.edits (kept : process.Kept started rangeOf owner)
    (flushed : process.node.sync.pub = []) {edit : OwnEdit} {state : State}
    (edited : edit.apply process.node.state = some state) :
    Process.Kept started rangeOf owner
      { process with node := publishChange { process.node with state } state.ownChange } := by
  obtain ⟨allowedIps, rfl⟩ := edit.apply_spec edited
  have hedited : Mq.Kept started rangeOf owner
      { process.node with state := { process.node.state with allowedIps } } :=
    ⟨kept.node.own, kept.node.view, kept.node.peers,
      ⟨kept.node.wireguard.configured.congr rfl rfl, kept.node.wireguard.foreign⟩,
      kept.node.free, kept.node.single⟩
  have hlisted : ∀ ip, ip ≠ process.node.state.ip → ∀ peers : PeerMap, ∀ record,
      (peers.set process.node.state.ip record).lookup ip = peers.lookup ip := by
    intro ip hother peers record
    rw [Dict.lookup_set, if_neg hother]
  obtain ⟨hstate, hpeers, hready, hspeaks⟩ := publishChange_view
    { process.node with state := { process.node.state with allowedIps } }
    { process.node.state with allowedIps }.ownChange
  refine ⟨hedited.publishes kept.node.own (absurd rfl ·), hspeaks flushed, kept.inbox, ?_, ?_⟩
  · intro hlistening ip
    rw [hstate, hpeers, kept.tracks hlistening ip, Dict.mem_set]
    constructor
    · rintro ⟨hlisted, hother⟩
      exact ⟨.inr hlisted, hother⟩
    · rintro ⟨hown | hlisted, hother⟩
      · exact absurd hown hother
      · exact ⟨hlisted, hother⟩
  · intro hlistening hsettled ip
    rw [hready] at hsettled
    have hroutes := kept.routes hlistening hsettled ip
    rw [hstate, hpeers]
    intro hother
    rw [hroutes hother]
    exact congrArg (Option.map PeerRecord.allowedIps) (hlisted ip hother _ _).symm

theorem Process.Kept.receives (kept : process.Kept started rangeOf owner)
    (owned : Owned started owner) (flushed : process.node.sync.pub = []) {sender : Nat} {msg : Msg}
    {rest : List (Nat × Msg)} (taken : take process.inbox sender = some (msg, rest))
    (listening : process.listening = true) :
    (process.receive msg rest).Kept started rangeOf owner := by
  have hmem := mem_of_take taken
  have htrusted := kept.inbox _ ((hmem _).mpr (.inl rfl))
  have hrest : ∀ entry ∈ rest, entry.2.Trusted started := fun entry hentry =>
    kept.inbox entry ((hmem entry).mpr (.inr hentry))
  have htakes := takes kept.node flushed (kept.tracks listening) htrusted
  unfold Process.receive
  generalize (listenForUpdates msg).run process.node = result at htakes
  cases htakes with
  | keeps peers ready speaks =>
      exact kept.congr rfl peers ready rfl (fun _ => listening) speaks hrest
  | passes views silent =>
      obtain ⟨hkept, htracks, hroutes⟩ :=
        kept.node.passed owned (kept.node.views htrusted views)
      exact ⟨hkept, speaks_silent silent, hrest, fun _ => htracks, fun _ _ => hroutes⟩
  | fails views silent =>
      have hview := kept.node.views htrusted views
      exact ⟨kept.node.viewed hview, speaks_silent silent, hrest, fun h => (by cases h),
        fun h => (by cases h)⟩

theorem speaks_handOver (flushed : node.sync.pub = []) {body : Body}
    (wordless : ∀ version peers, body ≠ .stateUpdate version peers) :
    Speaks (handOver node body).sync := by
  intro msg hmsg version peers hbody
  simp only [handOver, flushed, List.nil_append, List.mem_singleton] at hmsg
  subst hmsg
  exact absurd hbody (wordless version peers)

theorem Process.Kept.acts (kept : process.Kept started rangeOf owner)
    (owned : Owned started owner) (flushed : process.node.sync.pub = [])
    (introduces : Introduces started label) (does : process.Acts index label acting) :
    acting.Kept started rangeOf owner := by
  cases does with
  | admits serves new foreign => exact kept.admits owned flushed new foreign introduces
  | asks =>
      exact kept.congr rfl rfl rfl rfl id (speaks_handOver flushed fun _ _ h => by cases h)
        kept.inbox
  | edits edited serves => exact kept.edits flushed edited
  | hears taken listening => exact kept.receives owned flushed taken listening
  | departs serves =>
      exact kept.congr rfl rfl rfl rfl id (speaks_handOver flushed fun _ _ h => by cases h)
        kept.inbox

structure Vouched (started : Identity → Prop) (ticket : Ticket) : Prop where
  fine : ticket.Fine
  config : started (ofConfig ticket.config)
  bootstrap : started (ofConfig ticket.bootstrap)
  seed : started (ofRecord ticket.seed)

structure Mesh (started : Identity → Prop) (rangeOf : String → ρ) (owner : String → Ip)
    (swarm : Swarm) : Prop where
  processes : ∀ process ∈ swarm.processes,
    process.Kept started rangeOf owner ∧ process.node.sync.pub = []
  tickets : ∀ ticket ∈ swarm.tickets, Vouched started ticket

variable {swarm : Swarm}

theorem Process.Kept.flushed (kept : process.Kept started rangeOf owner) :
    Process.Kept started rangeOf owner { process with node := flush process.node } :=
  kept.congr rfl rfl rfl rfl id (speaks_silent rfl) kept.inbox

theorem Process.Kept.hears (kept : process.Kept started rangeOf owner) (publisher : Nat)
    {source : MqNode} (speaks : Speaks source.sync) (view : Trusted started source.sync.peers) :
    (process.hear publisher source).Kept started rangeOf owner := by
  unfold Process.hear
  split
  · refine kept.congr rfl rfl rfl rfl id kept.speaks fun entry hentry => ?_
    rcases List.mem_append.mp hentry with hold | hnew
    · exact kept.inbox entry hold
    · obtain ⟨msg, hmsg, rfl⟩ := List.mem_map.mp hnew
      intro version peers hbody
      rw [speaks msg hmsg version peers hbody]
      exact view
  · exact kept

theorem Mesh.act (mesh : Mesh started rangeOf owner swarm)
    (kept : acting.Kept started rangeOf owner) {tickets : List Ticket}
    (vouched : ∀ ticket ∈ tickets, Vouched started ticket) :
    Mesh started rangeOf owner { swarm.act index acting with tickets } := by
  refine ⟨fun member hmember => ?_, vouched⟩
  obtain ⟨other, hother, rfl⟩ := List.mem_mapIdx.mp hmember
  split
  · exact ⟨kept.flushed, rfl⟩
  · obtain ⟨hkept, hflushed⟩ := mesh.processes _ (List.getElem_mem hother)
    refine ⟨hkept.hears index kept.speaks kept.node.view, ?_⟩
    rw [Process.hear_node]
    exact hflushed

theorem Mesh.set (mesh : Mesh started rangeOf owner swarm)
    (kept : process.Kept started rangeOf owner) (flushed : process.node.sync.pub = []) :
    Mesh started rangeOf owner
      { swarm with processes := swarm.processes.set index process } := by
  refine ⟨fun member hmember => ?_, mesh.tickets⟩
  rcases List.mem_or_eq_of_mem_set hmember with hold | rfl
  · exact mesh.processes member hold
  · exact ⟨kept, flushed⟩

theorem created_kept {config : Config} (known : started (ofConfig config)) :
    (created config).Kept started rangeOf owner where
  node :=
    { own := known
      view := ⟨Dict.All.set (Dict.all_empty _) rfl, Dict.All.set (Dict.all_empty _) ⟨_, rfl⟩,
        Dict.All.set (Dict.all_empty _) known⟩
      peers := Dict.all_empty _
      wireguard := Wireguard.sound_new rangeOf owner _ _ _ _
      free := rfl
      single := rfl }
  speaks := speaks_silent rfl
  inbox := fun entry hmem => by cases hmem
  tracks := fun _ ip => by
    have hlisted : ip ∈ (created config).node.sync.peers ↔ ip = config.ip ∨ ip ∈ (∅ : PeerMap) :=
      Dict.mem_set _ _ _ _
    have hnone : ip ∉ (created config).node.state.peers := AList.notMem_empty ip
    have hempty : ip ∉ (∅ : PeerMap) := AList.notMem_empty ip
    simp only [hlisted, hnone, hempty, or_false, false_iff, not_and, not_not]
    exact id
  routes := fun _ _ ip hother => by
    have hlookup : (created config).node.sync.peers.lookup ip = (∅ : PeerMap).lookup ip :=
      Dict.lookup_set_ne _ _ hother
    rw [hlookup]
    rfl

theorem joined_kept {ticket : Ticket} (vouched : Vouched started ticket)
    (owned : Owned started owner) {number : Nat} (port : ticket.seed.syncPort = .port number) :
    (joined ticket number).Kept started rangeOf owner := by
  let state := ticket.bootstrap.addedTo ticket.config.state
  have hforeign : ticket.bootstrap.ip ≠ ticket.config.state.ip := vouched.fine.foreign
  have hsame := ticket.bootstrap.addedTo_same ticket.config.state
  have hown : started (ofState state) := by
    rw [Gossip.ofState_same hsame]
    exact vouched.config
  let listed : PeerMap :=
    ((∅ : PeerMap).set state.ip (state.ownRecord ticket.config.syncPort)).set
      ticket.seed.virtualIp ticket.seed
  have hconnects : Connects ⟨ticket.config.syncPort, 0, listed, false, [], []⟩
      (joined ticket number).node.sync := connected_connects _ _
  have hview : (joined ticket number).node.sync.peers = listed := hconnects.peers
  have hready : (joined ticket number).node.sync.ready = false := rfl
  refine ⟨⟨hown, hview ▸ ?_, ?_, ⟨?_, ?_⟩, hsame.locked, hsame.allSyncMode⟩,
    speaks_silent hconnects.pub, ?_, fun _ ip => ?_, fun _ h => ?_⟩
  · have hkeyed : Keyed listed := by
      refine Dict.All.set (Dict.All.set (Dict.all_empty _) ?_) ?_ <;> rfl
    exact ⟨hkeyed, Dict.All.set (Dict.All.set (Dict.all_empty _) ⟨_, rfl⟩) ⟨number, port⟩,
      Dict.All.set (Dict.All.set (Dict.all_empty _) hown) vouched.seed⟩
  · exact Gossip.all_addPeer (Dict.all_empty _) vouched.bootstrap
  · exact Wireguard.Configured.addPeer (Wireguard.sound_new rangeOf owner _ _ _ _).configured
      (owned _ vouched.bootstrap) (AList.notMem_empty _) _ _
  · exact Wireguard.addPeer_foreign (AList.notMem_empty _) _ _ _ _
  · intro entry hmem
    cases hmem
  · have hstate : ip ∈ (joined ticket number).node.state.peers ↔
        ip = ticket.bootstrap.ip ∨ ip ∈ ticket.config.state.peers :=
      Config.mem_addedTo hforeign ip
    have hip : (joined ticket number).node.state.ip = ticket.config.state.ip := hsame.ip
    have hnone : ip ∉ ticket.config.state.peers := AList.notMem_empty ip
    have hempty : ip ∉ (∅ : PeerMap) := AList.notMem_empty ip
    have hlisted : ip ∈ listed ↔ ip = ticket.bootstrap.ip ∨ ip = ticket.config.state.ip := by
      simp only [listed, Dict.mem_set, hempty, or_false, vouched.fine.seed]
      exact or_congr_right (by rw [show state.ip = ticket.config.state.ip from hsame.ip])
    rw [hstate, hview, hlisted, hip]
    constructor
    · rintro (rfl | h)
      · exact ⟨.inl rfl, hforeign⟩
      · exact absurd h hnone
    · rintro ⟨rfl | hself, hother⟩
      · exact .inl rfl
      · exact absurd hself hother
  · rw [hready] at h
    rcases h with h | h <;> cases h

theorem Mesh.next (mesh : Mesh started rangeOf owner swarm) (owned : Owned started owner)
    {after : Swarm} (introduces : Introduces started label)
    (step : swarm.next label = some after) : Mesh started rangeOf owner after := by
  cases Swarm.stepped_of_next step with
  | acts member does issued =>
      rename_i index process acting tickets
      obtain ⟨hkept, hflushed⟩ := mesh.processes process (List.mem_of_getElem? member)
      refine mesh.act (hkept.acts owned hflushed introduces does) fun ticket hticket => ?_
      rcases issued ticket hticket with hold | ⟨rfl, hbootstrap, hseed⟩
      · exact mesh.tickets ticket hold
      · obtain ⟨config, bootstrap, seed⟩ := ticket
        cases hbootstrap
        cases does with
        | admits serves new foreign =>
            exact ⟨⟨hkept.node.view.keyed _ _ hseed, foreign.symm⟩, introduces.1,
              hkept.node.own, hkept.node.view.genuine _ _ hseed⟩
  | starts isJoin issued port =>
      refine ⟨fun member hmember => ?_, mesh.tickets⟩
      rcases List.mem_append.mp hmember with hold | hnew
      · exact mesh.processes member hold
      · rw [List.mem_singleton.mp hnew]
        exact ⟨joined_kept (mesh.tickets _ issued) owned port, joined_flushed _ _⟩
  | loses member taken isLose =>
      rename_i loser sender process msg rest
      obtain ⟨hkept, hflushed⟩ := mesh.processes process (List.mem_of_getElem? member)
      have hmem := mem_of_take taken
      have hrest : ∀ entry ∈ rest, entry.2.Trusted started := fun entry hentry =>
        hkept.inbox entry ((hmem entry).mpr (.inr hentry))
      exact mesh.set (hkept.congr rfl rfl rfl rfl id hkept.speaks hrest) hflushed
  | stops member leaving =>
      obtain ⟨hkept, hflushed⟩ := mesh.processes _ (List.mem_of_getElem? member)
      exact mesh.set (hkept.congr rfl rfl rfl rfl id hkept.speaks hkept.inbox) hflushed

theorem Mesh.founded {configs : List Config}
    (founders : ∀ config ∈ configs, started (ofConfig config)) :
    Mesh started rangeOf owner (.founded configs) := by
  refine ⟨fun process hprocess => ?_, fun ticket hticket => by cases hticket⟩
  obtain ⟨config, hconfig, rfl⟩ := List.mem_map.mp hprocess
  exact ⟨created_kept (founders config hconfig), rfl⟩

theorem Unshared.owned (unshared : Unshared started) : ∃ owner, Owned started owner := by
  classical
  refine ⟨fun key =>
    if h : ∃ identity, started identity ∧ State.strip identity.publicKey = key then
      h.choose.virtualIp
    else "", fun identity known => ?_⟩
  have hexists : ∃ other, started other ∧
      State.strip other.publicKey = State.strip identity.publicKey := ⟨identity, known, rfl⟩
  obtain ⟨hother, hkey⟩ := hexists.choose_spec
  dsimp only
  rw [dif_pos hexists, unshared _ _ hother known (.inr hkey)]

instance (started : Identity → Prop) [DecidablePred started] :
    (label : SwarmLabel) → Decidable (Introduces started label)
  | .welcome _ joiner => inferInstanceAs (Decidable
      (started (ofConfig joiner) ∧ joiner.syncPort ≠ 0 ∧ '/' ∉ joiner.ip.toList))
  | .join _ | .onboard _ | .publishOwn _ _ | .deliver _ _ | .lose _ _ | .depart _ | .stop _ =>
    inferInstanceAs (Decidable True)

end WgBp.Mq
