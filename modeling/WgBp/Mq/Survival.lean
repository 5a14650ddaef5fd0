import WgBp.Gossip.Invariant
import WgBp.Mq.Swarm

/-! Which messages end the listening task. A state update never does, whatever it
overtakes; a departure notice does exactly if its peer has left the view already, or
the SUB socket is not connected to its sender. -/
namespace WgBp.Mq

open WgBp.Library WgBp.Library.Procedure WgBp.Library.Mailbox WgBp.Library.Transition WgBp.Model
open WgBp.Gossip (Config Ticket OwnEdit)

/-- The node can carry out what the message asks for: a departure concerns a listed peer
and comes from an endpoint of the SUB socket. -/
def Expects (node : MqNode) (msg : Msg) : Bool :=
  match msg.body with
  | .departureNotice virtualIp =>
    msg.sender = address node ∨ (virtualIp ∈ node.sync.peers ∧ msg.sender ∈ node.sync.sub)
  | _ => true

/-- Joiners give a port, and a departure notice is handled while it is expected. -/
def Swarm.timely (swarm : Swarm) : SwarmLabel → Bool
  | .welcome _ joiner => joiner.syncPort ≠ 0
  | .deliver receiver sender =>
    match swarm.processes[receiver]? with
    | some process => (take process.inbox sender).all fun pair => Expects process.node pair.1
    | none => true
  | _ => true

def Msg.Fine (msg : Msg) : Prop :=
  ∀ version peers, msg.body = .stateUpdate version peers → Keyed peers ∧ Ported peers

structure Emits (node : MqNode) : Prop where
  sound : Sound (flush node)
  published : ∀ msg ∈ node.sync.pub, msg.Fine

variable {node : MqNode} {msg : Msg}

theorem Emits.quiet (sound : Sound node) : Emits node where
  sound := by
    rw [flush_self sound]
    exact sound
  published := fun msg hmem => by simp [sound.flushed] at hmem

theorem Emits.handOver (sound : Sound node) {body : Body}
    (fine : Msg.Fine ⟨address node, body⟩) : Emits (handOver node body) where
  sound := by
    have hsame : flush (Mq.handOver node body) = node := flush_self sound
    rw [hsame]
    exact sound
  published := by
    intro msg hmem
    simp only [Mq.handOver, sound.flushed, List.nil_append, List.mem_singleton] at hmem
    rw [hmem]
    exact fine

theorem update_fine (sender : Address) (version : Nat) {peers : PeerMap} (keyed : Keyed peers)
    (ported : Ported peers) : (update sender version peers).Fine := by
  intro carried map hbody
  cases hbody
  exact ⟨keyed, ported⟩

theorem Emits.publishState (sound : Sound node) : Emits (publishState node) :=
  .handOver sound (update_fine _ _ sound.keyed sound.ported)

theorem Emits.publishChange (sound : Sound node) {change : Change}
    (ported : change.virtualIp ≠ node.state.ip → portGiven change ≠ none)
    (configured : change.virtualIp ≠ node.state.ip → change.virtualIp ∈ node.state.peers) :
    Emits (publishChange node change) := by
  obtain ⟨hbecomes, hpub⟩ := publishChange_becomes sound ported configured
  refine ⟨hbecomes.sound, ?_⟩
  intro msg hmem
  rw [hpub, List.mem_singleton] at hmem
  rw [hmem]
  exact update_fine _ _ (hbecomes.peers ▸ hbecomes.sound.keyed)
    (hbecomes.peers ▸ hbecomes.sound.ported)

theorem handles (sound : Sound node) (fine : msg.Fine) (expected : Expects node msg = true) :
    ∃ after, (listenForUpdates msg).run node = .ok () after ∧ Emits after ∧
      address after = address node := by
  by_cases hself : msg.sender = address node
  · exact ⟨node, by simp [listenForUpdates, hself], .quiet sound, rfl⟩
  · cases hbody : msg.body with
    | stateUpdate version peers =>
        obtain ⟨hkeyed, hported⟩ := fine version peers hbody
        rcases Nat.lt_trichotomy node.sync.version version with hnewer | hequal | hlater
        · obtain ⟨after, hrun, hbecomes⟩ := run_newer sound hself hbody hnewer hkeyed hported
          exact ⟨after, hrun, .quiet hbecomes.sound, hbecomes.address⟩
        · exact ⟨node, run_equal hself hbody hequal.symm, .quiet sound, rfl⟩
        · exact ⟨_, run_older hself hbody hlater, .publishState sound, rfl⟩
    | departureNotice virtualIp =>
        have hpeer : virtualIp ∈ node.sync.peers ∧ msg.sender ∈ node.sync.sub := by
          simpa [Expects, hbody, hself] using expected
        obtain ⟨after, hrun, hbecomes⟩ := run_departure sound hself hbody hpeer.1 hpeer.2
        exact ⟨after, hrun, .quiet hbecomes.sound, hbecomes.address⟩
    | onboardNotice =>
        exact ⟨_, by simp [listenForUpdates, hself, hbody], .publishState sound, rfl⟩

theorem raises (unexpected : Expects node msg = false) :
    returned ((listenForUpdates msg).run node) = false := by
  cases hbody : msg.body with
  | stateUpdate version peers => simp [Expects, hbody] at unexpected
  | onboardNotice => simp [Expects, hbody] at unexpected
  | departureNotice virtualIp =>
      simp only [Expects, hbody, decide_eq_false_iff_not, not_or, not_and] at unexpected
      obtain ⟨hother, hpeer⟩ := unexpected
      cases hfound : node.sync.peers.lookup virtualIp with
      | none => simp [listenForUpdates, hother, hbody, hfound, returned]
      | some record =>
          have hunconnected : (⟨msg.sender.ip, msg.sender.port⟩ : Address) ∉ node.sync.sub :=
            hpeer (Dict.mem_of_lookup hfound)
          simp [listenForUpdates, hother, hbody, hfound, disconnect, hunconnected, returned]

structure Process.Fine (process : Process) : Prop where
  sound : Sound process.node
  listening : process.listening = true
  inbox : ∀ entry ∈ process.inbox, entry.2.Fine

structure Healthy (swarm : Swarm) : Prop where
  processes : ∀ process ∈ swarm.processes, process.Fine
  tickets : ∀ ticket ∈ swarm.tickets, ticket.Fine

variable {swarm : Swarm} {process : Process} {index : Nat}

theorem Healthy.member (healthy : Healthy swarm) (member : swarm.processes[index]? = some process) :
    process.Fine :=
  healthy.processes process (List.mem_of_getElem? member)

theorem Process.Fine.hear (fine : process.Fine) (publisher : Nat) {source : MqNode}
    (emits : Emits source) : (process.hear publisher source).Fine := by
  unfold Process.hear
  split
  · refine ⟨fine.sound, fine.listening, ?_⟩
    intro entry hentry
    rcases List.mem_append.mp hentry with hold | hnew
    · exact fine.inbox entry hold
    · obtain ⟨msg, hmsg, rfl⟩ := List.mem_map.mp hnew
      exact emits.published msg hmsg
  · exact fine

theorem Healthy.act (healthy : Healthy swarm) (emits : Emits process.node)
    (listening : process.listening = true) (inbox : ∀ entry ∈ process.inbox, entry.2.Fine) :
    Healthy (swarm.act index process) := by
  refine ⟨?_, healthy.tickets⟩
  intro member hmember
  obtain ⟨other, hother, hmember⟩ := List.mem_mapIdx.mp hmember
  subst hmember
  split
  · exact ⟨emits.sound, listening, inbox⟩
  · exact (healthy.processes _ (List.getElem_mem hother)).hear index emits

theorem Healthy.set (healthy : Healthy swarm) (fine : process.Fine) :
    Healthy { swarm with processes := swarm.processes.set index process } := by
  refine ⟨?_, healthy.tickets⟩
  intro member hmember
  rcases List.mem_or_eq_of_mem_set hmember with hold | rfl
  · exact healthy.processes member hold
  · exact fine

theorem Healthy.enlist (healthy : Healthy swarm) (fine : process.Fine) :
    Healthy { swarm with processes := swarm.processes ++ [process] } := by
  refine ⟨?_, healthy.tickets⟩
  intro member hmember
  rcases List.mem_append.mp hmember with hold | hnew
  · exact healthy.processes member hold
  · rw [List.mem_singleton.mp hnew]
    exact fine

theorem Healthy.issue (healthy : Healthy swarm) {ticket : Ticket} (fine : ticket.Fine) :
    Healthy { swarm with tickets := swarm.tickets ++ [ticket] } := by
  refine ⟨healthy.processes, ?_⟩
  intro other hother
  rcases List.mem_append.mp hother with hold | hnew
  · exact healthy.tickets other hold
  · rw [List.mem_singleton.mp hnew]
    exact fine

theorem Sound.connects (sound : Sound node) {sync : MessageQueueSync}
    (connects : Connects node.sync sync) : Sound { node with sync } where
  free := sound.free
  single := sound.single
  foreign := sound.foreign
  configured := connects.peers ▸ sound.configured
  keyed := connects.peers ▸ sound.keyed
  ported := connects.peers ▸ sound.ported
  flushed := connects.pub.trans sound.flushed

theorem new_sound {state : State} (free : state.locked = false) (single : state.allSyncMode = 0)
    (foreign : state.ip ∉ state.peers) (port : Nat) : Sound ⟨state, .new state port⟩ := by
  refine ⟨free, single, foreign, ?_, Dict.All.set (Dict.all_empty _) rfl,
    Dict.All.set (Dict.all_empty _) ⟨port, rfl⟩, rfl⟩
  intro ip hmem hforeign
  rcases (Dict.mem_set _ _ _ _).mp hmem with hown | hnone
  · exact absurd hown hforeign
  · exact absurd hnone (AList.notMem_empty ip)

theorem created_fine (config : Config) : (created config).Fine where
  sound := new_sound rfl rfl (AList.notMem_empty _) config.syncPort
  listening := rfl
  inbox := fun entry hmem => by cases hmem

theorem joined_fine {ticket : Ticket} (fine : ticket.Fine) {number : Nat}
    (port : ticket.seed.syncPort = .port number) : (joined ticket number).Fine where
  sound := by
    have hsame := ticket.bootstrap.addedTo_same ticket.config.state
    have hmem (ip : Ip) : ip ∈ (ticket.bootstrap.addedTo ticket.config.state).peers ↔
        ip = ticket.bootstrap.ip := by
      rw [Config.mem_addedTo fine.foreign]
      exact or_iff_left (AList.notMem_empty ip)
    have hforeign : (ticket.bootstrap.addedTo ticket.config.state).ip ∉
        (ticket.bootstrap.addedTo ticket.config.state).peers := by
      rw [hmem, hsame.ip]
      exact fine.foreign.symm
    have hown := new_sound hsame.locked hsame.allSyncMode hforeign ticket.config.syncPort
    have hseeded : Sound ⟨ticket.bootstrap.addedTo ticket.config.state,
        { MessageQueueSync.new (ticket.bootstrap.addedTo ticket.config.state)
            ticket.config.syncPort with
          peers := (MessageQueueSync.new (ticket.bootstrap.addedTo ticket.config.state)
            ticket.config.syncPort).peers.set ticket.seed.virtualIp ticket.seed }⟩ := by
      refine ⟨hown.free, hown.single, hown.foreign, ?_, hown.keyed.set rfl,
        hown.ported.set ⟨number, port⟩, rfl⟩
      intro ip hip hne
      rcases (Dict.mem_set _ _ _ _).mp hip with rfl | hold
      · exact (hmem _).mpr fine.seed
      · exact hown.configured ip hold hne
    exact hseeded.connects (connected_connects _ _)
  listening := rfl
  inbox := fun entry hmem => by cases hmem

theorem admitted_emits (sound : Sound node) {joiner : Config}
    (foreign : joiner.ip ≠ node.state.ip) (port : joiner.syncPort ≠ 0) :
    Emits (admitted node joiner) := by
  refine .publishChange (sound.addPeer _ _ _ _) ?_ ?_
  · intro _
    have hgiven : portGiven joiner.change = some joiner.syncPort := by
      simp [portGiven, Config.change, Option.filter, Nat.pos_of_ne_zero port]
    rw [hgiven]
    exact Option.some_ne_none _
  · intro _
    exact (Config.mem_addedTo foreign _).mpr (.inl rfl)

theorem publishOwn_emits (sound : Sound node) {edit : OwnEdit} {state : State}
    (edited : edit.apply node.state = some state) :
    Emits (publishChange { node with state } state.ownChange) := by
  obtain ⟨allowedIps, rfl⟩ := edit.apply_spec edited
  have hsound : Sound { node with state := { node.state with allowedIps } } :=
    ⟨sound.free, sound.single, sound.foreign, sound.configured, sound.keyed, sound.ported,
      sound.flushed⟩
  exact .publishChange hsound (absurd rfl ·) (absurd rfl ·)

theorem Process.Fine.rest (fine : process.Fine) {sender : Nat} {rest : List (Nat × Msg)}
    (taken : take process.inbox sender = some (msg, rest)) :
    msg.Fine ∧ ∀ entry ∈ rest, entry.2.Fine := by
  have hmem := mem_of_take taken
  exact ⟨fine.inbox _ ((hmem _).mpr (.inl rfl)),
    fun entry hentry => fine.inbox entry ((hmem entry).mpr (.inr hentry))⟩

theorem Process.Fine.receive (fine : process.Fine) (hmsg : msg.Fine)
    (expected : Expects process.node msg = true) (rest : List (Nat × Msg)) :
    Emits (process.receive msg rest).node ∧ (process.receive msg rest).listening = true := by
  obtain ⟨after, hrun, hemits, -⟩ := handles fine.sound hmsg expected
  unfold Process.receive
  rw [hrun]
  exact ⟨hemits, rfl⟩

theorem Healthy.next (healthy : Healthy swarm) {label : SwarmLabel} {after : Swarm}
    (timely : swarm.timely label = true) (step : swarm.next label = some after) :
    Healthy after := by
  cases label with
  | welcome index joiner =>
      obtain ⟨process, hprocess, step⟩ := Option.bind_eq_some_iff.mp step
      obtain ⟨seed, hseed, step⟩ := Option.bind_eq_some_iff.mp step
      have hfine := healthy.member hprocess
      split at step
      · rename_i hguard
        cases step
        have hemits := admitted_emits hfine.sound hguard.2.2 (of_decide_eq_true timely)
        have hafter : Healthy (swarm.act index
            { process with node := admitted process.node joiner }) :=
          healthy.act hemits hfine.listening hfine.inbox
        exact hafter.issue ⟨hfine.sound.keyed _ _ hseed, hguard.2.2.symm⟩
      · cases step
  | join index =>
      obtain ⟨ticket, hticket, step⟩ := Option.bind_eq_some_iff.mp step
      split at step
      · rename_i number hport
        cases step
        exact healthy.enlist
          (joined_fine (healthy.tickets ticket (List.mem_of_getElem? hticket)) hport)
      · cases step
  | onboard index =>
      obtain ⟨process, hprocess, step⟩ := Option.bind_eq_some_iff.mp step
      have hfine := healthy.member hprocess
      split at step
      · cases step
        exact healthy.act (.handOver hfine.sound fun _ _ h => by cases h) hfine.listening
          hfine.inbox
      · cases step
  | publishOwn index edit =>
      obtain ⟨process, hprocess, step⟩ := Option.bind_eq_some_iff.mp step
      obtain ⟨state, hstate, step⟩ := Option.bind_eq_some_iff.mp step
      have hfine := healthy.member hprocess
      split at step
      · cases step
        exact healthy.act (publishOwn_emits hfine.sound hstate) hfine.listening hfine.inbox
      · cases step
  | deliver receiver sender =>
      obtain ⟨process, hprocess, step⟩ := Option.bind_eq_some_iff.mp step
      obtain ⟨⟨msg, rest⟩, htaken, step⟩ := Option.bind_eq_some_iff.mp step
      have hfine := healthy.member hprocess
      dsimp only at step
      split at step
      · cases step
        obtain ⟨hmsg, hrest⟩ := hfine.rest htaken
        have hexpected : Expects process.node msg = true := by
          simpa [Swarm.timely, hprocess, htaken] using timely
        obtain ⟨hemits, hlistening⟩ := hfine.receive hmsg hexpected rest
        exact healthy.act hemits hlistening hrest
      · cases step
  | lose receiver sender =>
      obtain ⟨process, hprocess, step⟩ := Option.bind_eq_some_iff.mp step
      obtain ⟨⟨msg, rest⟩, htaken, step⟩ := Option.bind_eq_some_iff.mp step
      cases step
      have hfine := healthy.member hprocess
      exact healthy.set ⟨hfine.sound, hfine.listening, (hfine.rest htaken).2⟩
  | depart index =>
      obtain ⟨process, hprocess, step⟩ := Option.bind_eq_some_iff.mp step
      have hfine := healthy.member hprocess
      split at step
      · cases step
        exact healthy.act (.handOver hfine.sound fun _ _ h => by cases h) hfine.listening
          hfine.inbox
      · cases step
  | stop index =>
      obtain ⟨process, hprocess, step⟩ := Option.bind_eq_some_iff.mp step
      have hfine := healthy.member hprocess
      split at step
      · cases step
        exact healthy.set ⟨hfine.sound, hfine.listening, hfine.inbox⟩
      · cases step

theorem Healthy.founded (configs : List Config) : Healthy (.founded configs) where
  processes := by
    intro process hprocess
    obtain ⟨config, -, rfl⟩ := List.mem_map.mp hprocess
    exact created_fine config
  tickets := fun ticket hmem => by cases hmem

def firstConfig : Config := ⟨"10.0.0.1", "ka", "198.51.100.1", 51820, 5555⟩
def secondConfig : Config := ⟨"10.0.0.2", "kb", "198.51.100.2", 51820, 5555⟩
def thirdConfig : Config := ⟨"10.0.0.3", "kc", "198.51.100.3", 51820, 5555⟩

def foundersRoute : SwarmLabel := .publishOwn 0 (.add "192.168.1.0/24")

end WgBp.Mq
