import WgBp.Gossip.Network

/-! The invariant of a network of honest nodes, and what one step makes of one
process. -/
namespace WgBp.Gossip

open WgBp.Library WgBp.Library.Procedure WgBp.Library.Transition WgBp.Model

def Outgoing.Fine (node : GossipNode) (outgoing : Outgoing) : Prop :=
  match outgoing.kind with
  | .heartbeat => outgoing.ip ≠ node.state.ip
  | .reply => True
  | .onboarding msg => msg.type = .stateUpdate
  | .departure => outgoing.ip ≠ node.state.ip ∧ 0 < node.sync.version

structure Process.Fine (process : Process) : Prop where
  sound : Sound process.node
  started : process.phase ≠ .running → 0 < process.node.sync.version
  outbox : ∀ outgoing ∈ process.outbox, outgoing.Fine process.node

structure SentBy (process : Process) (msg : Msg) : Prop where
  ip : msg.fromIp = process.node.state.ip
  port : msg.fromPort = process.node.sync.port
  version : msg.version ≤ process.node.sync.version

structure Packet.Fine (network : Network) (packet : Packet) : Prop where
  keyed : Keyed packet.msg.state
  notice : packet.msg.type = .departureNotice → 0 < packet.msg.version
  numbered : packet.serial < network.serial
  sender : ∃ process, network.processes[packet.sender]? = some process ∧
    SentBy process packet.msg

structure Ticket.Fine (ticket : Ticket) : Prop where
  seed : ticket.seed.virtualIp = ticket.bootstrap.ip
  foreign : ticket.bootstrap.ip ≠ ticket.config.ip

structure Sane (network : Network) : Prop where
  processes : ∀ process ∈ network.processes, process.Fine
  packets : ∀ packet ∈ network.packets, packet.Fine network
  tickets : ∀ ticket ∈ network.tickets, ticket.Fine

/-- What a step may do to a process that stays: its address is fixed, and either
it keeps its version and map or its version grows. -/
structure Evolves (before after : Process) : Prop where
  fine : after.Fine
  ip : after.node.state.ip = before.node.state.ip
  port : after.node.sync.port = before.node.sync.port
  progress : after.node.sync = before.node.sync ∨
    before.node.sync.version < after.node.sync.version
  running : after.phase = .running → before.phase = .running

theorem Evolves.version_le {before after : Process} (h : Evolves before after) :
    before.node.sync.version ≤ after.node.sync.version := by
  rcases h.progress with hsame | hlt
  · rw [hsame]
  · exact Nat.le_of_lt hlt

theorem Outgoing.Fine.mono {before after : GossipNode} {outgoing : Outgoing}
    (h : outgoing.Fine before) (ip : after.state.ip = before.state.ip)
    (version : before.sync.version ≤ after.sync.version) : outgoing.Fine after := by
  unfold Outgoing.Fine at *
  cases hkind : outgoing.kind with
  | heartbeat => rw [hkind] at h; exact ip ▸ h
  | reply => trivial
  | onboarding msg => rw [hkind] at h; exact h
  | departure =>
      rw [hkind] at h
      exact ⟨ip ▸ h.1, Nat.lt_of_lt_of_le h.2 version⟩

theorem afterSend_eq {process : Process} (fine : process.Fine) {outgoing : Outgoing}
    (queued : outgoing ∈ process.outbox) (raises : Bool) :
    afterSend process.node outgoing raises = process.node := by
  have hfine := fine.outbox outgoing queued
  unfold Outgoing.Fine at hfine
  unfold afterSend
  cases hkind : outgoing.kind with
  | heartbeat =>
      rw [hkind] at hfine
      cases raises
      · rfl
      · exact fine.sound.forgetUnreachable hfine
  | reply => cases raises <;> rfl
  | onboarding msg =>
      rw [hkind] at hfine
      cases raises
      · simp [run_noticeDeparture fine.sound, hfine]
      · rfl
  | departure =>
      rw [hkind] at hfine
      cases raises
      · rfl
      · exact fine.sound.forgetUnreachable hfine.1

theorem evolves_write {process : Process} (fine : process.Fine) {node : GossipNode}
    {phase : Phase} (sound : Sound node) (ip : node.state.ip = process.node.state.ip)
    (port : node.sync.port = process.node.sync.port)
    (version : process.node.sync.version < node.sync.version)
    (running : phase = .running → process.phase = .running) :
    Evolves process { process with node, phase } where
  fine :=
    { sound
      started := fun _ => Nat.lt_of_le_of_lt (Nat.zero_le _) version
      outbox := fun outgoing hmem =>
        (fine.outbox outgoing hmem).mono ip (Nat.le_of_lt version) }
  ip := ip
  port := port
  progress := .inr version
  running := running

@[simp] theorem admitted_ip (node : GossipNode) (joiner : Config) :
    (admitted node joiner).state.ip = node.state.ip :=
  (joiner.addedTo_same node.state).ip

theorem admitted_sound {node : GossipNode} (sound : Sound node) {joiner : Config}
    (foreign : joiner.ip ≠ node.state.ip) : Sound (admitted node joiner) := by
  have hsame := joiner.addedTo_same node.state
  refine Sound.publishChange (hsame.locked.trans sound.free)
    (hsame.allSyncMode.trans sound.single) sound.keyed fun ip => ?_
  change ip ∈ (joiner.addedTo node.state).peers ↔ (ip = joiner.ip ∨ ip ∈ node.sync.peers) ∧
    ip ≠ (joiner.addedTo node.state).ip
  rw [Config.mem_addedTo foreign, sound.tracks ip, hsame.ip]
  constructor
  · rintro (rfl | h)
    · exact ⟨.inl rfl, foreign⟩
    · exact ⟨.inr h.1, h.2⟩
  · rintro ⟨rfl | h, hne⟩
    · exact .inl rfl
    · exact .inr ⟨h, hne⟩

theorem OwnEdit.apply_spec {edit : OwnEdit} {before after : State}
    (h : edit.apply before = some after) :
    ∃ allowedIps, after = { before with allowedIps } := by
  cases edit with
  | add allowedIp =>
      cases h
      unfold State.addAllowedIp
      split
      · exact ⟨before.allowedIps, rfl⟩
      · exact ⟨_, rfl⟩
  | remove index =>
      unfold OwnEdit.apply at h
      dsimp only at h
      split at h
      · obtain ⟨allowedIp, _, rfl⟩ := Option.map_eq_some_iff.mp h
        exact ⟨_, rfl⟩
      · cases h

theorem OwnEdit.apply_nonempty {edit : OwnEdit} {before after : State}
    (h : edit.apply before = some after) : after.allowedIps ≠ [] := by
  cases edit with
  | add allowedIp =>
      cases h
      unfold State.addAllowedIp
      split
      · rename_i hlisted
        exact List.ne_nil_of_mem hlisted
      · simp
  | remove index =>
      simp only [OwnEdit.apply] at h
      split at h
      · rename_i hlater
        obtain ⟨allowedIp, hshown, rfl⟩ := Option.map_eq_some_iff.mp h
        obtain ⟨hindex, hat⟩ := List.getElem?_eq_some_iff.mp hshown
        have hlength := List.length_erase_of_mem (List.mem_of_getElem? hshown)
        exact List.ne_nil_of_length_pos (by rw [State.removeAllowedIp, hlength]; omega)
      · cases h

theorem publishOwn_sound {node : GossipNode} (sound : Sound node) (allowedIps : List String) :
    Sound (publishChange { node with state := { node.state with allowedIps } }
      (State.ownChange { node.state with allowedIps })) := by
  refine Sound.publishChange sound.free sound.single sound.keyed fun ip => ?_
  change ip ∈ node.state.peers ↔ (ip = node.state.ip ∨ ip ∈ node.sync.peers) ∧ _
  rw [sound.tracks ip]
  constructor
  · rintro ⟨h, hne⟩
    exact ⟨.inr h, hne⟩
  · rintro ⟨h | h, hne⟩
    · exact absurd h hne
    · exact ⟨h, hne⟩

theorem evolves_departed {process : Process} (fine : process.Fine) :
    Evolves process (departed process) := by
  have hsound := fine.sound
  unfold departed
  dsimp only
  split
  · refine evolves_write fine ⟨hsound.free, hsound.single, ?_, hsound.keyed.erase _⟩ rfl rfl
      (Nat.lt_succ_self _) (fun h => by cases h)
    intro ip
    rw [hsound.tracks ip]
    change _ ↔ ip ∈ process.node.sync.peers.erase process.node.state.ip ∧ _
    rw [AList.mem_erase]
    constructor
    · rintro ⟨h, hne⟩
      exact ⟨⟨hne, h⟩, hne⟩
    · rintro ⟨⟨_, h⟩, hne⟩
      exact ⟨h, hne⟩
  · exact evolves_write fine ⟨hsound.free, hsound.single, hsound.tracks, hsound.keyed⟩ rfl rfl
      (Nat.lt_succ_self _) (fun h => by cases h)

theorem selected_spec {process after : Process} {peerIp : Ip} {kind : SendKind}
    (h : selected process peerIp kind = some after) :
    peerIp ≠ process.node.state.ip ∧
      ∃ number, after = { process with outbox := process.outbox ++ [⟨peerIp, number, kind⟩] } := by
  unfold selected at h
  split at h
  · cases h
  · rename_i hforeign
    split at h
    · cases h
      exact ⟨hforeign, _, rfl⟩
    · cases h

theorem evolves_selected {process after : Process} (fine : process.Fine) {peerIp : Ip}
    {kind : SendKind} (picked : selected process peerIp kind = some after)
    (allowed : peerIp ≠ process.node.state.ip →
      ∀ number, (Outgoing.mk peerIp number kind).Fine process.node) :
    Evolves process after := by
  obtain ⟨hforeign, number, rfl⟩ := selected_spec picked
  refine ⟨⟨fine.sound, fine.started, ?_⟩, rfl, rfl, .inl rfl, fun h => h⟩
  intro outgoing hmem
  rcases List.mem_append.mp hmem with hold | hnew
  · exact fine.outbox outgoing hold
  · rw [List.mem_singleton.mp hnew]
    exact allowed hforeign number

theorem evolves_sent {process : Process} (fine : process.Fine) {outgoing : Outgoing}
    {position : Nat} (queued : process.outbox[position]? = some outgoing) (raises : Bool) :
    Evolves process { process with
      node := afterSend process.node outgoing raises
      outbox := process.outbox.eraseIdx position } := by
  rw [afterSend_eq fine (List.mem_of_getElem? queued)]
  exact ⟨⟨fine.sound, fine.started, fun outgoing hmem =>
    fine.outbox outgoing (List.mem_of_mem_eraseIdx hmem)⟩, rfl, rfl, .inl rfl, fun h => h⟩

theorem Handles.port {msg : Msg} {node after : GossipNode} {next : Option Handled}
    (h : Handles msg node after next) : after.sync.port = node.sync.port := by
  cases h <;> rfl

theorem Handles.progress {msg : Msg} {node after : GossipNode} {next : Option Handled}
    (h : Handles msg node after next) :
    after.sync = node.sync ∨ node.sync.version < after.sync.version := by
  cases h with
  | onboarded _ _ _ _ => exact .inr (Nat.lt_succ_self _)
  | adopted higher _ => exact .inr higher
  | departed higher _ _ => exact .inr higher
  | _ => exact .inl rfl

/-- A reply a handler starts is fine: only a version-zero message, which is no
departure notice, is onboarded. -/
theorem Handles.replyFine {msg : Msg} {node after : GossipNode} {next : Option Handled}
    (h : Handles msg node after next)
    (notice : msg.type = .departureNotice → 0 < msg.version) :
    ∀ outgoing ∈ replyOf msg next, outgoing.Fine after := by
  intro outgoing hmem
  cases h with
  | onboarded zero _ _ _ =>
      rw [List.mem_singleton.mp hmem]
      unfold Outgoing.Fine
      cases htype : msg.type with
      | stateUpdate => exact htype
      | departureNotice => exact absurd (notice htype) (by omega)
  | older _ _ =>
      rw [List.mem_singleton.mp hmem]
      trivial
  | _ => cases hmem

theorem evolves_delivered {process : Process} (fine : process.Fine) {msg : Msg}
    (keyed : Keyed msg.state) (notice : msg.type = .departureNotice → 0 < msg.version) :
    Evolves process (delivered process msg) := by
  have hcases := handleGossip_cases fine.sound keyed
  have hversion := hcases.version_le
  refine ⟨⟨hcases.sound fine.sound keyed, ?_, ?_⟩, hcases.ip, hcases.port, hcases.progress,
    fun h => h⟩
  · intro hphase
    exact Nat.lt_of_lt_of_le (fine.started hphase) hversion
  · intro outgoing hmem
    rcases List.mem_append.mp hmem with hold | hnew
    · exact (fine.outbox outgoing hold).mono hcases.ip hversion
    · exact hcases.replyFine notice outgoing hnew

theorem evolves_stopped {process : Process} (fine : process.Fine)
    (leaving : process.phase = .leaving) :
    Evolves process { process with phase := .stopped } where
  fine := ⟨fine.sound, fun _ => fine.started (by rw [leaving]; decide), fine.outbox⟩
  ip := rfl
  port := rfl
  progress := .inl rfl
  running := fun h => by cases h

theorem Evolves.refl {process : Process} (fine : process.Fine) : Evolves process process :=
  ⟨fine, rfl, rfl, .inl rfl, fun h => h⟩

inductive ProcessesStep (network after : Network) : Prop where
  | evolved {index : Nat} {process changed : Process}
      (member : network.processes[index]? = some process) (evolves : Evolves process changed)
      (processes : after.processes = network.processes.set index changed)
  | started {ticket : Ticket} (member : ticket ∈ network.tickets)
      (processes : after.processes = network.processes ++ [joined ticket])
  | same (processes : after.processes = network.processes)

theorem Stepped.processes {network after : Network} {label : Label}
    (h : Stepped network label after) (sane : Sane network) : ProcessesStep network after := by
  have hfine {index : Nat} {process : Process}
      (member : network.processes[index]? = some process) : process.Fine :=
    sane.processes process (List.mem_of_getElem? member)
  cases h with
  | welcome member _ running _ foreign =>
      exact .evolved member (evolves_write (hfine member)
        (admitted_sound (hfine member).sound foreign) (admitted_ip _ _) rfl (Nat.lt_succ_self _)
        (fun _ => running)) rfl
  | join member => exact .started (List.mem_of_getElem? member) rfl
  | publishOwn member edited running =>
      obtain ⟨allowedIps, rfl⟩ := OwnEdit.apply_spec edited
      exact .evolved member (evolves_write (hfine member)
        (publishOwn_sound (hfine member).sound allowedIps) rfl rfl (Nat.lt_succ_self _)
        (fun _ => running)) rfl
  | heartbeat member picked _ =>
      exact .evolved member (evolves_selected (hfine member) picked fun h _ => h) rfl
  | lost member queued _ => exact .evolved member (evolves_sent (hfine member) queued _) rfl
  | sent member queued _ _ _ => exact .evolved member (evolves_sent (hfine member) queued _) rfl
  | deliver inFlight member _ =>
      have hpacket := sane.packets _ (List.mem_of_getElem? inFlight)
      exact .evolved member (evolves_delivered (hfine member) hpacket.keyed hpacket.notice) rfl
  | drop => exact .same rfl
  | leave member _ => exact .evolved member (evolves_departed (hfine member)) rfl
  | depart member picked leaving =>
      have hstarted := (hfine member).started (by rw [leaving]; decide)
      exact .evolved member (evolves_selected (hfine member) picked
        fun h _ => ⟨h, hstarted⟩) rfl
  | stop member leaving =>
      exact .evolved member (evolves_stopped (hfine member) leaving) rfl

theorem ProcessesStep.process {network after : Network} (h : ProcessesStep network after)
    (sane : Sane network) {index : Nat} {process : Process}
    (member : network.processes[index]? = some process) :
    ∃ changed, after.processes[index]? = some changed ∧ Evolves process changed := by
  have hfine := sane.processes process (List.mem_of_getElem? member)
  cases h with
  | evolved hmember hevolves hprocesses =>
      rename_i moved _ changed
      rw [hprocesses, List.getElem?_set]
      by_cases hindex : moved = index
      · subst hindex
        rw [member] at hmember
        cases hmember
        have hlength := (List.getElem?_eq_some_iff.mp member).1
        exact ⟨changed, by simp [hlength], hevolves⟩
      · exact ⟨process, by simp [hindex, member], .refl hfine⟩
  | started _ hprocesses =>
      rw [hprocesses]
      exact ⟨process, List.getElem?_append_left (List.getElem?_eq_some_iff.mp member).1 ▸ member,
        .refl hfine⟩
  | same hprocesses => exact ⟨process, hprocesses ▸ member, .refl hfine⟩

theorem joined_fine {ticket : Ticket} (fine : ticket.Fine) : (joined ticket).Fine where
  sound :=
    have hsame := ticket.bootstrap.addedTo_same ticket.config.state
    have hip : (ticket.bootstrap.addedTo ticket.config.state).ip = ticket.config.ip := hsame.ip
    { free := hsame.locked
      single := hsame.allSyncMode
      tracks := by
        intro ip
        unfold joined SyncGossip.new
        dsimp only
        rw [Config.mem_addedTo fine.foreign, hip]
        simp only [Dict.mem_set, fine.seed]
        have hnone : ip ∉ ticket.config.state.peers := AList.notMem_empty ip
        have hempty : ip ∉ (∅ : PeerMap) := AList.notMem_empty ip
        constructor
        · rintro (rfl | h)
          · exact ⟨.inl rfl, fine.foreign⟩
          · exact absurd h hnone
        · rintro ⟨h | h | h, hne⟩
          · exact .inl h
          · exact absurd h hne
          · exact absurd h hempty
      keyed :=
        have hown : Keyed (Dict.set ∅ _ (State.ownRecord _ _)) :=
          Dict.All.set (Dict.all_empty _) rfl
        hown.set rfl }
  started := fun h => absurd rfl h
  outbox := fun outgoing hmem => by cases hmem

theorem Packet.Fine.step {network after : Network} {packet : Packet}
    (h : packet.Fine network) (sane : Sane network) (step : ProcessesStep network after)
    (serial : network.serial ≤ after.serial) : packet.Fine after where
  keyed := h.keyed
  notice := h.notice
  numbered := Nat.lt_of_lt_of_le h.numbered serial
  sender := by
    obtain ⟨process, hmember, hsent⟩ := h.sender
    obtain ⟨changed, hchanged, hevolves⟩ := step.process sane hmember
    exact ⟨changed, hchanged, hsent.ip.trans hevolves.ip.symm,
      hsent.port.trans hevolves.port.symm, Nat.le_trans hsent.version hevolves.version_le⟩

theorem stateMsg_notice {process : Process} (fine : process.Fine) {outgoing : Outgoing}
    (queued : outgoing ∈ process.outbox)
    (notice : (stateMsg process.node (isDeparture outgoing.kind)).type = .departureNotice) :
    0 < process.node.sync.version := by
  have hfine := fine.outbox outgoing queued
  unfold Outgoing.Fine at hfine
  cases hkind : outgoing.kind with
  | departure => rw [hkind] at hfine; exact hfine.2
  | _ => rw [hkind] at notice; cases notice

theorem Sane.next {network after : Network} {label : Label} (sane : Sane network)
    (h : Gossip.next network label = some after) : Sane after := by
  have hstep := stepped_of_next h
  have hprocesses := hstep.processes sane
  refine ⟨?_, ?_, ?_⟩
  · intro process hmem
    cases hprocesses with
    | evolved _ hevolves heq =>
        rw [heq] at hmem
        rcases List.mem_or_eq_of_mem_set hmem with hold | rfl
        · exact sane.processes process hold
        · exact hevolves.fine
    | started hticket heq =>
        rw [heq, List.mem_append, List.mem_singleton] at hmem
        rcases hmem with hold | rfl
        · exact sane.processes process hold
        · exact joined_fine (sane.tickets _ hticket)
    | same heq => exact sane.processes process (heq ▸ hmem)
  · have hold (packet : Packet) (hmem : packet ∈ network.packets)
        (hserial : network.serial ≤ after.serial) : packet.Fine after :=
      (sane.packets packet hmem).step sane hprocesses hserial
    intro packet hmem
    cases hstep with
    | sent member queued _ _ _ =>
        rcases List.mem_append.mp hmem with hprevious | hnew
        · exact hold packet hprevious (Nat.le_succ _)
        · obtain rfl := List.mem_singleton.mp hnew
          have hfine := sane.processes _ (List.mem_of_getElem? member)
          obtain ⟨changed, hchanged, hevolves⟩ := hprocesses.process sane member
          exact ⟨hfine.sound.keyed, stateMsg_notice hfine (List.mem_of_getElem? queued),
            Nat.lt_succ_self _, changed, hchanged, hevolves.ip.symm, hevolves.port.symm,
            hevolves.version_le⟩
    | drop => exact hold packet (List.mem_of_mem_eraseIdx hmem) (Nat.le_refl _)
    | _ => exact hold packet hmem (Nat.le_refl _)
  · intro ticket hmem
    cases hstep with
    | welcome member seeded _ _ foreign =>
        rcases List.mem_append.mp hmem with hprevious | hnew
        · exact sane.tickets ticket hprevious
        · obtain rfl := List.mem_singleton.mp hnew
          have hfine := sane.processes _ (List.mem_of_getElem? member)
          exact ⟨hfine.sound.keyed _ _ seeded, fun h => foreign h.symm⟩
    | join _ => exact sane.tickets ticket (List.mem_of_mem_eraseIdx hmem)
    | _ => exact sane.tickets ticket hmem

theorem created_fine (config : Config) : (created config).Fine where
  sound :=
    { free := rfl
      single := rfl
      tracks := by
        intro ip
        have hnone : ip ∉ config.state.peers := AList.notMem_empty ip
        have hempty : ip ∉ (∅ : PeerMap) := AList.notMem_empty ip
        unfold created SyncGossip.new
        dsimp only
        rw [Dict.mem_set]
        constructor
        · intro h
          exact absurd h hnone
        · rintro ⟨h | h, hne⟩
          · exact absurd h hne
          · exact absurd h hempty
      keyed := Dict.All.set (Dict.all_empty _) rfl }
  started := fun h => absurd rfl h
  outbox := fun outgoing hmem => by cases hmem

theorem Sane.create (config : Config) : Sane (Network.create config) where
  processes := by
    intro process hmem
    rw [List.mem_singleton.mp hmem]
    exact created_fine config
  packets := fun packet hmem => by cases hmem
  tickets := fun ticket hmem => by cases hmem

theorem Sane.run {ok : Network → Label → Prop} {first last : Network} (sane : Sane first)
    (h : Run Gossip.next ok first last) : Sane last :=
  h.invariant Sane sane fun _ _ _ _ hsane _ hnext => hsane.next hnext

end WgBp.Gossip
