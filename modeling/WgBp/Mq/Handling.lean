import WgBp.Mq.Node

/-! What a message, a publication and a pass do to a sound node. -/
namespace WgBp.Mq

open WgBp.Library WgBp.Library.Procedure WgBp.Model

/-- Every record says under which port its node publishes. -/
def Ported (peers : PeerMap) : Prop :=
  Dict.All peers fun _ record => ∃ number, record.syncPort = .port number

/-- A node between two steps, outside ALL mode: the lock is free, every listed
foreign peer is configured, and nothing waits at the PUB socket. -/
structure Sound (node : MqNode) : Prop where
  free : node.state.locked = false
  single : node.state.allSyncMode = 0
  foreign : node.state.ip ∉ node.state.peers
  configured : ∀ ip ∈ node.sync.peers, ip ≠ node.state.ip → ip ∈ node.state.peers
  keyed : Keyed node.sync.peers
  ported : Ported node.sync.peers
  flushed : node.sync.pub = []

structure Connects (before after : MessageQueueSync) : Prop where
  port : after.port = before.port
  version : after.version = before.version
  peers : after.peers = before.peers
  pub : after.pub = before.pub
  sub : ∀ endpoint ∈ before.sub, endpoint ∈ after.sub

theorem Connects.refl (sync : MessageQueueSync) : Connects sync sync :=
  ⟨rfl, rfl, rfl, rfl, fun _ h => h⟩

theorem Connects.trans {first mid last : MessageQueueSync} (h₁ : Connects first mid)
    (h₂ : Connects mid last) : Connects first last where
  port := h₂.port.trans h₁.port
  version := h₂.version.trans h₁.version
  peers := h₂.peers.trans h₁.peers
  pub := h₂.pub.trans h₁.pub
  sub := fun endpoint h => h₂.sub endpoint (h₁.sub endpoint h)

theorem connected_connects (sync : MessageQueueSync) (endpoint : Address) :
    Connects sync (sync.connected endpoint) := by
  unfold MessageQueueSync.connected
  split
  · exact .refl sync
  · refine ⟨rfl, rfl, rfl, rfl, ?_⟩
    intro other hother
    exact List.mem_append_left _ hother

theorem subscribed_connects (sync : MessageQueueSync) (virtualIp : Ip) (port : Option Nat) :
    Connects sync (sync.subscribed virtualIp port) := by
  cases port with
  | none => exact .refl sync
  | some number => exact connected_connects sync _

private def enteredNode (node : MqNode) (entry : Σ _ : Ip, PeerRecord) : MqNode where
  state := entered node.state entry.2
  sync :=
    if entry.2.virtualIp = node.state.ip ∨ entry.2.virtualIp ∈ node.state.peers then node.sync
    else match entry.2.syncPort with
      | .port number => node.sync.connected ⟨entry.2.virtualIp, number⟩
      | _ => node.sync

private theorem enteredNode_connects (node : MqNode) (entry : Σ _ : Ip, PeerRecord) :
    Connects node.sync (enteredNode node entry).sync := by
  unfold enteredNode
  dsimp only
  split
  · exact .refl _
  · split
    · exact connected_connects _ _
    · exact .refl _

private theorem enteredNode_foldl (node : MqNode) (entries : List (Σ _ : Ip, PeerRecord)) :
    (entries.foldl enteredNode node).state = enteredAll node.state entries ∧
      Connects node.sync (entries.foldl enteredNode node).sync := by
  induction entries generalizing node with
  | nil => exact ⟨rfl, .refl _⟩
  | cons entry rest ih =>
      obtain ⟨hstate, hsync⟩ := ih (enteredNode node entry)
      exact ⟨hstate, (enteredNode_connects node entry).trans hsync⟩

private theorem run_checkPeer {node : MqNode} {peerIp : Ip} {record : PeerRecord}
    (keyed : record.virtualIp = peerIp) (ported : ∃ number, record.syncPort = .port number) :
    (checkPeer peerIp record).run node = .ok () (enteredNode node ⟨peerIp, record⟩) := by
  subst keyed
  obtain ⟨number, hport⟩ := ported
  unfold checkPeer enteredNode entered
  rw [EStateM.run_bind, EStateM.run_get]
  dsimp only
  by_cases hown : record.virtualIp = node.state.ip
  · simp [hown]
  · simp only [hown, if_false, false_or, EStateM.run_bind, EStateM.run_get]
    cases hfound : node.state.peers.lookup record.virtualIp with
    | some existing =>
        have hmem : record.virtualIp ∈ node.state.peers := Dict.mem_of_lookup hfound
        rw [if_pos hmem]
        exact run_onState node (run_checkAllowedIPs hfound)
    | none =>
        have habsent : record.virtualIp ∉ node.state.peers := AList.lookup_eq_none.mp hfound
        have hadded := run_checkAllowedIPs_added hfound hown rfl
        rw [entered, if_neg hown, hfound] at hadded
        have hgetPort (node : MqNode) : (record.getSyncPort : EStateM Halt MqNode SyncPort).run
            node = .ok (.port number) node := by
          simp [PeerRecord.getSyncPort, hport]
        rw [if_neg habsent, hport]
        have hadd : (onState (modify fun state => state.addPeer record.virtualIp
            record.publicKey record.endpointIp record.endpointPort)).run node =
            .ok () ⟨node.state.addPeer record.virtualIp record.publicKey record.endpointIp
              record.endpointPort, node.sync⟩ := rfl
        simp only [EStateM.run_bind, hadd, hgetPort, connect, EStateM.run_modify,
          EStateM.run_get]
        exact run_onState _ hadded

theorem run_checkForChanges (node : MqNode) (keyed : Keyed node.sync.peers)
    (ported : Ported node.sync.peers) (free : node.state.locked = false) :
    ∃ sync, checkForChanges.run node = .ok () ⟨checked node.sync.peers node.state, sync⟩ ∧
      Connects node.sync sync := by
  have hlock := run_onState node (State.run_lockAquire free)
  have hloop (start : MqNode) : (forM node.sync.peers.entries fun entry =>
      checkPeer entry.1 entry.2).run start =
        .ok () (node.sync.peers.entries.foldl enteredNode start) := by
    refine run_forM (fun _ => True) _ ?_ start trivial
    intro entry hentry start _
    have hlookup := Dict.lookup_of_mem_entries hentry
    exact ⟨run_checkPeer (keyed _ _ hlookup) (ported _ _ hlookup), trivial⟩
  obtain ⟨hstate, hsync⟩ := enteredNode_foldl
    { node with state := { node.state with locked := true } } node.sync.peers.entries
  refine ⟨_, ?_, hsync⟩
  have hremove (start : MqNode) :=
    run_onState start (run_removeUnlisted node.sync.peers start.state)
  have hrelease (start : MqNode) := run_onState start (State.run_lockRelease start.state)
  simp only [checkForChanges, EStateM.run_bind, hlock, EStateM.run_get, hloop, hremove, hrelease,
    hstate]
  rfl

structure Becomes (node : MqNode) (version : Nat) (peers : PeerMap) (sub : List Address)
    (after : MqNode) : Prop where
  sound : Sound after
  address : address after = address node
  version : after.sync.version = version
  peers : after.sync.peers = peers
  sub : ∀ endpoint ∈ sub, endpoint ∈ after.sync.sub

theorem becomes_of_pass {node after : MqNode} (sound : Sound node) (sync : MessageQueueSync)
    (view : after = ⟨node.state, sync⟩) (port : sync.port = node.sync.port)
    (keyed : Keyed sync.peers) (ported : Ported sync.peers) (flushed : sync.pub = []) :
    ∃ last, checkForChanges.run after = .ok () last ∧
      Becomes node sync.version sync.peers sync.sub last := by
  subst view
  obtain ⟨last, hrun, hconnects⟩ :=
    run_checkForChanges ⟨node.state, sync⟩ keyed ported sound.free
  have htracks := checked_tracks keyed sound.single sound.foreign
  refine ⟨_, hrun, ⟨rfl, ?_, htracks.foreign, ?_, ?_, ?_, ?_⟩, ?_, hconnects.version,
    hconnects.peers, hconnects.sub⟩
  · exact (checked_allSyncMode _ _).trans sound.single
  · intro ip hmem hforeign
    exact (htracks ip).mpr ⟨hconnects.peers ▸ hmem, hforeign⟩
  · exact hconnects.peers ▸ keyed
  · exact hconnects.peers ▸ ported
  · exact hconnects.pub.trans flushed
  · simp [address, hconnects.port, port]

theorem run_newer {node : MqNode} (sound : Sound node) {msg : Msg} {version : Nat}
    {peers : PeerMap} (other : msg.sender ≠ address node)
    (body : msg.body = .stateUpdate version peers) (newer : node.sync.version < version)
    (keyed : Keyed peers) (ported : Ported peers) :
    ∃ after, (listenForUpdates msg).run node = .ok () after ∧
      Becomes node version peers node.sync.sub after := by
  obtain ⟨after, hrun, hbecomes⟩ := becomes_of_pass sound
    { node.sync with
      ready := node.sync.ready || node.sync.version = 0
      version := version
      peers := peers } rfl rfl keyed ported sound.flushed
  refine ⟨after, ?_, hbecomes⟩
  simp only [listenForUpdates, EStateM.run_bind, EStateM.run_get, other, body, newer, if_false,
    if_true, EStateM.run_modify]
  exact hrun

theorem run_older {node : MqNode} {msg : Msg} {version : Nat} {peers : PeerMap}
    (other : msg.sender ≠ address node) (body : msg.body = .stateUpdate version peers)
    (older : version < node.sync.version) :
    (listenForUpdates msg).run node = .ok () (publishState node) := by
  have hnot : ¬node.sync.version < version := by omega
  simp [listenForUpdates, other, body, older, hnot]

theorem run_equal {node : MqNode} {msg : Msg} {version : Nat} {peers : PeerMap}
    (other : msg.sender ≠ address node) (body : msg.body = .stateUpdate version peers)
    (equal : version = node.sync.version) : (listenForUpdates msg).run node = .ok () node := by
  simp [listenForUpdates, other, body, equal]

theorem run_departure {node : MqNode} (sound : Sound node) {msg : Msg} {virtualIp : Ip}
    (other : msg.sender ≠ address node) (body : msg.body = .departureNotice virtualIp)
    (listed : virtualIp ∈ node.sync.peers) (connected : msg.sender ∈ node.sync.sub) :
    ∃ after, (listenForUpdates msg).run node = .ok () after ∧
      Becomes node (node.sync.version + 1) (node.sync.peers.erase virtualIp)
        (node.sync.sub.erase msg.sender) after := by
  obtain ⟨record, hrecord⟩ := Dict.mem_iff_lookup.mp listed
  obtain ⟨after, hrun, hbecomes⟩ := becomes_of_pass sound
    { node.sync with
      version := node.sync.version + 1
      peers := node.sync.peers.erase virtualIp
      sub := node.sync.sub.erase msg.sender } rfl rfl (sound.keyed.erase virtualIp)
    (sound.ported.erase virtualIp) sound.flushed
  have hfix (view : MqNode) (hview : view = ⟨node.state, { node.sync with
      version := node.sync.version + 1
      peers := node.sync.peers.erase virtualIp
      sub := node.sync.sub.erase msg.sender }⟩) : selfFix.run view = .ok () view := by
    have hnone : unconfigured view = none := by
      subst hview
      refine List.find?_eq_none.mpr ?_
      intro entry hentry hbad
      have hmem : entry.1 ∈ node.sync.peers.erase virtualIp :=
        Dict.mem_of_lookup (Dict.lookup_of_mem_entries hentry)
      have hkept : entry.1 ∈ node.sync.peers := (AList.mem_erase.mp hmem).2
      simp only [decide_eq_true_eq] at hbad
      exact hbad.2 (sound.configured entry.1 hkept hbad.1)
    simp [selfFix, hnone]
  refine ⟨after, ?_, hbecomes⟩
  have hconnected : (⟨msg.sender.ip, msg.sender.port⟩ : Address) ∈ node.sync.sub := connected
  simp only [listenForUpdates, EStateM.run_bind, EStateM.run_get, other, body, if_false,
    run_getItem_some hrecord, EStateM.run_modify, disconnect, hconnected, if_true, hfix _ rfl]
  exact hrun

/-- The node once its PUB socket has taken everything over. -/
def flush (node : MqNode) : MqNode := { node with sync := { node.sync with pub := [] } }

def update (sender : Address) (version : Nat) (peers : PeerMap) : Msg :=
  ⟨sender, .stateUpdate version peers⟩

def notice (sender : Address) : Msg := ⟨sender, .departureNotice sender.ip⟩

theorem publishState_pub {node : MqNode} (sound : Sound node) :
    (publishState node).sync.pub = [update (address node) node.sync.version node.sync.peers] := by
  simp [publishState, handOver, sound.flushed, update]

theorem flush_publishState {node : MqNode} (sound : Sound node) :
    flush (publishState node) = node := by
  simp [flush, publishState, handOver, ← sound.flushed]

theorem flush_self {node : MqNode} (sound : Sound node) : flush node = node := by
  simp [flush, ← sound.flushed]

theorem Becomes.same {node after : MqNode} (sound : Sound node) (unchanged : after = node) :
    Becomes node node.sync.version node.sync.peers node.sync.sub after := by
  subst unchanged
  exact ⟨sound, rfl, rfl, rfl, fun _ h => h⟩

theorem Sound.addPeer {node : MqNode} (sound : Sound node) (virtualIp : Ip)
    (publicKey endpointIp : String) (endpointPort : Nat) :
    Sound { node with
      state := node.state.addPeer virtualIp publicKey endpointIp endpointPort } := by
  have hsame := State.addPeer_same node.state virtualIp publicKey endpointIp endpointPort
  by_cases hown : virtualIp = node.state.ip
  · have hrefused :
        node.state.addPeer virtualIp publicKey endpointIp endpointPort = node.state := by
      simp [State.addPeer, hown]
    rw [hrefused]
    exact sound
  · have hmem (ip : Ip) := State.mem_addPeer node.state publicKey endpointIp endpointPort ip hown
    refine ⟨hsame.locked.trans sound.free, hsame.allSyncMode.trans sound.single, ?_, ?_,
      sound.keyed, sound.ported, sound.flushed⟩
    · rw [hsame.ip, hmem]
      rintro (h | h)
      · exact hown h.symm
      · exact sound.foreign h
    · intro ip hip hforeign
      rw [hmem]
      exact .inr (sound.configured ip hip (hsame.ip ▸ hforeign))

theorem publishChange_becomes {node : MqNode} (sound : Sound node) {change : Change}
    (ported : change.virtualIp ≠ node.state.ip → portGiven change ≠ none)
    (configured : change.virtualIp ≠ node.state.ip → change.virtualIp ∈ node.state.peers) :
    let peers := node.sync.peers.set change.virtualIp (publishedRecord node change)
    Becomes node (node.sync.version + 1) peers node.sync.sub (flush (publishChange node change)) ∧
      (publishChange node change).sync.pub =
        [update (address node) (node.sync.version + 1) peers] := by
  intro peers
  have hrecord : ∃ number, (publishedRecord node change).syncPort = .port number := by
    by_cases hown : change.virtualIp = node.state.ip
    · exact ⟨node.sync.port, by simp [publishedRecord, hown]⟩
    · obtain ⟨number, hnumber⟩ := Option.ne_none_iff_exists'.mp (ported hown)
      exact ⟨number, by simp [publishedRecord, hown, hnumber]⟩
  have hconfigured : ∀ ip ∈ peers, ip ≠ node.state.ip → ip ∈ node.state.peers := by
    intro ip hmem hforeign
    rcases (Dict.mem_set _ _ _ _).mp hmem with h | h
    · exact h ▸ configured (h ▸ hforeign)
    · exact sound.configured ip h hforeign
  have hsubscribed := subscribed_connects { node.sync with peers } change.virtualIp
    (portGiven change)
  have hpublish : publishChange node change =
      let sync := MessageQueueSync.subscribed { node.sync with peers } change.virtualIp
        (portGiven change)
      publishState { node with sync := { sync with version := sync.version + 1 } } := rfl
  rw [hpublish]
  generalize MessageQueueSync.subscribed { node.sync with peers } change.virtualIp
    (portGiven change) = sync at hsubscribed
  obtain ⟨hport, hversion, hpeers, hpub, hsub⟩ := hsubscribed
  dsimp only at hport hversion hpeers hpub hsub ⊢
  refine ⟨⟨⟨sound.free, sound.single, sound.foreign, ?_, ?_, ?_, rfl⟩, ?_, ?_, ?_, hsub⟩, ?_⟩
  · exact fun ip hmem => hconfigured ip (hpeers ▸ hmem)
  · exact hpeers ▸ sound.keyed.set rfl
  · exact hpeers ▸ sound.ported.set hrecord
  · exact congrArg (Address.mk node.state.ip) hport
  · exact congrArg (· + 1) hversion
  · exact hpeers
  · simp [publishState, handOver, update, address, hport, hversion, hpeers, hpub, sound.flushed]

end WgBp.Mq
