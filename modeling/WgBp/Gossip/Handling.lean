import WgBp.Gossip.Node

/-! What handling one message can do to a sound node, as one case analysis, and
that every operation of the module keeps the node sound. -/
namespace WgBp.Gossip

open WgBp.Library WgBp.Library.Procedure WgBp.Model

/-- A node between two steps, outside ALL mode: the lock is free, `State` tracks
the view, and every record is filed under its own virtual IP. -/
structure Sound (node : GossipNode) : Prop where
  free : node.state.locked = false
  single : node.state.allSyncMode = 0
  tracks : Tracks node.state node.sync.peers
  keyed : Keyed node.sync.peers

theorem Sound.checked_run {node : GossipNode} (sound : Sound node) {peers : PeerMap}
    (keyed : Keyed peers) :
    (checkForChanges peers).run node.state = .ok () (checked peers node.state) :=
  run_checkForChanges keyed sound.tracks.foreign sound.free

def onboards (node : GossipNode) (msg : Msg) : Bool :=
  msg.version = 0 &&
    match msg.state.lookup msg.fromIp with
    | some newPeer => newPeer.virtualIp ∈ node.sync.peers && newPeer.syncPort ≠ .missing
    | none => false

def onboard (node : GossipNode) (newPeer known : PeerRecord) : GossipNode :=
  { node with sync := { node.sync with
      version := node.sync.version + 1
      peers := node.sync.peers.set newPeer.virtualIp
        { known with syncPort := newPeer.syncPort } } }

def adopt (node : GossipNode) (msg : Msg) : GossipNode where
  state := checked msg.state node.state
  sync := { node.sync with version := msg.version, peers := msg.state }

def forget (node : GossipNode) (peerIp : Ip) : GossipNode where
  state := checked (node.sync.peers.erase peerIp) node.state
  sync := { node.sync with peers := node.sync.peers.erase peerIp }

/-- What a node becomes by handling a message, and what it does next; no
continuation when the handler raised. -/
inductive Handles (msg : Msg) (node : GossipNode) : GossipNode → Option Handled → Prop where
  | onboarded {newPeer known : PeerRecord} (zero : msg.version = 0)
      (announced : msg.state.lookup msg.fromIp = some newPeer)
      (found : node.sync.peers.lookup newPeer.virtualIp = some known)
      (ported : newPeer.syncPort ≠ .missing) :
      Handles msg node (onboard node newPeer known)
        (some (.replying msg.fromIp msg.fromPort true))
  | raised (zero : msg.version = 0) : Handles msg node node none
  | older (positive : msg.version ≠ 0) (lower : msg.version < node.sync.version) :
      Handles msg node node (some (.replying msg.fromIp msg.fromPort false))
  | equal (positive : msg.version ≠ 0) (same : msg.version = node.sync.version) :
      Handles msg node node (some .done)
  | adopted (higher : node.sync.version < msg.version)
      (stays : msg.type = .stateUpdate ∨ msg.fromIp ∉ msg.state) :
      Handles msg node (adopt node msg) (some .done)
  | departed (higher : node.sync.version < msg.version) (notice : msg.type = .departureNotice)
      (listed : msg.fromIp ∈ msg.state) :
      Handles msg node (forget (adopt node msg) msg.fromIp) (some .done)

def outcome : EStateM.Result Halt GossipNode Handled → Option Handled
  | .ok handled _ => some handled
  | .error _ _ => none

theorem Sound.adopt {node : GossipNode} (sound : Sound node) {msg : Msg}
    (keyed : Keyed msg.state) : Sound (adopt node msg) where
  free := rfl
  single := (checked_allSyncMode _ _).trans sound.single
  tracks := checked_tracks keyed sound.single sound.tracks.foreign
  keyed := keyed

theorem Sound.forget {node : GossipNode} (sound : Sound node) (peerIp : Ip) :
    Sound (forget node peerIp) where
  free := rfl
  single := (checked_allSyncMode _ _).trans sound.single
  tracks := checked_tracks (sound.keyed.erase peerIp) sound.single sound.tracks.foreign
  keyed := sound.keyed.erase peerIp

theorem Sound.onboard {node : GossipNode} (sound : Sound node) {newPeer known : PeerRecord}
    (found : node.sync.peers.lookup newPeer.virtualIp = some known) :
    Sound (onboard node newPeer known) where
  free := sound.free
  single := sound.single
  tracks := by
    intro ip
    have hmem : newPeer.virtualIp ∈ node.sync.peers := Dict.mem_of_lookup found
    rw [show (Gossip.onboard node newPeer known).state = node.state from rfl, sound.tracks ip]
    unfold Gossip.onboard
    rw [Dict.mem_set]
    constructor
    · rintro ⟨h, hne⟩
      exact ⟨.inr h, hne⟩
    · rintro ⟨h | h, hne⟩
      · exact ⟨h ▸ hmem, hne⟩
      · exact ⟨h, hne⟩
  keyed := sound.keyed.set (sound.keyed _ known found)

theorem run_noticeDeparture {node : GossipNode} (sound : Sound node) (msg : Msg) :
    (noticeDeparture msg).run node = .ok ()
      (if msg.type = .departureNotice ∧ msg.fromIp ∈ node.sync.peers then
        forget node msg.fromIp
      else node) := by
  unfold noticeDeparture
  by_cases hnotice : msg.type = .departureNotice
  · by_cases hlisted : msg.fromIp ∈ node.sync.peers
    · have hrun := sound.checked_run (sound.keyed.erase msg.fromIp)
      simp only [hnotice, hlisted, if_true, and_self, EStateM.run_bind, EStateM.run_get,
        EStateM.run_modify]
      exact run_onState { node with sync := { node.sync with
        peers := node.sync.peers.erase msg.fromIp } } hrun
    · simp [hnotice, hlisted]
  · simp [hnotice]

/-- The onboarding branch either goes through or raises without having changed anything. -/
theorem run_handleGossip_zero (node : GossipNode) {msg : Msg} (zero : msg.version = 0) :
    (∃ newPeer known, msg.state.lookup msg.fromIp = some newPeer ∧
      node.sync.peers.lookup newPeer.virtualIp = some known ∧ newPeer.syncPort ≠ .missing ∧
      (handleGossip msg).run node =
        .ok (.replying msg.fromIp msg.fromPort true) (onboard node newPeer known)) ∨
    (handleGossip msg).run node = .error (.raised .keyError) node := by
  cases hnew : msg.state.lookup msg.fromIp with
  | none => exact .inr (by simp [handleGossip, zero, run_getItem_none hnew])
  | some newPeer =>
    cases hknown : node.sync.peers.lookup newPeer.virtualIp with
    | none =>
      exact .inr (by simp [handleGossip, zero, run_getItem_some hnew, run_getItem_none hknown])
    | some known =>
      by_cases hport : newPeer.syncPort = .missing
      · refine .inr ?_
        simp only [handleGossip, zero, if_true, EStateM.run_bind, EStateM.run_get,
          run_getItem_some hnew, run_getItem_some hknown, PeerRecord.getSyncPort, hport]
        rfl
      · refine .inl ⟨newPeer, known, rfl, hknown, hport, ?_⟩
        simp only [handleGossip, zero, if_true, EStateM.run_bind, EStateM.run_get,
          run_getItem_some hnew, run_getItem_some hknown, PeerRecord.getSyncPort, hport,
          if_false, EStateM.run_pure, EStateM.run_modify]
        rfl

theorem final_handleGossip_known {node : GossipNode} {msg : Msg} (positive : msg.version ≠ 0)
    (known : msg.version ≤ node.sync.version) :
    final ((handleGossip msg).run node) = node := by
  rcases Nat.lt_or_eq_of_le known with hlower | hequal
  · simp [handleGossip, positive, hlower]
  · have hversion : node.sync.version ≠ 0 := hequal ▸ positive
    simp [handleGossip, hequal, hversion]

theorem run_handleGossip_higher {node : GossipNode} (sound : Sound node) {msg : Msg}
    (keyed : Keyed msg.state) (higher : node.sync.version < msg.version) :
    (handleGossip msg).run node = .ok .done
      (if msg.type = .departureNotice ∧ msg.fromIp ∈ msg.state then
        forget (adopt node msg) msg.fromIp
      else adopt node msg) := by
  have hzero : msg.version ≠ 0 := by omega
  have hlower : ¬ msg.version < node.sync.version := by omega
  have hequal : msg.version ≠ node.sync.version := by omega
  have hpass : (onState (checkForChanges msg.state) : EStateM Halt GossipNode Unit).run
      { node with sync := { node.sync with version := msg.version, peers := msg.state } } =
      .ok () (adopt node msg) :=
    run_onState { node with sync := { node.sync with
      version := msg.version, peers := msg.state } } (sound.checked_run keyed)
  simp only [handleGossip, hzero, hlower, hequal, if_false, EStateM.run_bind,
    EStateM.run_get, EStateM.run_modify, hpass, run_noticeDeparture (sound.adopt keyed),
    EStateM.run_pure]
  rfl

theorem handleGossip_cases {node : GossipNode} (sound : Sound node) {msg : Msg}
    (keyed : Keyed msg.state) :
    Handles msg node (final ((handleGossip msg).run node))
      (outcome ((handleGossip msg).run node)) := by
  by_cases hzero : msg.version = 0
  · rcases run_handleGossip_zero node hzero with
      ⟨newPeer, known, hnew, hknown, hport, hrun⟩ | hrun
    · rw [hrun]
      exact .onboarded hzero hnew hknown hport
    · rw [hrun]
      exact .raised hzero
  · by_cases hlower : msg.version < node.sync.version
    · have hrun : (handleGossip msg).run node =
          .ok (.replying msg.fromIp msg.fromPort false) node := by
        simp [handleGossip, hzero, hlower]
      rw [hrun]
      exact .older hzero hlower
    · by_cases hequal : msg.version = node.sync.version
      · have hpositive : node.sync.version ≠ 0 := hequal ▸ hzero
        have hrun : (handleGossip msg).run node = .ok .done node := by
          simp [handleGossip, hequal, hpositive]
        rw [hrun]
        exact .equal hzero hequal
      · have hhigher : node.sync.version < msg.version := by omega
        rw [run_handleGossip_higher sound keyed hhigher]
        by_cases hnotice : msg.type = .departureNotice ∧ msg.fromIp ∈ msg.state
        · rw [if_pos hnotice]
          exact .departed hhigher hnotice.1 hnotice.2
        · rw [if_neg hnotice]
          refine .adopted hhigher ?_
          cases htype : msg.type with
          | stateUpdate => exact .inl rfl
          | departureNotice => exact .inr fun hmem => hnotice ⟨htype, hmem⟩

theorem Handles.sound {msg : Msg} {node after : GossipNode} {next : Option Handled}
    (h : Handles msg node after next) (sound : Sound node) (keyed : Keyed msg.state) :
    Sound after := by
  cases h with
  | onboarded _ _ found _ => exact sound.onboard found
  | raised _ => exact sound
  | older _ _ => exact sound
  | equal _ _ => exact sound
  | adopted _ _ => exact sound.adopt keyed
  | departed _ _ _ => exact (sound.adopt keyed).forget msg.fromIp

theorem Handles.ip {msg : Msg} {node after : GossipNode} {next : Option Handled}
    (h : Handles msg node after next) : after.state.ip = node.state.ip := by
  cases h with
  | adopted _ _ => exact checked_ip _ _
  | departed _ _ _ => exact (checked_ip _ _).trans (checked_ip _ _)
  | _ => rfl

theorem Handles.version_le {msg : Msg} {node after : GossipNode} {next : Option Handled}
    (h : Handles msg node after next) : node.sync.version ≤ after.sync.version := by
  cases h with
  | onboarded _ _ _ _ => exact Nat.le_succ _
  | adopted higher _ => exact Nat.le_of_lt higher
  | departed higher _ _ => exact Nat.le_of_lt higher
  | _ => exact Nat.le_refl _

/-- While `State` tracks the view, no listed foreign peer is ever unreachable for
good: the exception path of a send changes nothing. -/
theorem Sound.forgetUnreachable {node : GossipNode} (sound : Sound node) {peerIp : Ip}
    (foreign : peerIp ≠ node.state.ip) : forgetUnreachable node peerIp = node := by
  unfold Gossip.forgetUnreachable
  split
  · rfl
  · rename_i hunknown
    have hunlisted : peerIp ∉ node.sync.peers := fun hmem =>
      hunknown ((sound.tracks peerIp).mpr ⟨hmem, foreign⟩)
    have herase : node.sync.peers.erase peerIp = node.sync.peers :=
      AList.ext (List.kerase_of_notMem_keys hunlisted)
    rw [herase]

theorem Sound.publishChange {node : GossipNode} {change : Change} (free : node.state.locked = false)
    (single : node.state.allSyncMode = 0) (keyed : Keyed node.sync.peers)
    (tracks : ∀ ip, ip ∈ node.state.peers ↔
      (ip = change.virtualIp ∨ ip ∈ node.sync.peers) ∧ ip ≠ node.state.ip) :
    Sound (publishChange node change) where
  free := free
  single := single
  tracks := by
    intro ip
    rw [show (Gossip.publishChange node change).state = node.state from rfl, tracks ip]
    unfold Gossip.publishChange
    rw [Dict.mem_set]
  keyed := keyed.set rfl

end WgBp.Gossip
