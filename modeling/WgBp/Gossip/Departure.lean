import WgBp.Gossip.Handling
import WgBp.Gossip.Pass

/-! Departure notices on a receiver in any condition. A notice goes through the
version comparison of ordinary updates before anything looks at its type. -/
namespace WgBp.Gossip

open WgBp.Library WgBp.Library.Procedure WgBp.Model

def lastGossip (leaver : GossipNode) : GossipNode :=
  { leaver with sync := { leaver.sync with
      version := leaver.sync.version + 1
      peers := leaver.sync.peers.erase leaver.state.ip } }

def lastNotice (leaver : GossipNode) : Msg := stateMsg (lastGossip leaver) true

def Gone (ip : Ip) (node : GossipNode) : Prop := ip ∉ node.sync.peers ∧ ip ∉ node.state.peers

theorem unlisted_lastNotice (leaver : GossipNode) :
    leaver.state.ip ∉ (lastNotice leaver).state := by
  intro hmem
  exact (AList.mem_erase.mp hmem).1 rfl

theorem run_noticeDeparture_unlisted {node : GossipNode} {msg : Msg}
    (unlisted : msg.fromIp ∉ node.sync.peers) : (noticeDeparture msg).run node = .ok () node := by
  unfold noticeDeparture
  by_cases hnotice : msg.type = .departureNotice <;> simp [hnotice, unlisted]

def noticed (leaver receiver : GossipNode) : GossipNode where
  state := passed (lastNotice leaver).state receiver.state
  sync := { receiver.sync with
    version := (lastNotice leaver).version
    peers := (lastNotice leaver).state }

theorem run_newer_lastNotice {leaver receiver : GossipNode} (keyed : Keyed leaver.sync.peers)
    (free : receiver.state.locked = false)
    (newer : receiver.sync.version < leaver.sync.version + 1) :
    (handleGossip (lastNotice leaver)).run receiver = .ok .done (noticed leaver receiver) := by
  have hpositive : (lastNotice leaver).version ≠ 0 := Nat.succ_ne_zero _
  have hlower : ¬(lastNotice leaver).version < receiver.sync.version := Nat.lt_asymm newer
  have hequal : (lastNotice leaver).version ≠ receiver.sync.version := Nat.ne_of_gt newer
  have hkeyed : Keyed (lastNotice leaver).state := keyed.erase leaver.state.ip
  have hpass : (onState (checkForChanges (lastNotice leaver).state) :
      EStateM Halt GossipNode Unit).run
        { receiver with sync := { receiver.sync with
            version := (lastNotice leaver).version
            peers := (lastNotice leaver).state } } = .ok () (noticed leaver receiver) :=
    run_onState _ (run_checkForChanges_keyed hkeyed free)
  have hnotice : (noticeDeparture (lastNotice leaver)).run (noticed leaver receiver) =
      .ok () (noticed leaver receiver) :=
    run_noticeDeparture_unlisted (unlisted_lastNotice leaver)
  simp only [handleGossip, hpositive, hlower, hequal, if_false, EStateM.run_bind, EStateM.run_get,
    EStateM.run_modify, hpass, hnotice]
  rfl

theorem noticed_gone {leaver receiver : GossipNode} (single : receiver.state.allSyncMode = 0) :
    Gone leaver.state.ip (noticed leaver receiver) := by
  have hunlisted := unlisted_lastNotice leaver
  exact ⟨hunlisted, AList.lookup_eq_none.mp (lookup_passed_unlisted single hunlisted)⟩

theorem run_late_lastNotice {leaver receiver : GossipNode}
    (late : ¬receiver.sync.version < leaver.sync.version + 1) :
    ∃ handled, (handleGossip (lastNotice leaver)).run receiver = .ok handled receiver := by
  have hpositive : (lastNotice leaver).version ≠ 0 := Nat.succ_ne_zero _
  rcases Nat.lt_or_eq_of_le (Nat.le_of_not_lt late) with hlower | hequal
  · have hnotice : (lastNotice leaver).version < receiver.sync.version := hlower
    refine ⟨.replying leaver.state.ip leaver.sync.port false, ?_⟩
    simp only [handleGossip, hpositive, hnotice, if_false, if_true, EStateM.run_bind,
      EStateM.run_get]
    rfl
  · have hnotice : (lastNotice leaver).version = receiver.sync.version := hequal
    have hversion : receiver.sync.version ≠ 0 := hnotice ▸ hpositive
    exact ⟨.done, by simp [handleGossip, hnotice, hversion]⟩

theorem departure_notice_honoured {leaver receiver : GossipNode}
    (keyed : Keyed leaver.sync.peers) (free : receiver.state.locked = false)
    (single : receiver.state.allSyncMode = 0) :
    ∃ handled after, (handleGossip (lastNotice leaver)).run receiver = .ok handled after ∧
      (Gone leaver.state.ip after ↔
        receiver.sync.version < leaver.sync.version + 1 ∨ Gone leaver.state.ip receiver) := by
  by_cases hnewer : receiver.sync.version < leaver.sync.version + 1
  · have hgone : Gone leaver.state.ip (noticed leaver receiver) := noticed_gone single
    exact ⟨_, _, run_newer_lastNotice keyed free hnewer,
      fun _ => .inl hnewer, fun _ => hgone⟩
  · obtain ⟨handled, hrun⟩ := run_late_lastNotice hnewer
    exact ⟨handled, receiver, hrun, .inr, fun h => h.resolve_left hnewer⟩

/-! A node that has admitted a third one, and a peer that leaves before it hears of that. -/

def remainingRecord : PeerRecord :=
  ⟨"10.0.0.1", "ka", "198.51.100.1", 51820, .port 6888, ["10.0.0.1/32"]⟩
def leavingRecord : PeerRecord :=
  ⟨"10.0.0.2", "kb", "198.51.100.2", 51820, .port 6888, ["10.0.0.2/32"]⟩
def latestChange : Change := ⟨"10.0.0.3", "kc", "198.51.100.3", 51820, none, some 6888⟩

def commonMap : PeerMap := (Dict.set ∅ "10.0.0.1" remainingRecord).set "10.0.0.2" leavingRecord

def remainingNode : GossipNode where
  state := (State.new "10.0.0.1" "ka" "198.51.100.1" 51820).addPeer "10.0.0.2" "kb"
    "198.51.100.2" 51820
  sync := ⟨6888, 2, commonMap⟩

def admittingNode : GossipNode := publishChange
  { remainingNode with state := remainingNode.state.addPeer "10.0.0.3" "kc" "198.51.100.3" 51820 }
  latestChange

def leavingNode : GossipNode where
  state := (State.new "10.0.0.2" "kb" "198.51.100.2" 51820).addPeer "10.0.0.1" "ka"
    "198.51.100.1" 51820
  sync := ⟨6888, 2, commonMap⟩

theorem departure_notice_honoured_inTime :
    ∃ handled after, (handleGossip (lastNotice leavingNode)).run remainingNode =
      .ok handled after ∧ Gone "10.0.0.2" after := by
  have hkeyed : Keyed leavingNode.sync.peers := by decide
  have hnewer : remainingNode.sync.version < leavingNode.sync.version + 1 := by decide
  obtain ⟨handled, after, hrun, hgone⟩ :=
    @departure_notice_honoured leavingNode remainingNode hkeyed rfl rfl
  exact ⟨handled, after, hrun, hgone.mpr (.inl hnewer)⟩

theorem departure_notice_honoured_fails :
    ¬ ∀ leaver receiver : GossipNode, Keyed leaver.sync.peers → receiver.state.locked = false →
      receiver.state.allSyncMode = 0 →
        ∃ handled after, (handleGossip (lastNotice leaver)).run receiver = .ok handled after ∧
          Gone leaver.state.ip after := by
  intro claimed
  obtain ⟨handled, after, hrun, hview, -⟩ :=
    claimed leavingNode admittingNode (by decide) rfl rfl
  cases hrun
  exact hview (by decide)

end WgBp.Gossip
