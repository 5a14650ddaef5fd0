import WgBp.Model.Votes
import WgBp.Gossip.Node
import WgBp.Mq.Node
import WgBp.Dht.Pass

/-! The `checkForChanges` of each synchronization module as requests for removals:
whatever its view, and whether or not it raises, a pass asks at most once for
each peer. -/
namespace WgBp.AllSync

open WgBp.Library WgBp.Library.Procedure WgBp.Library.Ballot WgBp.Model

theorem silent_gossip_checkPeer (peerIp : Ip) (peerInfo : PeerRecord) :
    Silent id (Gossip.checkPeer peerIp peerInfo) := by
  unfold Gossip.checkPeer
  refine silent_get.bind fun state => ?_
  split
  · refine silent_get.bind fun state => ?_
    split
    · exact silent_pure _
    · refine (silent_addPeer peerInfo).bind fun _ => ?_
      exact silent_get.bind fun state => silent_checkAllowedIPs _ _
  · exact silent_checkAllowedIPs _ _

theorem asks_gossip (peers : PeerMap) : Asks id (Gossip.checkForChanges peers) := by
  have hloop : Silent id (forM peers.entries fun entry => Gossip.checkPeer entry.1 entry.2) :=
    Silent.forM _ fun entry => silent_gossip_checkPeer entry.1 entry.2
  have hreconcile : Asks id (Gossip.reconcile peers) :=
    hloop.bind_asks fun _ => asks_removeUnlisted peers
  exact silent_lockAquire.bind_asks fun _ => hreconcile.bind_right fun _ => silent_lockRelease

theorem silent_onState {τ α : Type} {body : EStateM Halt State α} (silent : Silent id body) :
    Silent (Node.state : Node τ → State) (onState body) :=
  silent.onPart fun _ _ => rfl

theorem silent_mq_connect (virtualIp : Ip) (syncPort : SyncPort) :
    Silent Node.state (Mq.connect virtualIp syncPort) := by
  unfold Mq.connect
  split
  · exact silent_modify fun _ => .refl _
  · exact silent_throw _

theorem silent_mq_checkPeer (peerIp : Ip) (peerInfo : PeerRecord) :
    Silent Node.state (Mq.checkPeer peerIp peerInfo) := by
  unfold Mq.checkPeer
  refine silent_get.bind fun node => ?_
  split
  · exact silent_pure _
  · refine silent_get.bind fun node => ?_
    split
    · refine (silent_onState (silent_addPeer peerInfo)).bind fun _ => ?_
      refine Silent.bind ?_ fun port => (silent_mq_connect _ port).bind fun _ =>
        silent_get.bind fun node => silent_onState (silent_checkAllowedIPs _ _)
      unfold PeerRecord.getSyncPort
      split
      · exact silent_throw _
      · exact silent_pure _
    · exact silent_onState (silent_checkAllowedIPs _ _)

theorem asks_mq : Asks Node.state Mq.checkForChanges := by
  unfold Mq.checkForChanges
  refine (silent_onState silent_lockAquire).bind_asks fun _ => ?_
  refine silent_get.bind_asks fun node => ?_
  have hloop : Silent Node.state (forM node.sync.peers.entries fun entry =>
      Mq.checkPeer entry.1 entry.2) :=
    Silent.forM _ fun entry => silent_mq_checkPeer entry.1 entry.2
  refine hloop.bind_asks fun _ => ?_
  refine Asks.bind_right ?_ fun _ => silent_onState silent_lockRelease
  exact (asks_removeUnlisted node.sync.peers).onPart fun _ _ => rfl

theorem silent_dht_checkKey (key : Ip) (info : PeerRecord) (existingPeer : Option PeerInfo) :
    Silent id (Dht.checkKey key (some info) existingPeer) := by
  unfold Dht.checkKey
  refine silent_get.bind fun state => ?_
  split
  · exact (silent_checkAllowedIPs _ _).bind fun _ => silent_pure _
  · refine silent_get.bind fun state => ?_
    split
    · exact silent_pure _
    · refine (silent_addPeer info).bind fun _ => silent_get.bind fun state =>
        (silent_checkAllowedIPs _ _).bind fun _ => ?_
      split
      · exact silent_throw _
      · exact (silent_checkAllowedIPs _ _).bind fun _ => silent_pure _

theorem voted_dht_checkKey (key : Ip) (peerInfo : Option PeerRecord)
    (existingPeer : Option PeerInfo) {state : State} (mode : state.allSyncMode ≠ 0) :
    ∃ requests, requests.Sublist [key] ∧
      Voted state (final ((Dht.checkKey key peerInfo existingPeer).run state)) requests := by
  cases peerInfo with
  | some info =>
      exact ⟨[], List.nil_sublist _, (silent_dht_checkKey key info existingPeer).voted state⟩
  | none =>
      by_cases hlisted : key ∈ state.peers
      · have hrun : (Dht.checkKey key none existingPeer).run state =
            .ok existingPeer (state.removePeer key) := by
          simp only [Dht.checkKey, EStateM.run_bind, EStateM.run_get, hlisted, if_true]
          rfl
        rw [hrun]
        exact ⟨[key], List.Sublist.refl _, voted_removePeer mode key⟩
      · have hrun : (Dht.checkKey key none existingPeer).run state = .ok existingPeer state := by
          simp [Dht.checkKey, hlisted]
        rw [hrun]
        exact ⟨[], List.nil_sublist _, .refl state⟩

theorem voted_checkKeys (store : Dht.Store) (keys : List Ip) (existingPeer : Option PeerInfo)
    (state : State) (mode : state.allSyncMode ≠ 0) :
    ∃ requests, requests.Sublist keys ∧
      Voted state (final ((Dht.checkKeys store keys existingPeer).run state)) requests := by
  induction keys generalizing existingPeer state with
  | nil => exact ⟨[], List.Sublist.refl _, .refl _⟩
  | cons key rest ih =>
      obtain ⟨requests, hsub, hvoted⟩ :=
        voted_dht_checkKey key (store.stored key) existingPeer mode
      rw [Dht.checkKeys_cons, EStateM.run_bind]
      cases hrun : (Dht.checkKey key (store.stored key) existingPeer).run state with
      | error error after =>
          rw [hrun] at hvoted
          exact ⟨requests, hsub.trans (by simp), hvoted⟩
      | ok value after =>
          rw [hrun] at hvoted
          have hmode : after.allSyncMode ≠ 0 := hvoted.mode ▸ mode
          obtain ⟨others, hothers, hrest⟩ := ih value after hmode
          exact ⟨requests ++ others, hsub.append hothers, hvoted.trans hrest⟩

theorem asks_dht (site : Dht.Site) (mode : site.node.state.allSyncMode ≠ 0)
    (nodup : ∀ keys, site.store.keyList = some keys → keys.Nodup) :
    ∃ requests, requests.Nodup ∧ Voted site.node.state
      (final ((Dht.checkForChanges.run Dht.handle).run site)).node.state requests := by
  obtain ⟨store, ⟨state, sync⟩⟩ := site
  have hlock : Voted state { state with locked := true } [] := voted_same rfl rfl rfl rfl
  by_cases hlocked : state.locked = true
  · rw [Dht.run_checkForChanges_held store sync hlocked]
    exact ⟨[], List.nodup_nil, .refl state⟩
  · have hfree : state.locked = false := by simpa using hlocked
    cases hkeys : store.keyList with
    | none =>
        rw [Dht.run_checkForChanges_unset hkeys sync hfree]
        exact ⟨[], List.nodup_nil, hlock⟩
    | some keys =>
        obtain ⟨requests, hsub, hvoted⟩ :=
          voted_checkKeys store keys none { state with locked := true } mode
        refine ⟨requests, (nodup keys hkeys).sublist hsub, ?_⟩
        have hloop := hlock.trans hvoted
        rw [Dht.run_checkForChanges hkeys sync hfree]
        cases hrun : (Dht.checkKeys store keys none).run { state with locked := true } with
        | error error after =>
            rw [hrun] at hloop
            exact hloop
        | ok value after =>
            rw [hrun] at hloop
            have hrelease : Voted after { after with locked := false } [] :=
              voted_same rfl rfl rfl rfl
            simpa using hloop.trans hrelease

end WgBp.AllSync
