import WgBp.Mq.Node

/-! Passes of `MessageQueueSync` over a view in which ports may be missing. Such a record
makes a pass raise only where it would have to connect; what has nothing to do with `State`
or the connections is kept in either case. -/
namespace WgBp.Mq

open WgBp.Library WgBp.Library.Procedure WgBp.Model

theorem checkPeer_returned {node after : MqNode} {peerIp : Ip} {record : PeerRecord}
    (keyed : record.virtualIp = peerIp)
    (returns : (checkPeer peerIp record).run node = .ok () after) :
    after.state = entered node.state record := by
  subst keyed
  obtain ⟨_, _, hget, hbody⟩ := bind_returned returns
  cases hget
  unfold entered
  by_cases hown : record.virtualIp = node.state.ip
  · rw [if_pos hown] at hbody
    cases hbody
    rw [if_pos hown]
  · rw [if_neg hown] at hbody ⊢
    obtain ⟨_, _, hget, hpeer⟩ := bind_returned hbody
    cases hget
    cases hfound : node.state.peers.lookup record.virtualIp with
    | some existing =>
        rw [hfound] at hpeer
        have hcheck := run_onState node (run_checkAllowedIPs hfound)
        cases hcheck.symm.trans hpeer
        rfl
    | none =>
        rw [hfound] at hpeer
        obtain ⟨_, added, hadd, hrest⟩ := bind_returned hpeer
        cases hadd
        obtain ⟨port, ported, hport, hrest⟩ := bind_returned hrest
        obtain ⟨_, connected, hconnect, hrest⟩ := bind_returned hrest
        have hported : ported.state = node.state.addPeer record.virtualIp record.publicKey
            record.endpointIp record.endpointPort := by
          unfold PeerRecord.getSyncPort at hport
          split at hport
          · cases hport
          · cases hport
            rfl
        have hconnected : connected.state = ported.state := by
          unfold connect at hconnect
          split at hconnect
          · cases hconnect
            rfl
          · cases hconnect
        obtain ⟨_, _, hget, hcheck⟩ := bind_returned hrest
        cases hget
        have hadded := run_checkAllowedIPs_added hfound hown (hconnected.trans hported)
        cases (run_onState connected hadded).symm.trans hcheck
        rw [entered, if_neg hown, hfound]

theorem checkForChanges_returned {node after : MqNode} (keyed : Keyed node.sync.peers)
    (returns : checkForChanges.run node = .ok () after) :
    after.state = checked node.sync.peers node.state := by
  obtain ⟨_, locked, hlock, hrest⟩ := bind_returned returns
  obtain ⟨_, _, hget, hrest⟩ := bind_returned hrest
  cases hget
  obtain ⟨_, looped, hloop, hrest⟩ := bind_returned hrest
  obtain ⟨_, removed, hremove, hrelease⟩ := bind_returned hrest
  have hlocked : locked = { node with state := { node.state with locked := true } } := by
    obtain ⟨state, hacquire, rfl⟩ := onState_returned hlock
    rw [(State.lockAquire_returned hacquire).2]
  subst hlocked
  have hentered : looped.state =
      enteredAll { node.state with locked := true } node.sync.peers.entries := by
    refine returned_forM Node.state _ ?_ hloop
    intro entry hentry before after hreturns
    exact checkPeer_returned (keyed _ _ (Dict.lookup_of_mem_entries hentry)) hreturns
  rw [run_onState looped (run_removeUnlisted _ _)] at hremove
  cases hremove
  cases hrelease
  change { removedAll _ looped.state looped.state.peers.entries with locked := false } = _
  rw [hentered]
  rfl

/-- What does not depend on the `State` or the connections, so that a pass leaves it as it
is. -/
structure Blind (inv : MqNode → Prop) : Prop where
  state : ∀ node state, inv node → inv { node with state }
  sub : ∀ node sub, inv node → inv { node with sync := { node.sync with sub } }

variable {inv : MqNode → Prop}

theorem Blind.keeps_onState (blind : Blind inv) {α : Type} (body : EStateM Halt State α) :
    Keeps inv (onState body : EStateM Halt MqNode α) := by
  intro node hnode
  rw [final_onState]
  exact blind.state _ _ hnode

theorem keeps_sync_port (record : PeerRecord) :
    Keeps inv (record.getSyncPort : EStateM Halt MqNode SyncPort) := by
  unfold PeerRecord.getSyncPort
  split
  · exact Keeps.throw _ _
  · exact Keeps.pure _ _

theorem Blind.keeps_connect (blind : Blind inv) (virtualIp : Ip) (syncPort : SyncPort) :
    Keeps inv (connect virtualIp syncPort) := by
  unfold connect
  split
  · refine Keeps.modify fun node hnode => ?_
    unfold MessageQueueSync.connected
    split
    · exact hnode
    · exact blind.sub _ _ hnode
  · exact Keeps.throw _ _

theorem Blind.keeps_disconnect (blind : Blind inv) (virtualIp : Ip) (syncPort : SyncPort) :
    Keeps inv (disconnect virtualIp syncPort) := by
  unfold disconnect
  split
  · refine Keeps.bind (Keeps.get _) fun node => ?_
    split
    · exact Keeps.modify fun _ hnode => blind.sub _ _ hnode
    · exact Keeps.throw _ _
  · exact Keeps.throw _ _

theorem Blind.keeps_checkForChanges (blind : Blind inv) : Keeps inv checkForChanges := by
  refine Keeps.bind (blind.keeps_onState _) fun _ => Keeps.bind (Keeps.get _) fun node => ?_
  refine Keeps.bind (Keeps.forM _ fun entry _ => ?_) fun _ =>
    Keeps.bind (blind.keeps_onState _) fun _ => blind.keeps_onState _
  unfold checkPeer
  refine Keeps.bind (Keeps.get _) fun node => ?_
  split
  · exact Keeps.pure _ _
  · refine Keeps.bind (Keeps.get _) fun node => ?_
    split
    · exact Keeps.bind (blind.keeps_onState _) fun _ => Keeps.bind (keeps_sync_port _) fun _ =>
        Keeps.bind (blind.keeps_connect _ _) fun _ => Keeps.bind (Keeps.get _) fun _ =>
          blind.keeps_onState _
    · exact blind.keeps_onState _

theorem Blind.keeps_selfFix (blind : Blind inv)
    (erases : ∀ node key, inv node → inv { node with sync := { node.sync with
      peers := node.sync.peers.erase key } }) : Keeps inv selfFix := by
  refine Keeps.bind (Keeps.get _) fun node => ?_
  split
  · exact Keeps.pure _ _
  · exact Keeps.bind (keeps_sync_port _) fun _ => Keeps.bind (blind.keeps_disconnect _ _) fun _ =>
      Keeps.bind (Keeps.modify fun _ hnode => erases _ _ hnode) fun _ => Keeps.throw _ _

/-- What a message may touch besides: the view, the version and the PUB socket. -/
theorem Blind.keeps_listenForUpdates (blind : Blind inv) (msg : Msg)
    (adopts : ∀ node version peers, msg.body = .stateUpdate version peers → 0 < version →
      inv node → inv { node with sync := { node.sync with
        ready := node.sync.ready || node.sync.version = 0
        version := version
        peers := peers } })
    (erases : ∀ node key, inv node → inv { node with sync := { node.sync with
      peers := node.sync.peers.erase key } })
    (counts : ∀ node, inv node → inv { node with sync := { node.sync with
      version := node.sync.version + 1 } })
    (publishes : ∀ node, inv node → inv (publishState node)) :
    Keeps inv (listenForUpdates msg) := by
  refine Keeps.bind (Keeps.get _) fun node => ?_
  split
  · exact Keeps.pure _ _
  · cases hkind : msg.body with
    | stateUpdate version peers =>
        refine Keeps.bind (Keeps.get _) fun node => ?_
        split
        · rename_i hnewer
          exact Keeps.bind (Keeps.modify fun _ hnode =>
            adopts _ _ _ hkind (Nat.zero_lt_of_lt hnewer) hnode) fun _ =>
              blind.keeps_checkForChanges
        · refine Keeps.bind (Keeps.get _) fun node => ?_
          split
          · exact Keeps.modify publishes
          · exact Keeps.pure _ _
    | departureNotice virtualIp =>
        exact Keeps.bind (Keeps.get _) fun _ => Keeps.bind (Keeps.getItem _ _ _ _) fun _ =>
          Keeps.bind (Keeps.modify fun _ hnode => erases _ _ hnode) fun _ =>
            Keeps.bind (blind.keeps_disconnect _ _) fun _ =>
              Keeps.bind (Keeps.modify counts) fun _ =>
                Keeps.bind (blind.keeps_selfFix erases) fun _ => blind.keeps_checkForChanges
    | onboardNotice => exact Keeps.modify publishes

end WgBp.Mq
