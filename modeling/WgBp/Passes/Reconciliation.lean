import WgBp.Gossip.Node
import WgBp.Model.Passes
import WgBp.Mq.Handling

/-! One pass of `SyncGossip` and one of `MessageQueueSync` over the same view: both
leave what the view and the State's own contents determine, and neither finds
anything to do when it is repeated. -/
namespace WgBp.Passes

open WgBp.Library WgBp.Library.Procedure WgBp.Model

structure Reconciles (peers : PeerMap) (before after : State) : Prop where
  free : after.locked = false
  node : State.SameNode before after
  listed : ∀ ip record, peers.lookup ip = some record → ip ≠ before.ip →
    after.peers.lookup ip = some (reconciledPeer (before.peers.lookup ip) record)
  single : before.allSyncMode = 0 → ∀ ip ∈ after.peers, ip ∈ peers ∧ ip ≠ before.ip
  counted : ∀ ip ∈ before.peers, ip ∉ peers →
    (before.allDeletedCnt.lookup ip).getD 0 + 1 < before.allSyncMode →
      after.peers.lookup ip = before.peers.lookup ip ∧
        after.allDeletedCnt.lookup ip = some ((before.allDeletedCnt.lookup ip).getD 0 + 1)
  deleted : ∀ ip ∈ before.peers, ip ∉ peers → before.allSyncMode ≠ 0 →
    before.allSyncMode ≤ (before.allDeletedCnt.lookup ip).getD 0 + 1 →
      ip ∉ after.peers ∧ ip ∉ after.allDeletedCnt
  votes : ∀ ip, before.allSyncMode = 0 ∨ ip ∉ before.peers ∨ ip ∈ peers →
    after.allDeletedCnt.lookup ip = before.allDeletedCnt.lookup ip
  unknown : ∀ ip, ip ∉ peers → ip ∉ before.peers → ip ∉ after.peers

private theorem standing_missed {peers : PeerMap} (state : State) (keyed : Keyed peers) {ip : Ip}
    (unlisted : ip ∉ peers) :
    (checked peers state).standing ip =
      if ip ∈ state.peers then votedOut state.allSyncMode (state.standing ip)
      else state.standing ip := by
  have hnone : (if ip = state.ip then none else peers.lookup ip) = none := by
    rw [AList.lookup_eq_none.mpr unlisted, ite_self]
  rw [standing_checked state keyed, hnone]
  simp [kept, unlisted]

private theorem votes_listed {peers : PeerMap} {state : State} (keyed : Keyed peers)
    (foreign : state.ip ∉ state.peers) {ip : Ip} (listed : ip ∈ peers) :
    (checked peers state).allDeletedCnt.lookup ip = state.allDeletedCnt.lookup ip := by
  have hstands := congrArg Prod.snd (standing_checked state keyed ip)
  by_cases hown : ip = state.ip
  · have hunknown : ip ∉ state.peers := hown ▸ foreign
    rw [if_pos hown] at hstands
    exact hstands.trans (congrArg Prod.snd (if_neg hunknown))
  · obtain ⟨record, hrecord⟩ := Dict.mem_iff_lookup.mp listed
    rw [if_neg hown, hrecord] at hstands
    exact hstands

theorem checked_reconciles {peers : PeerMap} {state : State} (keyed : Keyed peers)
    (foreign : state.ip ∉ state.peers) (free : state.locked = false) :
    Reconciles peers state (checked peers state) where
  free := rfl
  node := by
    obtain ⟨h₁, h₂, h₃, h₄, h₅, h₆, h₇, -⟩ := reconciled_same peers { state with locked := true }
    exact ⟨h₁, h₂, h₃, h₄, h₅, h₆, h₇, free.symm⟩
  listed := by
    intro ip record hrecord hforeign
    have hstands := congrArg Prod.fst (standing_checked state keyed ip)
    rw [if_neg hforeign, hrecord] at hstands
    exact hstands
  single := by
    intro hsingle ip hmem
    rw [← checked_ip peers state]
    exact (checked_tracks keyed hsingle foreign ip).mp hmem
  counted := by
    intro ip hmem hunlisted hfew
    have hstands := standing_missed state keyed hunlisted
    have hmode : state.allSyncMode ≠ 0 := by omega
    have hbelow : (state.standing ip).2.getD 0 + 1 < state.allSyncMode := hfew
    rw [if_pos hmem, votedOut, if_neg hmode, if_pos hbelow] at hstands
    exact Prod.mk.inj hstands
  deleted := by
    intro ip hmem hunlisted hmode henough
    have hstands := standing_missed state keyed hunlisted
    have hreached : ¬(state.standing ip).2.getD 0 + 1 < state.allSyncMode := Nat.not_lt.mpr henough
    rw [if_pos hmem, votedOut, if_neg hmode, if_neg hreached] at hstands
    obtain ⟨hgone, hforgotten⟩ := Prod.mk.inj hstands
    exact ⟨AList.lookup_eq_none.mp hgone, AList.lookup_eq_none.mp hforgotten⟩
  votes := by
    intro ip hcase
    by_cases hlisted : ip ∈ peers
    · exact votes_listed keyed foreign hlisted
    · have hstands := congrArg Prod.snd (standing_missed state keyed hlisted)
      rcases hcase with hsingle | hunknown | h
      · refine hstands.trans ?_
        rw [votedOut, if_pos hsingle]
        split <;> rfl
      · rw [if_neg hunknown] at hstands
        exact hstands
      · exact absurd h hlisted
  unknown := by
    intro ip hunlisted hunknown
    have hstands := congrArg Prod.fst (standing_missed state keyed hunlisted)
    rw [if_neg hunknown] at hstands
    exact AList.lookup_eq_none.mp (hstands.trans (AList.lookup_eq_none.mpr hunknown))

/-- Two States with the same contents, whatever the order their entries were put in. -/
structure SameContents (state state' : State) : Prop where
  node : State.SameNode state state'
  standing : ∀ ip, state'.standing ip = state.standing ip

theorem SameContents.mem {state state' : State} (same : SameContents state state') (ip : Ip) :
    ip ∈ state'.peers ↔ ip ∈ state.peers := by
  have hlookup : state'.peers.lookup ip = state.peers.lookup ip :=
    congrArg Prod.fst (same.standing ip)
  rw [Dict.mem_iff_lookup, Dict.mem_iff_lookup, hlookup]

/-- The order in which the two maps were filled does not matter. -/
theorem SameContents.checked {peers peers' : PeerMap} {state state' : State}
    (same : SameContents state state') (samePeers : ∀ ip, peers'.lookup ip = peers.lookup ip)
    (keyed : Keyed peers) : SameContents (checked peers state) (checked peers' state') where
  node := by
    have hfirst := reconciled_same peers { state with locked := true }
    have hsecond := reconciled_same peers' { state' with locked := true }
    exact {
      ip := hsecond.ip.trans (same.node.ip.trans hfirst.ip.symm)
      publicKey := hsecond.publicKey.trans (same.node.publicKey.trans hfirst.publicKey.symm)
      publicIp := hsecond.publicIp.trans (same.node.publicIp.trans hfirst.publicIp.symm)
      publicPort := hsecond.publicPort.trans (same.node.publicPort.trans hfirst.publicPort.symm)
      keepalive := hsecond.keepalive.trans (same.node.keepalive.trans hfirst.keepalive.symm)
      allowedIps := hsecond.allowedIps.trans (same.node.allowedIps.trans hfirst.allowedIps.symm)
      allSyncMode :=
        hsecond.allSyncMode.trans (same.node.allSyncMode.trans hfirst.allSyncMode.symm)
      locked := rfl }
  standing := by
    intro ip
    have hkeyed : Keyed peers' := fun key record h => keyed key record (samePeers key ▸ h)
    have hstanding := same.standing ip
    obtain ⟨hpeer, hvotes⟩ := Prod.mk.inj hstanding
    have hlisted : ip ∈ peers' ↔ ip ∈ peers := by
      rw [Dict.mem_iff_lookup, Dict.mem_iff_lookup, samePeers]
    rw [standing_checked state keyed, standing_checked state' hkeyed, samePeers, same.node.ip,
      hpeer, hvotes, hstanding, same.node.allSyncMode]
    cases if ip = state.ip then none else peers.lookup ip with
    | some record => rfl
    | none => simp only [same.mem, kept, hlisted]

theorem run_mq_settled {node : Mq.MqNode} (settled : Settled node.sync.peers node.state)
    (free : node.state.locked = false) : Mq.checkForChanges.run node = .ok () node := by
  obtain ⟨state, sync⟩ := node
  have hlock := run_onState ⟨state, sync⟩ (State.run_lockAquire free)
  have hloop : (forM sync.peers.entries fun entry => Mq.checkPeer entry.1 entry.2).run
      ⟨{ state with locked := true }, sync⟩ = .ok () ⟨{ state with locked := true }, sync⟩ := by
    refine run_forM_stays _ fun entry hentry => ?_
    unfold Mq.checkPeer
    by_cases hown : entry.1 = state.ip
    · simp [hown]
    · obtain ⟨info, hinfo, hallowed⟩ :=
        settled.listed _ _ (Dict.lookup_of_mem_entries hentry) hown
      simp [hown, hinfo, checkAllowedIPs, hallowed, onState]
  have hlocked : Settled sync.peers { state with locked := true } :=
    ⟨settled.listed, settled.unlisted⟩
  have hremove := run_onState ⟨{ state with locked := true }, sync⟩
    (run_removeUnlisted sync.peers { state with locked := true })
  rw [hlocked.removedAll] at hremove
  have hrelease := run_onState ⟨{ state with locked := true }, sync⟩
    (State.run_lockRelease { state with locked := true })
  simp only [Mq.checkForChanges, EStateM.run_bind, hlock, EStateM.run_get, hloop, hremove, hrelease,
    ← free]

theorem gossip_and_mq_reconcile {peers : PeerMap} {state mqState : State}
    (sync : Mq.MessageQueueSync) (sameState : SameContents state mqState)
    (samePeers : ∀ ip, sync.peers.lookup ip = peers.lookup ip) (keyed : Keyed peers)
    (complete : Mq.Ported peers) (foreign : state.ip ∉ state.peers)
    (free : state.locked = false) :
    ∃ after mqAfter mqSync,
      (Gossip.checkForChanges peers).run state = .ok () after ∧
      Mq.checkForChanges.run ⟨mqState, sync⟩ = .ok () ⟨mqAfter, mqSync⟩ ∧
      Reconciles peers state after ∧ SameContents after mqAfter ∧
      (mqState = state → sync.peers = peers → mqAfter = after) ∧
      (state.allSyncMode = 0 →
        (Gossip.checkForChanges peers).run after = .ok () after ∧
        Mq.checkForChanges.run ⟨mqAfter, mqSync⟩ = .ok () ⟨mqAfter, mqSync⟩) := by
  have hkeyed : Keyed sync.peers := fun key record h => keyed key record (samePeers key ▸ h)
  have hcomplete : Mq.Ported sync.peers :=
    fun key record h => complete key record (samePeers key ▸ h)
  have hforeign : mqState.ip ∉ mqState.peers := by
    rw [sameState.node.ip, sameState.mem]
    exact foreign
  obtain ⟨mqSync, hmq, hconnects⟩ := Mq.run_checkForChanges ⟨mqState, sync⟩ hkeyed hcomplete
    (sameState.node.locked.trans free)
  refine ⟨checked peers state, checked sync.peers mqState, mqSync,
    Gossip.run_checkForChanges keyed foreign free, hmq, checked_reconciles keyed foreign free,
    sameState.checked samePeers keyed, fun hstate hpeers => by rw [hstate, hpeers], ?_⟩
  intro hsingle
  have hsettled := checked_settled keyed hsingle foreign
  have hmqSettled := checked_settled hkeyed (sameState.node.allSyncMode.trans hsingle) hforeign
  constructor
  · have hforeign := (checked_tracks keyed hsingle foreign).foreign
    rw [Gossip.run_checkForChanges keyed hforeign rfl, hsettled.checked keyed rfl]
  · refine run_mq_settled ?_ rfl
    dsimp only
    rw [hconnects.peers]
    exact hmqSettled

/-! A node that knows one peer it should keep and one it should drop, in either order. -/

def ownState : State := .new "10.0.0.1" "ka" "198.51.100.1" 51820

def knownState : State :=
  (ownState.addPeer "10.0.0.2" "kb" "198.51.100.2" 51820).addPeer "10.0.0.9" "ky"
    "198.51.100.9" 51820

def knownSwapped : State :=
  (ownState.addPeer "10.0.0.9" "ky" "198.51.100.9" 51820).addPeer "10.0.0.2" "kb"
    "198.51.100.2" 51820

def secondEntry : PeerRecord :=
  ⟨"10.0.0.2", "kb", "198.51.100.2", 51820, .port 5555, ["10.0.0.2/32", "192.168.2.0/24"]⟩
def thirdEntry : PeerRecord :=
  ⟨"10.0.0.3", "kc", "198.51.100.3", 51820, .port 5555, ["10.0.0.3/32"]⟩

def viewMap : PeerMap := (Dict.set ∅ "10.0.0.2" secondEntry).set "10.0.0.3" thirdEntry
def viewSwapped : PeerMap := (Dict.set ∅ "10.0.0.3" thirdEntry).set "10.0.0.2" secondEntry

private theorem swapped_standing (ip : Ip) : knownSwapped.standing ip = knownState.standing ip := by
  have hpeers : knownSwapped.peers.lookup ip = knownState.peers.lookup ip :=
    Dict.lookup_set_comm ∅ _ _ (by decide) ip
  rw [State.standing, hpeers]
  rfl

theorem gossip_and_mq_reconcile_swapped :
    ∃ after mqAfter mqSync,
      (Gossip.checkForChanges viewMap).run knownState = .ok () after ∧
      Mq.checkForChanges.run ⟨knownSwapped, ⟨5555, 3, viewSwapped, true, [], []⟩⟩ =
        .ok () ⟨mqAfter, mqSync⟩ ∧
      Reconciles viewMap knownState after ∧ SameContents after mqAfter := by
  have hkeyed : Keyed viewMap := by
    refine Dict.All.set (Dict.All.set (Dict.all_empty _) ?_) ?_ <;> rfl
  have hcomplete : Mq.Ported viewMap := by
    refine Dict.All.set (Dict.All.set (Dict.all_empty _) ?_) ?_ <;> exact ⟨5555, rfl⟩
  have hsame : SameContents knownState knownSwapped :=
    ⟨⟨rfl, rfl, rfl, rfl, rfl, rfl, rfl, rfl⟩, swapped_standing⟩
  obtain ⟨after, mqAfter, mqSync, hgossip, hmq, hreconciles, hcontents, -⟩ :=
    gossip_and_mq_reconcile ⟨5555, 3, viewSwapped, true, [], []⟩ hsame
      (Dict.lookup_set_comm ∅ _ _ (by decide)) hkeyed hcomplete (by decide) rfl
  exact ⟨after, mqAfter, mqSync, hgossip, hmq, hreconciles, hcontents⟩

end WgBp.Passes
