import WgBp.Gossip.Node

/-! A pass of `SyncGossip` on a State in any condition: it may know its own address,
be in ALL mode, or be given a view that is not keyed. -/
namespace WgBp.Gossip

open WgBp.Library WgBp.Library.Procedure WgBp.Library.Keywise WgBp.Model

def passed (peers : PeerMap) (state : State) : State :=
  let listed := metAll { state with locked := true } peers.entries
  { removedAll peers listed listed.peers.entries with locked := false }

theorem run_checkForChanges_keyed {state : State} {peers : PeerMap} (keyed : Keyed peers)
    (free : state.locked = false) :
    (checkForChanges peers).run state = .ok () (passed peers state) := by
  have hloop (start : State) : (forM peers.entries fun entry =>
      checkPeer entry.1 entry.2).run start = .ok () (metAll start peers.entries) := by
    refine run_forM (fun _ => True) _ ?_ start trivial
    intro entry hentry later _
    exact ⟨run_checkPeer_met (keyed _ _ (Dict.lookup_of_mem_entries hentry)), trivial⟩
  simp only [checkForChanges, reconcile, EStateM.run_bind, State.run_lockAquire free, hloop,
    run_removeUnlisted, State.run_lockRelease, passed]

theorem standing_passed_listed (state : State) {peers : PeerMap} (keyed : Keyed peers) {ip : Ip}
    {record : PeerRecord} (listed : peers.lookup ip = some record) :
    (passed peers state).standing ip = meet state.ip record (state.standing ip) := by
  have hmet := standing_metAll { state with locked := true } keyed ip
  rw [meetListed, listed] at hmet
  exact (standing_removedAll_listed _ (Dict.mem_of_lookup listed)).trans hmet

/-- Whom the view does not list loses one vote, as with a key of the store that has no
record. -/
theorem standing_passed_unlisted (state : State) {peers : PeerMap} (keyed : Keyed peers) {ip : Ip}
    (unlisted : ip ∉ peers) :
    (passed peers state).standing ip =
      meetStored state.ip state.allSyncMode none (state.standing ip) := by
  have hmet := standing_metAll { state with locked := true } keyed ip
  rw [meetListed, AList.lookup_eq_none.mpr unlisted] at hmet
  have hmode := (metAll_same { state with locked := true } peers.entries).allSyncMode
  refine (standing_removedAll peers _ ip).trans ?_
  rw [kept, if_neg unlisted, hmode, ← meetStored_none state.ip, hmet]
  rfl

theorem lookup_passed_unlisted {state : State} {peers : PeerMap} (single : state.allSyncMode = 0)
    {ip : Ip} (unlisted : ip ∉ peers) : (passed peers state).peers.lookup ip = none :=
  lookup_removedAll_unlisted
    ((metAll_same { state with locked := true } peers.entries).allSyncMode.trans single) unlisted

theorem keeps_checkAllowedIPs (start : State) (peerInfo : PeerRecord)
    (existingPeer : Option PeerInfo) :
    Keeps (State.SameNode start) (checkAllowedIPs peerInfo existingPeer) := by
  unfold checkAllowedIPs
  split
  · exact Keeps.throw _ _
  · split
    · unfold State.setPeerAllowedIPs
      refine Keeps.bind (Keeps.get _) fun state => ?_
      refine Keeps.bind (Keeps.getItem _ _ _ _) fun peer => ?_
      exact Keeps.modify fun later h => h.trans ⟨rfl, rfl, rfl, rfl, rfl, rfl, rfl, rfl⟩
    · exact Keeps.pure _ _

end WgBp.Gossip
