import WgBp.Dht.Node
import WgBp.Model.Passes

/-! A pass of `SyncDHT` that nothing interrupts, as a loop over the key list on the
`State` alone: the store answers every read alike. -/
namespace WgBp.Dht

open WgBp.Library WgBp.Library.Procedure WgBp.Library.Keywise WgBp.Library.Resumption WgBp.Model

def Store.stored (store : Store) (key : Ip) : Option PeerRecord := (store.peers.lookup key).join

def checkKeys (store : Store) (keys : List Ip) (existingPeer : Option PeerInfo) :
    EStateM Halt State (Option PeerInfo) :=
  keys.foldlM (fun existingPeer key => checkKey key (store.stored key) existingPeer) existingPeer

@[simp] theorem checkKeys_cons (store : Store) (key : Ip) (rest : List Ip)
    (existingPeer : Option PeerInfo) :
    checkKeys store (key :: rest) existingPeer =
      checkKey key (store.stored key) existingPeer >>= checkKeys store rest := List.foldlM_cons

/-- Put the `State` of a result back to its place. -/
def atSite {α : Type} (store : Store) (sync : SyncDHT) :
    EStateM.Result Halt State α → EStateM.Result Halt Site α
  | .ok value state => .ok value ⟨store, ⟨state, sync⟩⟩
  | .error error state => .error error ⟨store, ⟨state, sync⟩⟩

theorem run_checkEntry (store : Store) (sync : SyncDHT) (existingPeer : Option PeerInfo) (key : Ip)
    (state : State) :
    ((checkEntry existingPeer key).run handle).run ⟨store, ⟨state, sync⟩⟩ =
      atSite store sync ((checkKey key (store.stored key) existingPeer).run state) := by
  change ((perform (Op.checkKey key (store.stored key) existingPeer)).run handle).run _ = _
  rw [run_perform]
  simp only [handle, onNode, onState, run_onPart]
  cases (checkKey key (store.stored key) existingPeer).run state <;> rfl

theorem run_loop (store : Store) (sync : SyncDHT) (keys : List Ip) (existingPeer : Option PeerInfo)
    (state : State) :
    ((keys.foldlM checkEntry existingPeer).run handle).run ⟨store, ⟨state, sync⟩⟩ =
      atSite store sync ((checkKeys store keys existingPeer).run state) := by
  induction keys generalizing existingPeer state with
  | nil => rfl
  | cons key rest ih =>
      rw [List.foldlM_cons, Resumption.run_bind, EStateM.run_bind, run_checkEntry, checkKeys_cons,
        EStateM.run_bind]
      cases (checkKey key (store.stored key) existingPeer).run state with
      | ok value mid => exact ih value mid
      | error error mid => rfl

theorem run_checkForChanges {store : Store} {keys : List Ip} (listed : store.keyList = some keys)
    {state : State} (sync : SyncDHT) (free : state.locked = false) :
    (checkForChanges.run handle).run ⟨store, ⟨state, sync⟩⟩ =
      match (checkKeys store keys none).run { state with locked := true } with
      | .ok _ after =>
        .ok () ⟨store, ⟨{ after with locked := false }, { sync with passes := sync.passes + 1 }⟩⟩
      | .error error after => .error error ⟨store, ⟨after, sync⟩⟩ := by
  rw [run_checkForChanges_free listed sync free, Resumption.run_bind, EStateM.run_bind, run_loop]
  cases (checkKeys store keys none).run { state with locked := true } <;> rfl

theorem checkForChanges_returned {store : Store} {keys : List Ip}
    (listed : store.keyList = some keys) {state : State} {sync : SyncDHT} {after : Site}
    (returns : (checkForChanges.run handle).run ⟨store, ⟨state, sync⟩⟩ = .ok () after) :
    state.locked = false ∧ ∃ result mid,
      (checkKeys store keys none).run { state with locked := true } = .ok result mid ∧
      after.node.state = { mid with locked := false } := by
  cases hlocked : state.locked with
  | true =>
      rw [run_checkForChanges_held store sync hlocked] at returns
      cases returns
  | false =>
      rw [run_checkForChanges listed sync hlocked] at returns
      cases hloop : (checkKeys store keys none).run { state with locked := true } with
      | error error mid =>
          rw [hloop] at returns
          cases returns
      | ok result mid =>
          rw [hloop] at returns
          cases returns
          exact ⟨rfl, result, mid, rfl, rfl⟩

@[simp] theorem run_checkKey_null (key : Ip) (existingPeer : Option PeerInfo) (state : State) :
    (checkKey key none existingPeer).run state =
      .ok existingPeer (if key ∈ state.peers then state.removePeer key else state) := by
  unfold checkKey
  by_cases hknown : key ∈ state.peers
  · simp only [EStateM.run_bind, EStateM.run_get, hknown, if_true]
    rfl
  · simp [hknown]

theorem run_checkKey_known (key : Ip) {info : PeerRecord} (existingPeer : Option PeerInfo)
    {state : State} {existing : PeerInfo}
    (found : state.peers.lookup info.virtualIp = some existing) :
    (checkKey key (some info) existingPeer).run state =
      .ok (some { existing with allowedIps := info.allowedIps }) (met state info) := by
  simp only [checkKey, met, EStateM.run_bind, EStateM.run_get, found, run_checkAllowedIPs found]
  rfl

theorem run_checkKey_own (key : Ip) {info : PeerRecord} (existingPeer : Option PeerInfo)
    {state : State} (absent : state.peers.lookup info.virtualIp = none)
    (own : info.virtualIp = state.ip) :
    (checkKey key (some info) existingPeer).run state = .ok existingPeer state := by
  simp only [checkKey, EStateM.run_bind, EStateM.run_get, absent, own, if_true]
  rfl

theorem run_checkKey_unbound (key : Ip) {info : PeerRecord} {state : State}
    (absent : state.peers.lookup info.virtualIp = none) (foreign : info.virtualIp ≠ state.ip) :
    (checkKey key (some info) none).run state =
      .error (.raised .unboundLocalError) (met state info) := by
  have hadd := run_checkAllowedIPs_added absent foreign rfl
  rw [← met_new absent] at hadd
  simp only [checkKey, EStateM.run_bind, EStateM.run_get, absent, foreign, if_false,
    EStateM.run_modify, hadd]
  rfl

theorem run_checkAllowedIPs_again {info : PeerRecord} {state : State} {peer : PeerInfo}
    (found : state.peers.lookup info.virtualIp = some peer)
    (current : peer.allowedIps = info.allowedIps) (earlier : PeerInfo) :
    ∃ after, (checkAllowedIPs info (some earlier)).run state = .ok () after ∧
      State.SameNode state after ∧ ∀ ip, after.standing ip = state.standing ip := by
  unfold checkAllowedIPs
  dsimp only
  split
  · refine ⟨_, State.run_setPeerAllowedIPs found _, State.withAllowedIPs_same _ _ _ _, ?_⟩
    intro ip
    have hlookup := State.lookup_withAllowedIPs state info.virtualIp ip peer info.allowedIps
    rw [← current] at hlookup
    unfold State.standing
    rw [← current, hlookup]
    split
    · rename_i hip
      rw [hip, found]
      rfl
    · rfl
  · exact ⟨state, rfl, .refl state, fun _ => rfl⟩

theorem run_checkKey_new (key : Ip) {info : PeerRecord} (earlier : PeerInfo) {state : State}
    (absent : state.peers.lookup info.virtualIp = none) (foreign : info.virtualIp ≠ state.ip) :
    ∃ after, (checkKey key (some info) (some earlier)).run state = .ok (some earlier) after ∧
      State.SameNode (met state info) after ∧
      ∀ ip, after.standing ip = (met state info).standing ip := by
  have hadd := run_checkAllowedIPs_added absent foreign rfl
  rw [← met_new absent] at hadd
  have hmet := (met_visit state info).here.trans (meet_foreign foreign _)
  obtain ⟨after, hrun, hsame, hstanding⟩ := run_checkAllowedIPs_again (congrArg Prod.fst hmet)
    (reconciledPeer_allowedIps _ info) earlier
  refine ⟨after, ?_, hsame, hstanding⟩
  simp only [checkKey, EStateM.run_bind, EStateM.run_get, absent, foreign, if_false,
    EStateM.run_modify, hadd, hrun]
  rfl

theorem checkKey_visit {key : Ip} {stored : Option PeerRecord}
    (filed : ∀ record, stored = some record → record.virtualIp = key)
    {existingPeer result : Option PeerInfo} {before after : State}
    (returns : (checkKey key stored existingPeer).run before = .ok result after) :
    State.SameNode before after ∧
      Visit State.standing (fun _ => meetStored before.ip before.allSyncMode stored) key before
        after := by
  cases stored with
  | none =>
      rw [run_checkKey_null] at returns
      cases returns
      by_cases hknown : key ∈ before.peers
      · rw [if_pos hknown]
        refine ⟨State.removePeer_same _ _, ?_⟩
        intro other
        rw [removePeer_visit before key other]
        by_cases hother : other = key
        · subst hother
          obtain ⟨info, hinfo⟩ := Dict.mem_iff_lookup.mp hknown
          simp [meetStored, State.standing, hinfo]
        · rw [if_neg hother, if_neg hother]
      · rw [if_neg hknown]
        refine ⟨.refl _, ?_⟩
        intro other
        by_cases hother : other = key
        · subst hother
          have habsent : before.peers.lookup other = none := AList.lookup_eq_none.mpr hknown
          simp [meetStored, State.standing, habsent]
        · rw [if_neg hother]
  | some info =>
      have hkey := filed info rfl
      subst hkey
      have hmet := met_visit before info
      have hsame := met_same before info
      cases hfound : before.peers.lookup info.virtualIp with
      | some existing =>
          rw [run_checkKey_known _ _ hfound] at returns
          cases returns
          exact ⟨hsame, hmet⟩
      | none =>
          by_cases hown : info.virtualIp = before.ip
          · rw [run_checkKey_own _ _ hfound hown] at returns
            have hskipped : met before info = before := by
              simp [met, hfound, entered, hown]
            rw [hskipped] at hsame hmet
            cases returns
            exact ⟨hsame, hmet⟩
          · cases existingPeer with
            | none =>
                rw [run_checkKey_unbound _ hfound hown] at returns
                cases returns
            | some earlier =>
                obtain ⟨last, hrun, hnode, hstanding⟩ :=
                  run_checkKey_new info.virtualIp earlier hfound hown
                rw [hrun] at returns
                cases returns
                exact ⟨hsame.trans hnode, fun other => (hstanding other).trans (hmet other)⟩

theorem checkKeys_walk {store : Store} {keys : List Ip}
    (filed : ∀ key ∈ keys, ∀ record, store.stored key = some record → record.virtualIp = key)
    {existingPeer result : Option PeerInfo} {before after : State}
    (returns : (checkKeys store keys existingPeer).run before = .ok result after) :
    State.SameNode before after ∧
      Walk State.standing (fun ip => meetStored before.ip before.allSyncMode (store.stored ip)) keys
        before after := by
  induction keys generalizing existingPeer before with
  | nil =>
      cases returns
      exact ⟨.refl _, .nil _⟩
  | cons key rest ih =>
      rw [checkKeys_cons] at returns
      obtain ⟨value, mid, hfirst, hrest⟩ := bind_returned returns
      obtain ⟨hsame, hvisit⟩ := checkKey_visit (filed key (by simp)) hfirst
      obtain ⟨hlast, hwalk⟩ := ih (fun other hother => filed other (by simp [hother])) hrest
      rw [hsame.ip, hsame.allSyncMode] at hwalk
      exact ⟨hsame.trans hlast, .cons (hvisit.congr rfl) hwalk⟩

end WgBp.Dht
