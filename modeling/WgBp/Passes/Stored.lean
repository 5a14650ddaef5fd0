import WgBp.Dht.Pass
import WgBp.Gossip.Pass

/-! A pass of `SyncDHT` against one of `SyncGossip` over the map that says the same
as the store: the key list and the stored records on the one side, a record for
every listed peer and every peer the list does not mention on the other. -/
namespace WgBp.Passes

open WgBp.Library WgBp.Library.Procedure WgBp.Library.Keywise WgBp.Model

def unchangedRecord (ip : Ip) (info : PeerInfo) : PeerRecord where
  virtualIp := ip
  publicKey := info.publicKey
  endpointIp := info.endpointIp
  endpointPort := info.endpointPort
  syncPort := .null
  allowedIps := info.allowedIps

structure SaysSame (store : Dht.Store) (keys : List Ip) (state : State) (peers : PeerMap) :
    Prop where
  listed : ∀ ip ∈ keys, peers.lookup ip = store.stored ip
  unlisted : ∀ ip ∉ keys, peers.lookup ip = (state.peers.lookup ip).map (unchangedRecord ip)

def Filed (store : Dht.Store) (keys : List Ip) : Prop :=
  ∀ key ∈ keys, ∀ record, store.stored key = some record → record.virtualIp = key

theorem SaysSame.keyed {store : Dht.Store} {keys : List Ip} {state : State} {peers : PeerMap}
    (same : SaysSame store keys state peers) (filed : Filed store keys) : Keyed peers := by
  intro ip record hrecord
  by_cases hlisted : ip ∈ keys
  · exact filed ip hlisted record (same.listed ip hlisted ▸ hrecord)
  · rw [same.unlisted ip hlisted] at hrecord
    obtain ⟨info, -, rfl⟩ := Option.map_eq_some_iff.mp hrecord
    rfl

def knownMap (state : State) : PeerMap :=
  state.peers.entries.foldl
    (fun peers entry => peers.set entry.1 (unchangedRecord entry.1 entry.2)) ∅

def storeInto (store : Dht.Store) (peers : PeerMap) (key : Ip) : PeerMap :=
  match store.stored key with
  | some record => peers.set key record
  | none => AList.erase key peers

def storedMap (store : Dht.Store) (keys : List Ip) (state : State) : PeerMap :=
  keys.foldl (storeInto store) (knownMap state)

private abbrev entryOf (peers : PeerMap) (ip : Ip) : Option PeerRecord := peers.lookup ip

@[simp] theorem lookup_knownMap (state : State) (ip : Ip) :
    (knownMap state).lookup ip = (state.peers.lookup ip).map (unchangedRecord ip) := by
  have hwalk : Walk entryOf (fun ip _ => (state.peers.lookup ip).map (unchangedRecord ip))
      state.peers.entries.keys ∅ (knownMap state) := by
    refine (walk_foldl (fun _ => True) _ ?_ trivial).2
    intro entry hentry peers _
    refine ⟨trivial, fun other => (Dict.lookup_set _ _ _ _).trans ?_⟩
    by_cases hother : other = entry.1
    · subst hother
      simp [Dict.lookup_of_mem_entries hentry]
    · rw [if_neg hother, if_neg hother]
  by_cases hknown : ip ∈ state.peers
  · exact hwalk.value_of_nodup state.peers.keys_nodup hknown
  · rw [AList.lookup_eq_none.mpr hknown]
    exact (hwalk.value_of_not_mem hknown).trans (AList.lookup_empty ip)

@[simp] theorem lookup_storeInto (store : Dht.Store) (peers : PeerMap) (key ip : Ip) :
    (storeInto store peers key).lookup ip =
      if ip = key then store.stored ip else peers.lookup ip := by
  unfold storeInto
  split
  · rename_i record hstored
    rw [Dict.lookup_set]
    split
    · rename_i hip
      rw [hip, hstored]
    · rfl
  · rename_i hstored
    rw [Dict.lookup_erase]
    split
    · rename_i hip
      rw [hip, hstored]
    · rfl

theorem storedMap_saysSame (store : Dht.Store) (keys : List Ip) (state : State) :
    SaysSame store keys state (storedMap store keys state) := by
  have hwalk : Walk entryOf (fun ip _ => store.stored ip) (keys.map id) (knownMap state)
      (storedMap store keys state) := by
    refine (walk_foldl (fun _ => True) _ ?_ trivial).2
    intro key _ peers _
    exact ⟨trivial, lookup_storeInto store peers key⟩
  rw [List.map_id] at hwalk
  constructor
  · intro ip hlisted
    exact hwalk.value_of_idempotent (fun _ => rfl) hlisted
  · intro ip hunlisted
    exact (hwalk.value_of_not_mem hunlisted).trans (lookup_knownMap state ip)

theorem standing_returned {store : Dht.Store} {keys : List Ip} (filed : Filed store keys)
    {state mid : State} (single : state.allSyncMode = 0) {result : Option PeerInfo}
    (returns : (Dht.checkKeys store keys none).run { state with locked := true } =
      .ok result mid) (ip : Ip) :
    mid.standing ip =
      if ip ∈ keys then Model.meetStored state.ip 0 (store.stored ip) (state.standing ip)
      else state.standing ip := by
  have hwalk := (Dht.checkKeys_walk filed returns).2
  dsimp only at hwalk
  rw [single] at hwalk
  by_cases hlisted : ip ∈ keys
  · rw [if_pos hlisted]
    exact hwalk.value_of_idempotent (fun old => meetStored_meetStored _ _ old) hlisted
  · rw [if_neg hlisted]
    exact hwalk.value_of_not_mem hlisted

theorem dht_agrees_with_gossip {store : Dht.Store} {keys : List Ip}
    (listed : store.keyList = some keys) (filed : Filed store keys) {state : State}
    (single : state.allSyncMode = 0) {sync : Dht.SyncDHT} {after : Dht.Site}
    (returns : (Dht.checkForChanges.run Dht.handle).run ⟨store, ⟨state, sync⟩⟩ = .ok () after) :
    SaysSame store keys state (storedMap store keys state) ∧
      ∀ peers, SaysSame store keys state peers →
        ∃ gossipAfter, (Gossip.checkForChanges peers).run state = .ok () gossipAfter ∧
          ∀ ip, after.node.state.peers.lookup ip = gossipAfter.peers.lookup ip := by
  refine ⟨storedMap_saysSame store keys state, ?_⟩
  intro peers hsame
  obtain ⟨hfree, result, mid, hloop, hafter⟩ := Dht.checkForChanges_returned listed returns
  have hkeyed := hsame.keyed filed
  refine ⟨_, Gossip.run_checkForChanges_keyed hkeyed hfree, ?_⟩
  intro ip
  have hdht := congrArg Prod.fst (standing_returned filed single hloop ip)
  rw [hafter]
  refine hdht.trans ?_
  cases hrecord : peers.lookup ip with
  | some record =>
      have hgossip := congrArg Prod.fst (Gossip.standing_passed_listed state hkeyed hrecord)
      refine Eq.trans ?_ hgossip.symm
      by_cases hip : ip ∈ keys
      · rw [if_pos hip, ← hsame.listed ip hip, hrecord]
        rfl
      · rw [if_neg hip]
        rw [hsame.unlisted ip hip] at hrecord
        obtain ⟨info, hinfo, rfl⟩ := Option.map_eq_some_iff.mp hrecord
        simp [meet, State.standing, hinfo, reconciledPeer, unchangedRecord]
  | none =>
      have hunlisted : ip ∉ peers := AList.lookup_eq_none.mp hrecord
      refine Eq.trans ?_ (Gossip.lookup_passed_unlisted single hunlisted).symm
      by_cases hip : ip ∈ keys
      · rw [if_pos hip, ← hsame.listed ip hip, hrecord]
        unfold meetStored votedOut
        cases hold : (state.standing ip).1 <;> simp [hold]
      · rw [if_neg hip]
        rw [hsame.unlisted ip hip] at hrecord
        exact Option.map_eq_none_iff.mp hrecord

/-! A node that finds the peer it knows before one it does not, and a peer that has left. -/

def joinedState : State :=
  (State.new "10.0.0.3" "kc" "198.51.100.3" 51820).addPeer "10.0.0.1" "ka" "198.51.100.1" 51820

def founderRecord : PeerRecord :=
  ⟨"10.0.0.1", "ka", "198.51.100.1", 51820, .missing, ["10.0.0.1/32", "192.168.1.0/24"]⟩
def latestRecord : PeerRecord :=
  ⟨"10.0.0.4", "kd", "198.51.100.4", 51820, .missing, ["10.0.0.4/32"]⟩

def polledKeys : List Ip := ["10.0.0.1", "10.0.0.2", "10.0.0.4"]

def polledStore : Dht.Store where
  changeCheck := some 3
  keyList := some polledKeys
  peers := ((Dict.set ∅ "10.0.0.1" (some founderRecord)).set "10.0.0.2" none).set "10.0.0.4"
    (some latestRecord)

theorem dht_agrees_with_gossip_firstPoll :
    ∃ after gossipAfter,
      (Dht.checkForChanges.run Dht.handle).run ⟨polledStore, ⟨joinedState, ⟨1, 0⟩⟩⟩ =
        .ok () after ∧
      (Gossip.checkForChanges (storedMap polledStore polledKeys joinedState)).run joinedState =
        .ok () gossipAfter ∧
      ∀ ip, after.node.state.peers.lookup ip = gossipAfter.peers.lookup ip := by
  have hfiled : Filed polledStore polledKeys := by
    intro key hkey record hrecord
    simp only [polledKeys, List.mem_cons, List.not_mem_nil, or_false] at hkey
    rcases hkey with rfl | rfl | rfl <;> cases hrecord <;> rfl
  obtain ⟨after, hrun⟩ : ∃ after, (Dht.checkForChanges.run Dht.handle).run
      ⟨polledStore, ⟨joinedState, ⟨1, 0⟩⟩⟩ = .ok () after := ⟨_, rfl⟩
  obtain ⟨hsame, hagrees⟩ := dht_agrees_with_gossip rfl hfiled rfl hrun
  obtain ⟨gossipAfter, hgossip, hlookup⟩ := hagrees _ hsame
  exact ⟨after, gossipAfter, hrun, hgossip, hlookup⟩

end WgBp.Passes
