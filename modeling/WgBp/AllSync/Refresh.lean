import WgBp.AllSync.Removal
import WgBp.Dht.Pass
import WgBp.Gossip.Pass
import WgBp.Mq.Pass

/-! What a pass that returns makes of the peers its module lists: a new one is added
with the record's key and endpoint, a known one keeps those it has. -/
namespace WgBp.AllSync

open WgBp.Library WgBp.Library.Procedure WgBp.Model

theorem mq_listed {node after : Mq.MqNode} (keyed : Keyed node.sync.peers)
    (returns : Mq.checkForChanges.run node = .ok () after) {ip : Ip} {record : PeerRecord}
    (listed : node.sync.peers.lookup ip = some record) (foreign : ip ≠ node.state.ip) :
    after.state.peers.lookup ip =
      some (reconciledPeer (node.state.peers.lookup ip) record) := by
  have hstanding := congrArg Prod.fst (standing_checked node.state keyed ip)
  rw [if_neg foreign, listed] at hstanding
  rw [Mq.checkForChanges_returned keyed returns]
  exact hstanding

theorem gossip_listed {peers : PeerMap} {before after : State} (keyed : Keyed peers)
    (returns : (Gossip.checkForChanges peers).run before = .ok () after) {ip : Ip}
    {record : PeerRecord} (listed : peers.lookup ip = some record) (foreign : ip ≠ before.ip) :
    after.peers.lookup ip = some (reconciledPeer (before.peers.lookup ip) record) := by
  have hfree := Gossip.free_of_returned returns
  rw [Gossip.run_checkForChanges_keyed keyed hfree] at returns
  cases returns
  have hstanding := Gossip.standing_passed_listed before keyed listed
  rw [meet_foreign (keyed ip record listed ▸ foreign)] at hstanding
  exact congrArg Prod.fst hstanding

theorem dht_listed {store : Dht.Store} {sync : Dht.SyncDHT} {state : State} {after : Dht.Site}
    {keys : List Ip} (stored : store.keyList = some keys)
    (filed : ∀ key ∈ keys, ∀ record, store.stored key = some record → record.virtualIp = key)
    (returns : (Dht.checkForChanges.run Dht.handle).run ⟨store, ⟨state, sync⟩⟩ = .ok () after)
    {ip : Ip} {record : PeerRecord} (listed : ip ∈ keys) (found : store.stored ip = some record)
    (foreign : ip ≠ state.ip) :
    after.node.state.peers.lookup ip =
      some (reconciledPeer (state.peers.lookup ip) record) := by
  obtain ⟨-, result, mid, hloop, hafter⟩ := Dht.checkForChanges_returned stored returns
  rw [hafter]
  have hwalk := (Dht.checkKeys_walk filed hloop).2
  have hmet (old : Option PeerInfo × Option Nat) :
      meetStored state.ip state.allSyncMode (store.stored ip) old = meet state.ip record old := by
    rw [found]
    rfl
  have hidempotent (old : Option PeerInfo × Option Nat) :
      meetStored state.ip state.allSyncMode (store.stored ip)
        (meetStored state.ip state.allSyncMode (store.stored ip) old) =
          meetStored state.ip state.allSyncMode (store.stored ip) old := by
    simp only [hmet, meet_meet]
  have hvisited := hwalk.value_of_idempotent hidempotent listed
  dsimp only at hvisited
  rw [hmet, meet_foreign (filed ip listed record found ▸ foreign)] at hvisited
  exact congrArg Prod.fst hvisited

def View.record (view : View) (ip : Ip) : Option PeerRecord :=
  match view with
  | .gossip peers => peers.lookup ip
  | .mq sync => sync.peers.lookup ip
  | .dht store _ => if ip ∈ store.keyList.getD [] then store.stored ip else none

def View.Filed (view : View) : Prop :=
  ∀ ip record, view.record ip = some record → record.virtualIp = ip

def View.returns (view : View) (state : State) : Bool :=
  match view with
  | .gossip peers => returned ((Gossip.checkForChanges peers).run state)
  | .mq sync => returned (Mq.checkForChanges.run ⟨state, sync⟩)
  | .dht store sync =>
    returned ((Dht.checkForChanges.run Dht.handle).run ⟨store, ⟨state, sync⟩⟩)

def SamePeer (info : PeerInfo) (record : PeerRecord) : Prop :=
  info.publicKey = record.publicKey ∧ info.endpointIp = record.endpointIp ∧
    info.endpointPort = record.endpointPort

theorem listed_view {view : View} {state : State} (filed : view.Filed)
    (returns : view.returns state = true) {ip : Ip} {record : PeerRecord}
    (listed : view.record ip = some record) (foreign : ip ≠ state.ip) :
    (view.check state).peers.lookup ip =
      some (reconciledPeer (state.peers.lookup ip) record) := by
  cases view with
  | gossip peers =>
      obtain ⟨_, hrun⟩ := of_returned returns
      exact gossip_listed filed hrun listed foreign
  | mq sync =>
      obtain ⟨_, hrun⟩ := of_returned returns
      refine mq_listed ?_ hrun listed foreign
      exact filed
  | dht store sync =>
      obtain ⟨_, hrun⟩ := of_returned returns
      have hfiled : ∀ key ∈ store.keyList.getD [], ∀ record,
          store.stored key = some record → record.virtualIp = key := by
        intro key hkey record hrecord
        exact filed key record ((if_pos hkey).trans hrecord)
      unfold View.record at listed
      dsimp only at listed
      split at listed
      · rename_i hkey
        cases hkeys : store.keyList with
        | none => simp [hkeys] at hkey
        | some keys =>
            rw [hkeys] at hkey hfiled
            exact dht_listed hkeys hfiled hrun hkey listed foreign
      · cases listed

theorem key_refreshed {view : View} {state : State} (filed : view.Filed)
    (returns : view.returns state = true) :
    (∀ ip record, view.record ip = some record → ip ≠ state.ip →
      ∃ info, (view.check state).peers.lookup ip = some info ∧ SamePeer info record) ↔
    ∀ ip record, view.record ip = some record → ip ≠ state.ip →
      ∀ info, state.peers.lookup ip = some info → SamePeer info record := by
  constructor
  · intro hrefreshed ip record hlisted hforeign info hknown
    obtain ⟨kept, hkept, hsame⟩ := hrefreshed ip record hlisted hforeign
    rw [listed_view filed returns hlisted hforeign, hknown] at hkept
    cases hkept
    exact hsame
  · intro hcurrent ip record hlisted hforeign
    refine ⟨_, listed_view filed returns hlisted hforeign, ?_⟩
    cases hknown : state.peers.lookup ip with
    | none => exact ⟨rfl, rfl, rfl⟩
    | some info => exact hcurrent ip record hlisted hforeign info hknown

/-! A node that knows the only peer its modules list, under a key of its own. -/

def knowing (publicKey : String) : State :=
  ownState.addPeer "10.0.0.2" publicKey "198.51.100.2" 51820

private theorem bothMap_filed : (View.gossip bothMap).Filed := by
  refine Dict.All.set (Dict.All.set (Dict.all_empty _) ?_) ?_ <;> rfl

theorem key_refreshed_current :
    (View.gossip bothMap).returns (knowing "kb") = true ∧
      ∀ ip record, (View.gossip bothMap).record ip = some record → ip ≠ "10.0.0.1" →
        ∃ info, ((View.gossip bothMap).check (knowing "kb")).peers.lookup ip = some info ∧
          SamePeer info record := by
  have hreturns : (View.gossip bothMap).returns (knowing "kb") = true := by decide +kernel
  refine ⟨hreturns, (key_refreshed bothMap_filed hreturns).mpr ?_⟩
  intro ip record hrecord hforeign info hinfo
  have hpeer : ip = "10.0.0.2" := by
    have hlisted : ip ∈ bothMap := Dict.mem_of_lookup hrecord
    simpa [bothMap, ownMap, show ip ≠ "10.0.0.1" from hforeign] using hlisted
  subst hpeer
  cases hrecord
  cases hinfo
  exact ⟨rfl, rfl, rfl⟩

theorem key_refreshed_fails :
    ¬ ∀ (view : View) (state : State), view.Filed → view.returns state = true →
      ∀ ip record, view.record ip = some record → ip ≠ state.ip →
        ∃ info, (view.check state).peers.lookup ip = some info ∧ SamePeer info record := by
  intro claimed
  have hreturns : (View.gossip bothMap).returns (knowing "kb0") = true := by decide +kernel
  obtain ⟨info, hinfo, hkey, -⟩ := claimed (.gossip bothMap) (knowing "kb0") bothMap_filed hreturns
    "10.0.0.2" peerEntry rfl (by decide)
  have hkept : ((View.gossip bothMap).check (knowing "kb0")).peers.lookup "10.0.0.2" =
      some ⟨"kb0", "198.51.100.2", 51820, ["10.0.0.2/32"]⟩ := by decide +kernel
  rw [hkept] at hinfo
  cases hinfo
  exact absurd hkey (by decide)

end WgBp.AllSync
