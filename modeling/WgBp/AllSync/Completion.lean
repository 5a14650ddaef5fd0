import WgBp.AllSync.Refresh
import WgBp.Dht.Poll
import WgBp.Mq.Handling

/-! A departure in ALL mode: once all three modules have noticed it, one round of checks,
one for each module, is enough to remove the peer, whatever votes are left over. -/
namespace WgBp.AllSync

open WgBp.Library WgBp.Library.Procedure WgBp.Model

def onShared {σ : Type} (enter : State → σ) (leave : σ → State) (body : EStateM Halt σ Unit) :
    EStateM Halt State Unit := fun state =>
  match body.run (enter state) with
  | .ok _ after => .ok () (leave after)
  | .error error after => .error error (leave after)

def View.checkForChanges (view : View) : EStateM Halt State Unit :=
  match view with
  | .gossip peers => Gossip.checkForChanges peers
  | .mq sync => onShared (fun state => ⟨state, sync⟩) Node.state Mq.checkForChanges
  | .dht store sync =>
    onShared (fun state => ⟨store, ⟨state, sync⟩⟩) (fun site => site.node.state)
      (Dht.checkForChanges.run Dht.handle)

def checkForChanges (syncList : List View) : EStateM Halt State Unit :=
  forM syncList View.checkForChanges

structure Trio where
  gossip : PeerMap
  mq : Mq.MessageQueueSync
  store : Dht.Store
  sync : Dht.SyncDHT
  keys : List Ip
  stored : store.keyList = some keys
  gossipKeyed : Keyed gossip
  mqKeyed : Keyed mq.peers
  ported : Mq.Ported mq.peers
  filed : ∀ key ∈ keys, ∀ record, store.stored key = some record → record.virtualIp = key

def Trio.syncList (trio : Trio) : List View :=
  [.gossip trio.gossip, .mq trio.mq, .dht trio.store trio.sync]

structure Trio.Drops (trio : Trio) (ip : Ip) : Prop where
  gossip : ip ∉ trio.gossip
  mq : ip ∉ trio.mq.peers
  key : ip ∈ trio.keys
  null : trio.store.stored ip = none

structure Trio.Lists (trio : Trio) (ip : Ip) : Prop where
  gossip : ip ∈ trio.gossip
  mq : ip ∈ trio.mq.peers
  key : ip ∈ trio.keys
  record : (trio.store.stored ip).isSome = true

/-- Whoever has a record in the store is the node itself, or known to `State` and to the
other two modules. -/
def Trio.Covers (trio : Trio) (state : State) : Prop :=
  ∀ key ∈ trio.keys, (trio.store.stored key).isSome = true → key ≠ state.ip →
    key ∈ state.peers ∧ key ∈ trio.gossip ∧ key ∈ trio.mq.peers

/-- What one check contributes: a vote against everybody the modules have dropped, and
none against those all of them list. -/
structure Trio.Contributes (trio : Trio) (before after : State) : Prop where
  same : State.SameNode before after
  drops : ∀ ip, trio.Drops ip → ∃ count, after.standing ip =
    (meetStored before.ip before.allSyncMode none)^[count + 1] (before.standing ip)
  lists : ∀ ip, trio.Lists ip → ip ≠ before.ip →
    (after.standing ip).1.isSome = true ∧ (after.standing ip).2 = (before.standing ip).2

private theorem sameNode_released {state mid : State} (free : state.locked = false)
    (same : State.SameNode { state with locked := true } mid) :
    State.SameNode state { mid with locked := false } :=
  ⟨same.ip, same.publicKey, same.publicIp, same.publicPort, same.keepalive, same.allowedIps,
    same.allSyncMode, free.symm⟩

theorem run_onShared {σ : Type} (enter : State → σ) (leave : σ → State)
    {body : EStateM Halt σ Unit} {state : State} {after : σ}
    (run : body.run (enter state) = .ok () after) :
    (onShared enter leave body).run state = .ok () (leave after) := by
  change (match body.run (enter state) with
    | .ok _ after => .ok () (leave after)
    | .error error after => .error error (leave after) : EStateM.Result Halt State Unit) = _
  rw [run]

theorem View.run_mq {sync : Mq.MessageQueueSync} {state : State} {after : Mq.MqNode}
    (run : Mq.checkForChanges.run ⟨state, sync⟩ = .ok () after) :
    (View.mq sync).checkForChanges.run state = .ok () after.state :=
  run_onShared (fun state => (⟨state, sync⟩ : Mq.MqNode)) Node.state run

theorem View.run_dht {store : Dht.Store} {sync : Dht.SyncDHT} {state : State} {after : Dht.Site}
    (run : (Dht.checkForChanges.run Dht.handle).run ⟨store, ⟨state, sync⟩⟩ = .ok () after) :
    (View.dht store sync).checkForChanges.run state = .ok () after.node.state :=
  run_onShared (fun state => (⟨store, ⟨state, sync⟩⟩ : Dht.Site)) (fun site => site.node.state) run

theorem Trio.contributes_gossip (trio : Trio) {state : State} (free : state.locked = false) :
    ∃ after, (View.gossip trio.gossip).checkForChanges.run state = .ok () after ∧
      trio.Contributes state after := by
  refine ⟨_, Gossip.run_checkForChanges_keyed trio.gossipKeyed free, ?_, ?_, ?_⟩
  · exact sameNode_released free ((metAll_same _ _).trans (removedAll_same _ _ _))
  · intro ip drops
    exact ⟨0, Gossip.standing_passed_unlisted state trio.gossipKeyed drops.gossip⟩
  · intro ip lists foreign
    obtain ⟨record, hrecord⟩ := Dict.mem_iff_lookup.mp lists.gossip
    have hstanding := Gossip.standing_passed_listed state trio.gossipKeyed hrecord
    rw [meet_foreign (trio.gossipKeyed ip record hrecord ▸ foreign)] at hstanding
    rw [hstanding]
    exact ⟨rfl, rfl⟩

theorem Trio.contributes_mq (trio : Trio) {state : State} (free : state.locked = false) :
    ∃ after, (View.mq trio.mq).checkForChanges.run state = .ok () after ∧
      trio.Contributes state after := by
  obtain ⟨sync, hrun, -⟩ :=
    Mq.run_checkForChanges ⟨state, trio.mq⟩ trio.mqKeyed trio.ported free
  refine ⟨checked trio.mq.peers state, View.run_mq hrun, ?_, ?_, ?_⟩
  · exact sameNode_released free (reconciled_same _ _)
  · intro ip drops
    refine ⟨0, ?_⟩
    have hstanding := standing_checked state trio.mqKeyed ip
    rw [AList.lookup_eq_none.mpr drops.mq, ite_self] at hstanding
    refine hstanding.trans ?_
    rw [kept, if_neg drops.mq, ← meetStored_none state.ip]
    rfl
  · intro ip lists foreign
    obtain ⟨record, hrecord⟩ := Dict.mem_iff_lookup.mp lists.mq
    have hstanding := standing_checked state trio.mqKeyed ip
    rw [if_neg foreign, hrecord] at hstanding
    rw [hstanding]
    exact ⟨rfl, rfl⟩

/-- No new peer comes up, so the loop over the key list gets through. -/
theorem Trio.binds (trio : Trio) {state : State} (keys : List Ip)
    (filed : ∀ key ∈ keys, ∀ record, trio.store.stored key = some record → record.virtualIp = key)
    (known : ∀ key ∈ keys, (trio.store.stored key).isSome = true → key ≠ state.ip →
      key ∈ state.peers) : Dht.binds trio.store state keys = true := by
  induction keys generalizing state with
  | nil => rfl
  | cons key rest ih =>
      unfold Dht.binds
      have hfiled := fun other (hother : other ∈ rest) => filed other (by simp [hother])
      cases hstored : trio.store.stored key with
      | some record =>
          have hkey := filed key (by simp) record hstored
          dsimp only
          rw [hkey]
          by_cases hown : key = state.ip
          · rw [ih hfiled fun other hother => known other (by simp [hother])]
            simp [hown]
          · simp [known key (by simp) (by simp [hstored]) hown]
      | none =>
          refine ih hfiled ?_
          intro other hother hrecord hforeign
          have hdifferent : other ≠ key := by
            rintro rfl
            simp [hstored] at hrecord
          split
          · rename_i hknown
            rw [if_pos hknown, (State.removePeer_same state key).ip] at hforeign
            have hmem := known other (by simp [hother]) hrecord hforeign
            rw [← AList.lookup_isSome] at hmem ⊢
            rwa [State.lookup_removePeer_ne state hdifferent]
          · rename_i hunknown
            rw [if_neg hunknown] at hforeign
            exact known other (by simp [hother]) hrecord hforeign

theorem Trio.contributes_dht (trio : Trio) {state : State} (free : state.locked = false)
    (covers : trio.Covers state) :
    ∃ after, (View.dht trio.store trio.sync).checkForChanges.run state = .ok () after ∧
      trio.Contributes state after := by
  have hbinds : Dht.binds trio.store { state with locked := true } trio.keys = true :=
    trio.binds trio.keys trio.filed fun key hkey hrecord hforeign =>
      (covers key hkey hrecord hforeign).1
  have hreturned := (Dht.returned_checkKeys trio.store trio.keys _).trans hbinds
  cases hloop : (Dht.checkKeys trio.store trio.keys none).run { state with locked := true } with
  | error error last =>
      rw [hloop] at hreturned
      cases hreturned
  | ok value last =>
      obtain ⟨hsame, hwalk⟩ := Dht.checkKeys_walk trio.filed hloop
      have hrun := Dht.run_checkForChanges trio.stored trio.sync free
      rw [hloop] at hrun
      refine ⟨{ last with locked := false }, View.run_dht hrun,
        sameNode_released free hsame, ?_, ?_⟩
      · intro ip drops
        obtain ⟨count, hcount⟩ := Nat.exists_eq_succ_of_ne_zero
          (Nat.pos_iff_ne_zero.mp (List.count_pos_iff.mpr drops.key))
        refine ⟨count, ?_⟩
        have hvalue := hwalk.value_eq ip
        rw [hcount, drops.null] at hvalue
        exact hvalue
      · intro ip lists foreign
        obtain ⟨record, hrecord⟩ := Option.isSome_iff_exists.mp lists.record
        have hmeet : meetStored state.ip state.allSyncMode (trio.store.stored ip) =
            meet state.ip record := by
          rw [hrecord]
          rfl
        have hvalue := hwalk.value_of_idempotent
          (fun old => by simp only [hmeet, meet_meet]) lists.key
        rw [hmeet, meet_foreign (trio.filed ip lists.key record hrecord ▸ foreign)] at hvalue
        have hstanding : State.standing { last with locked := false } ip =
          (some (reconciledPeer (state.standing ip).1 record), (state.standing ip).2) := hvalue
        rw [hstanding]
        exact ⟨rfl, rfl⟩

theorem Trio.contributes (trio : Trio) {view : View} (member : view ∈ trio.syncList)
    {state : State} (free : state.locked = false) (covers : trio.Covers state) :
    ∃ after, view.checkForChanges.run state = .ok () after ∧ trio.Contributes state after := by
  rw [Trio.syncList, List.mem_cons, List.mem_cons, List.mem_singleton] at member
  rcases member with rfl | rfl | rfl
  · exact trio.contributes_gossip free
  · exact trio.contributes_mq free
  · exact trio.contributes_dht free covers

theorem Trio.Covers.lists {trio : Trio} {state : State} (covers : trio.Covers state) {key : Ip}
    (listed : key ∈ trio.keys) (record : (trio.store.stored key).isSome = true)
    (foreign : key ≠ state.ip) : trio.Lists key :=
  ⟨(covers key listed record foreign).2.1, (covers key listed record foreign).2.2, listed, record⟩

theorem Trio.Contributes.covers {trio : Trio} {before after : State}
    (contributes : trio.Contributes before after) (covers : trio.Covers before) :
    trio.Covers after := by
  intro key hkey hrecord hforeign
  rw [contributes.same.ip] at hforeign
  have hlists := covers.lists hkey hrecord hforeign
  exact ⟨AList.lookup_isSome.mp (contributes.lists key hlists hforeign).1, hlists.gossip,
    hlists.mq⟩

def Leaving (threshold votes : Nat) (standing : Option PeerInfo × Option Nat) : Prop :=
  standing = (none, none) ∨
    standing.1.isSome = true ∧ votes ≤ standing.2.getD 0 ∧ standing.2.getD 0 < threshold

theorem Leaving.mono {threshold votes fewer : Nat} {standing : Option PeerInfo × Option Nat}
    (leaving : Leaving threshold votes standing) (h : fewer ≤ votes) :
    Leaving threshold fewer standing := by
  rcases leaving with hgone | ⟨hpresent, hvotes, hfew⟩
  · exact .inl hgone
  · exact .inr ⟨hpresent, h.trans hvotes, hfew⟩

theorem Leaving.gone {threshold : Nat} {standing : Option PeerInfo × Option Nat}
    (leaving : Leaving threshold threshold standing) : standing = (none, none) := by
  rcases leaving with hgone | ⟨-, hvotes, hfew⟩
  · exact hgone
  · omega

theorem Leaving.vote {own : Ip} {threshold votes : Nat} {standing : Option PeerInfo × Option Nat}
    (leaving : Leaving threshold votes standing) :
    Leaving threshold (votes + 1) (meetStored own threshold none standing) := by
  rcases leaving with rfl | ⟨hpresent, hvotes, hfew⟩
  · exact .inl rfl
  · unfold meetStored votedOut
    dsimp only
    rw [if_pos hpresent, if_neg (by omega)]
    split
    · rename_i hbelow
      exact .inr ⟨hpresent, Nat.succ_le_succ hvotes, hbelow⟩
    · exact .inl rfl

theorem Leaving.votes {own : Ip} {threshold votes : Nat}
    {standing : Option PeerInfo × Option Nat} (leaving : Leaving threshold votes standing)
    (count : Nat) :
    Leaving threshold (votes + count) ((meetStored own threshold none)^[count] standing) := by
  induction count with
  | zero => exact leaving
  | succ count ih =>
      rw [Function.iterate_succ_apply']
      exact ih.vote

theorem Trio.run_checkForChanges (trio : Trio) {syncList : List View}
    (members : ∀ view ∈ syncList, view ∈ trio.syncList) {state : State}
    (free : state.locked = false) (covers : trio.Covers state) :
    ∃ after, (checkForChanges syncList).run state = .ok () after ∧
      (∀ ip votes, trio.Drops ip → Leaving state.allSyncMode votes (state.standing ip) →
        Leaving state.allSyncMode (votes + syncList.length) (after.standing ip)) ∧
      ∀ ip, trio.Lists ip → ip ≠ state.ip → ip ∈ state.peers →
        ip ∈ after.peers ∧ (after.standing ip).2 = (state.standing ip).2 := by
  induction syncList generalizing state with
  | nil => exact ⟨state, rfl, fun _ _ _ leaving => leaving, fun _ _ _ h => ⟨h, rfl⟩⟩
  | cons view rest ih =>
      obtain ⟨mid, hfirst, hmid⟩ := trio.contributes (members view (by simp)) free covers
      obtain ⟨after, hrest, hdrops, hlists⟩ :=
        ih (fun other hother => members other (by simp [hother])) (hmid.same.locked.trans free)
          (hmid.covers covers)
      refine ⟨after, ?_, ?_, ?_⟩
      · unfold checkForChanges at hrest ⊢
        rw [List.forM_cons, EStateM.run_bind, hfirst]
        exact hrest
      · intro ip votes drops leaving
        obtain ⟨count, hstanding⟩ := hmid.drops ip drops
        have hvoted : Leaving state.allSyncMode (votes + 1) (mid.standing ip) := by
          rw [hstanding]
          exact (leaving.votes (count + 1)).mono (by omega)
        rw [← hmid.same.allSyncMode] at hvoted
        have hlast := hdrops ip (votes + 1) drops hvoted
        rw [hmid.same.allSyncMode] at hlast
        rw [List.length_cons]
        exact hlast.mono (by omega)
      · intro ip lists foreign hmem
        obtain ⟨hpresent, hvotes⟩ := hmid.lists ip lists foreign
        obtain ⟨hlast, hkept⟩ := hlists ip lists (hmid.same.ip ▸ foreign)
          (AList.lookup_isSome.mp hpresent)
        exact ⟨hlast, hkept.trans hvotes⟩

theorem all_mode_removal_completes (trio : Trio) (syncList : List View)
    (order : syncList.Perm trio.syncList) (state : State) (mode : state.allSyncMode = 3)
    (few : ∀ ip votes, state.allDeletedCnt.lookup ip = some votes → votes < 3)
    (free : state.locked = false) (covers : trio.Covers state) :
    ∃ after, (checkForChanges syncList).run state = .ok () after ∧
      (∀ peer ∈ state.peers, trio.Drops peer →
        peer ∉ after.peers ∧ peer ∉ after.allDeletedCnt) ∧
      ∀ peer, trio.Lists peer → peer ≠ state.ip →
        peer ∈ after.peers ∧
          after.allDeletedCnt.lookup peer = state.allDeletedCnt.lookup peer := by
  obtain ⟨after, hrun, hdrops, hlists⟩ :=
    trio.run_checkForChanges (fun view hview => order.mem_iff.mp hview) free covers
  refine ⟨after, hrun, ?_, ?_⟩
  · intro peer hpeer drops
    have hstart : Leaving state.allSyncMode 0 (state.standing peer) := by
      refine .inr ⟨AList.lookup_isSome.mpr hpeer, Nat.zero_le _, ?_⟩
      rw [mode]
      unfold State.standing
      cases hvotes : state.allDeletedCnt.lookup peer with
      | none => simp
      | some votes => exact few peer votes hvotes
    have hend := hdrops peer 0 drops hstart
    rw [order.length_eq, mode] at hend
    have hgone := hend.gone
    exact ⟨AList.lookup_eq_none.mp (congrArg Prod.fst hgone),
      AList.lookup_eq_none.mp (congrArg Prod.snd hgone)⟩
  · intro peer lists foreign
    exact hlists peer lists foreign (covers peer lists.key lists.record foreign).1

/-! A node that knows two peers, one of which has left everywhere; votes against both are
left over from earlier rounds. -/

def leftBehind : State :=
  let known := ((ownState.enableAllSyncMode 3).addPeer "10.0.0.2" "kb" "198.51.100.2" 51820).addPeer
    "10.0.0.3" "kc" "198.51.100.3" 51820
  { known with allDeletedCnt := (Dict.set ∅ "10.0.0.2" 1).set "10.0.0.3" 2 }

private theorem bothMap_keyed : Keyed bothMap := by
  refine Dict.All.set (Dict.All.set (Dict.all_empty _) ?_) ?_ <;> rfl

def departed : Trio where
  gossip := bothMap
  mq := ⟨5555, 3, bothMap, true, [⟨"10.0.0.2", 5555⟩], []⟩
  store := ⟨some 2, some ["10.0.0.1", "10.0.0.2", "10.0.0.3"],
    ((Dict.set ∅ "10.0.0.1" (some { ownEntry with syncPort := .missing })).set "10.0.0.2"
      (some { peerEntry with syncPort := .missing })).set "10.0.0.3" none⟩
  sync := ⟨1, 1⟩
  keys := ["10.0.0.1", "10.0.0.2", "10.0.0.3"]
  stored := rfl
  gossipKeyed := bothMap_keyed
  mqKeyed := bothMap_keyed
  ported := Dict.All.set (Dict.All.set (Dict.all_empty _) ⟨_, rfl⟩) ⟨_, rfl⟩
  filed := by decide +kernel

private theorem leftBehind_few :
    Dict.All leftBehind.allDeletedCnt fun _ votes => votes < 3 := by
  refine Dict.All.set (Dict.All.set (Dict.all_empty _) ?_) ?_ <;> decide

theorem all_mode_removal_completes_departed :
    ∃ after, (checkForChanges ([.dht departed.store departed.sync] ++
        [.gossip departed.gossip, .mq departed.mq])).run leftBehind = .ok () after ∧
      "10.0.0.3" ∉ after.peers ∧ "10.0.0.2" ∈ after.peers := by
  have hcovers : departed.Covers leftBehind := by
    unfold Trio.Covers
    decide +kernel
  have horder : List.Perm ([.dht departed.store departed.sync] ++
      [.gossip departed.gossip, .mq departed.mq]) departed.syncList := List.perm_append_comm
  obtain ⟨after, hrun, hgone, hkept⟩ :=
    all_mode_removal_completes departed _ horder leftBehind rfl leftBehind_few rfl hcovers
  have hdrops : departed.Drops "10.0.0.3" := by constructor <;> decide +kernel
  have hlists : departed.Lists "10.0.0.2" := by constructor <;> decide +kernel
  exact ⟨after, hrun, (hgone "10.0.0.3" (by decide) hdrops).1,
    (hkept "10.0.0.2" hlists (by decide)).1⟩

end WgBp.AllSync
