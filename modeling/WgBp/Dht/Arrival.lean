import WgBp.Dht.Poll
import WgBp.Passes.Stored

/-! From a publication to the other nodes. Whatever calls come in between, a node that has
not taken a published record over is behind the stored counter, so that its next check
runs a pass, and a pass that ends has taken it over; and so for a node that has left. -/
namespace WgBp.Dht.ChangeCheck

open WgBp.Library WgBp.Library.Procedure WgBp.Library.Resumption WgBp.Library.Transition WgBp.Model

variable {n : Nat}

structure Shows (ip : Ip) (target : Option PeerRecord) (state : State) : Prop where
  present : ∀ record, target = some record →
    ∃ info, state.peers.lookup ip = some info ∧ info.allowedIps = record.allowedIps
  absent : target = none → ip ∉ state.peers

theorem shows_of_standing {ip : Ip} {target : Option PeerRecord} {before after : State}
    (foreign : ip ≠ before.ip) (filed : ∀ record, target = some record → record.virtualIp = ip)
    (standing : after.standing ip = meetStored before.ip 0 target (before.standing ip)) :
    Shows ip target after := by
  have hpeer : after.peers.lookup ip = (meetStored before.ip 0 target (before.standing ip)).1 :=
    congrArg Prod.fst standing
  constructor
  · rintro record rfl
    have hforeign : record.virtualIp ≠ before.ip := (filed record rfl) ▸ foreign
    have hmeets : meetStored before.ip 0 (some record) (before.standing ip) =
        (some (reconciledPeer (before.standing ip).1 record), (before.standing ip).2) :=
      meet_foreign hforeign _
    rw [hmeets] at hpeer
    exact ⟨_, hpeer, reconciledPeer_allowedIps _ record⟩
  · rintro rfl
    rw [meetStored_none] at hpeer
    refine AList.lookup_eq_none.mp (hpeer.trans ?_)
    split
    · rfl
    · rename_i hunknown
      exact AList.lookup_eq_none.mpr hunknown

theorem keeps_checkKey (start : State) (key : Ip) (stored : Option PeerRecord)
    (existingPeer : Option PeerInfo) :
    Keeps (State.SameNode start) (checkKey key stored existingPeer) := by
  unfold checkKey
  split
  · refine Keeps.bind (Keeps.get _) fun state => ?_
    split
    · exact Keeps.bind (Keeps.modify fun later h => h.trans (State.removePeer_same _ _)) fun _ =>
        Keeps.pure _ _
    · exact Keeps.pure _ _
  · refine Keeps.bind (Keeps.get _) fun state => ?_
    split
    · exact Keeps.bind (Gossip.keeps_checkAllowedIPs start _ _) fun _ => Keeps.pure _ _
    · refine Keeps.bind (Keeps.get _) fun state => ?_
      split
      · exact Keeps.pure _ _
      · refine Keeps.bind (Keeps.modify fun later h =>
          h.trans (State.addPeer_same _ _ _ _ _)) fun _ => ?_
        refine Keeps.bind (Keeps.get _) fun state => ?_
        refine Keeps.bind (Gossip.keeps_checkAllowedIPs start _ _) fun _ => ?_
        split
        · exact Keeps.throw _ _
        · exact Keeps.bind (Gossip.keeps_checkAllowedIPs start _ _) fun _ => Keeps.pure _ _

theorem keeps_checkKeys (start : State) (store : Store) (keys : List Ip)
    (existingPeer : Option PeerInfo) :
    Keeps (State.SameNode start) (checkKeys store keys existingPeer) := by
  induction keys generalizing existingPeer with
  | nil => exact Keeps.pure _ _
  | cons key rest ih =>
      rw [checkKeys_cons]
      exact Keeps.bind (keeps_checkKey start _ _ _) fun value => ih value

/-- What a check leaves behind: everything as it was, a pass that failed, or one that ended. -/
inductive Checked (store : Store) (keys : List Ip) (counter : Int) (state : State)
    (sync : SyncDHT) : Site → Prop where
  | unchanged : Checked store keys counter state sync ⟨store, ⟨state, sync⟩⟩
  | failed {after : State} (behind : sync.currentChangeCheckValue ≠ counter)
      (same : after.ip = state.ip ∧ after.allSyncMode = state.allSyncMode) :
      Checked store keys counter state sync ⟨store, ⟨after, sync⟩⟩
  | passed {result : Option PeerInfo} {mid : State}
      (loop : (checkKeys store keys none).run { state with locked := true } = .ok result mid)
      (same : mid.ip = state.ip ∧ mid.allSyncMode = state.allSyncMode) :
      Checked store keys counter state sync
        ⟨store, ⟨{ mid with locked := false }, ⟨counter, sync.passes + 1⟩⟩⟩

theorem run_passAndCatchUp {store : Store} {keys : List Ip} (listed : store.keyList = some keys)
    {state : State} (sync : SyncDHT) (free : state.locked = false) (counter : Int) :
    ((passAndCatchUp counter).run handle).run ⟨store, ⟨state, sync⟩⟩ =
      match (checkKeys store keys none).run { state with locked := true } with
      | .ok _ after =>
        .ok () ⟨store, ⟨{ after with locked := false }, ⟨counter, sync.passes + 1⟩⟩⟩
      | .error error after => .error error ⟨store, ⟨after, sync⟩⟩ := by
  unfold passAndCatchUp
  rw [Resumption.run_bind, EStateM.run_bind, Dht.run_checkForChanges listed sync free]
  cases (checkKeys store keys none).run { state with locked := true } <;> rfl

theorem run_passAndCatchUp_held (store : Store) {state : State} (sync : SyncDHT)
    (held : state.locked = true) (counter : Int) :
    ((passAndCatchUp counter).run handle).run ⟨store, ⟨state, sync⟩⟩ =
      .error .blocked ⟨store, ⟨state, sync⟩⟩ := by
  unfold passAndCatchUp
  rw [Resumption.run_bind, EStateM.run_bind, run_checkForChanges_held store sync held]

theorem returned_passAndCatchUp {site : Site} {keys : List Ip}
    (listed : site.store.keyList = some keys) (counter : Int) :
    returned (((passAndCatchUp counter).run handle).run site) = true ↔
      site.node.state.locked = false ∧ PassesThrough site := by
  obtain ⟨store, ⟨state, sync⟩⟩ := site
  dsimp only at listed
  unfold PassesThrough
  cases hlocked : state.locked with
  | true => simp [run_passAndCatchUp_held store sync hlocked, returned]
  | false =>
      have hreturned := returned_checkKeys store keys { state with locked := true }
      rw [binds_locked] at hreturned
      rw [run_passAndCatchUp listed sync hlocked]
      cases hloop : (checkKeys store keys none).run { state with locked := true } with
      | ok result mid =>
          rw [hloop] at hreturned
          simp [listed, ← hreturned, returned]
      | error error mid =>
          rw [hloop] at hreturned
          simp [listed, ← hreturned, returned]

theorem checked_trigger {store : Store} {keys : List Ip} {counter : Int}
    (stored : store.changeCheck = some counter) (listed : store.keyList = some keys)
    {state : State} {sync : SyncDHT} (behind : sync.currentChangeCheckValue ≤ counter)
    (depth : Nat) :
    Checked store keys counter state sync
      (final (((checkForChangeTrigger depth).run handle).run ⟨store, ⟨state, sync⟩⟩)) := by
  cases depth with
  | zero => exact .unchanged
  | succ depth =>
      have hat : At counter keys sync ⟨store, ⟨state, sync⟩⟩ := ⟨stored, listed, rfl⟩
      rw [run_checkForChangeTrigger hat behind]
      split
      · exact .unchanged
      · rename_i hbehind
        cases hlocked : state.locked with
        | true =>
            rw [run_passAndCatchUp_held store sync hlocked]
            exact .unchanged
        | false =>
            have hkeeps := keeps_checkKeys { state with locked := true } store keys none
              { state with locked := true } (.refl _)
            rw [run_passAndCatchUp listed sync hlocked]
            cases hloop : (checkKeys store keys none).run { state with locked := true } with
            | ok result mid =>
                rw [hloop] at hkeeps
                exact .passed hloop ⟨hkeeps.ip, hkeeps.allSyncMode⟩
            | error error mid =>
                rw [hloop] at hkeeps
                exact .failed hbehind ⟨hkeeps.ip, hkeeps.allSyncMode⟩

structure Turned (network after : Network n) (index : Fin n) (site : Site) (phase : Phase) :
    Prop where
  store : after.store = site.store
  node : (after.members index).node = site.node
  phase : (after.members index).phase = phase
  others : ∀ other, other ≠ index → (after.members other).node = (network.members other).node ∧
    (after.members other).phase = (network.members other).phase

theorem turned_call (network : Network n) (index : Fin n) (program : Program Unit) (phase : Phase)
    (foreign : Bool) :
    Turned network (network.call index program phase foreign) index
      (final ((program.run handle).run (network.site index))) phase := by
  refine ⟨rfl, by simp [Network.call], by simp [Network.call], ?_⟩
  intro other hother
  unfold Network.call
  dsimp only
  rw [if_neg hother]
  split <;> exact ⟨rfl, rfl⟩

theorem turned_put (network : Network n) (index : Fin n) (member : Member) :
    Turned network (network.put index member) index ⟨network.store, member.node⟩
      member.phase := by
  refine ⟨rfl, by simp [Network.put], by simp [Network.put], ?_⟩
  intro other hother
  simp [Network.put, hother]

@[simp] theorem site_put (network : Network n) (index : Fin n) (member : Member) :
    (network.put index member).site index = ⟨network.store, member.node⟩ := by
  simp [Network.site, Network.put]

theorem Turned.after_put {network after : Network n} {index : Fin n} {member : Member}
    {site : Site} {phase : Phase}
    (turned : Turned (network.put index member) after index site phase) :
    Turned network after index site phase := by
  refine ⟨turned.store, turned.node, turned.phase, ?_⟩
  intro other hother
  obtain ⟨hnode, hphase⟩ := turned.others other hother
  obtain ⟨hput, hputPhase⟩ := (turned_put network index member).others other hother
  exact ⟨hnode.trans hput, hphase.trans hputPhase⟩

theorem run_publishChange_listed (counter : Int) (keys : List Ip)
    (peers : Dict Ip (Option PeerRecord)) (node : DhtNode) (change : Change) :
    ((publishChange change).run handle).run ⟨⟨some counter, some keys, peers⟩, node⟩ =
      .ok () ⟨⟨some (counter + 1),
        some (if change.virtualIp ∈ keys then keys else keys ++ [change.virtualIp]),
        peers.set change.virtualIp (some (publishedRecord change))⟩,
        ⟨node.state, ⟨node.sync.currentChangeCheckValue + 1, node.sync.passes⟩⟩⟩ := rfl

theorem run_exitSync_listed (counter : Int) (keys : List Ip)
    (peers : Dict Ip (Option PeerRecord)) (node : DhtNode) (virtualIp : Ip) :
    ((exitSync virtualIp).run handle).run ⟨⟨some counter, some keys, peers⟩, node⟩ =
      .ok () ⟨⟨some (counter + 1), some keys, peers.set virtualIp none⟩, node⟩ := rfl

inductive Move (counter : Int) (keys : List Ip) (network : Network n) :
    Event n → Fin n → Site → Phase → Prop where
  | start {index : Fin n} {state : State} : Move counter keys network (.start index state) index
      ⟨{ network.store with peers := network.store.peers.set state.ip (some (ownRecord state)) },
        ⟨state, ⟨-1, 0⟩⟩⟩ .running
  | edit {index : Fin n} {state : State} (running : (network.members index).phase = .running) :
      Move counter keys network (.edit index state) index
        ⟨network.store, ⟨state, (network.members index).node.sync⟩⟩ .running
  | publish {index : Fin n} {change : Change}
      (running : (network.members index).phase = .running) :
      Move counter keys network (.publish index change) index
        ⟨⟨some (counter + 1),
          some (if change.virtualIp ∈ keys then keys else keys ++ [change.virtualIp]),
          network.store.peers.set change.virtualIp (some (publishedRecord change))⟩,
          ⟨(network.members index).node.state,
            ⟨(network.members index).node.sync.currentChangeCheckValue + 1,
              (network.members index).node.sync.passes⟩⟩⟩ .running
  | exit {index : Fin n} (running : (network.members index).phase = .running) :
      Move counter keys network (.exit index) index
        ⟨⟨some (counter + 1), some keys,
          network.store.peers.set (network.members index).node.state.ip none⟩,
          (network.members index).node⟩ .exited
  | trigger {index : Fin n} {depth : Nat} {site : Site}
      (running : (network.members index).phase = .running)
      (checked : Checked network.store keys counter (network.members index).node.state
        (network.members index).node.sync site) :
      Move counter keys network (.trigger index depth) index site .running

variable {network after : Network n}

theorem moved (counts : Counts counter keys network) {event : Event n}
    (step : next network event = some after) : ∃ index site phase,
      Move counter keys network event index site phase ∧ Turned network after index site phase := by
  have hcounter := counts.stored
  have hkeys := counts.listed
  have hsite (index : Fin n) : network.site index =
      ⟨⟨some counter, some keys, network.store.peers⟩, (network.members index).node⟩ := by
    unfold Network.site
    rw [← hcounter, ← hkeys]
  cases event with
  | start index state =>
      simp only [next] at step
      split at step
      · cases step
        have hturned := (turned_call (network.put index (started state)) index (announce state)
          .running false).after_put
        rw [site_put] at hturned
        exact ⟨index, _, _, .start, hturned⟩
      · cases step
  | edit index state =>
      simp only [next] at step
      split at step
      · rename_i hrunning
        cases step
        exact ⟨index, _, _, .edit hrunning, hrunning ▸ turned_put network index _⟩
      · cases step
  | publish index change =>
      simp only [next] at step
      split at step
      · rename_i hrunning
        cases step
        have hturned := turned_call network index (publishChange change) .running true
        rw [hsite, run_publishChange_listed] at hturned
        exact ⟨index, _, _, .publish hrunning, hturned⟩
      · cases step
  | exit index =>
      simp only [next] at step
      split at step
      · rename_i hrunning
        cases step
        have hturned := turned_call network index
          (exitSync (network.members index).node.state.ip) .exited true
        rw [hsite, run_exitSync_listed] at hturned
        exact ⟨index, _, _, .exit hrunning, hturned⟩
      · cases step
  | trigger index depth =>
      simp only [next] at step
      split at step
      · rename_i hrunning
        cases step
        have hbehind := counts.behind_of_running hrunning
        have hchecked : Checked network.store keys counter (network.members index).node.state
            (network.members index).node.sync
            (final (((checkForChangeTrigger depth).run handle).run (network.site index))) :=
          checked_trigger hcounter hkeys (by omega) depth
        exact ⟨index, _, _, .trigger hrunning hchecked, turned_call network index _ .running false⟩
      · cases step

def AllFiled (store : Store) : Prop :=
  ∀ key record, store.stored key = some record → record.virtualIp = key

theorem AllFiled.set {store : Store} (filed : AllFiled store) {key : Ip}
    {value : Option PeerRecord} (own : ∀ record, value = some record → record.virtualIp = key)
    (changeCheck : Option Int) (keyList : Option (List Ip)) :
    AllFiled ⟨changeCheck, keyList, store.peers.set key value⟩ := by
  intro other record hrecord
  simp only [Store.stored, Dict.lookup_set] at hrecord
  split at hrecord
  · rename_i hother
    exact hother ▸ own record hrecord
  · exact filed other record hrecord

@[simp] theorem stored_set (store : Store) {ip key : Ip} (value : Option PeerRecord)
    (changeCheck : Option Int) (keyList : Option (List Ip)) :
    (⟨changeCheck, keyList, store.peers.set key value⟩ : Store).stored ip =
      if ip = key then value else store.stored ip := by
  simp only [Store.stored, Dict.lookup_set]
  split <;> rfl

def Single : Network n → Event n → Prop
  | _, .start _ state => state.allSyncMode = 0
  | _, .edit _ state => state.allSyncMode = 0
  | _, _ => True

/-- Nobody files anything for the address, and between the calls a node leaves its own
address and its entry of that address alone. -/
def Spares (ip : Ip) : Network n → Event n → Prop
  | _, .start _ state => state.allSyncMode = 0 ∧ state.ip ≠ ip
  | network, .edit index state => state.allSyncMode = 0 ∧
    state.ip = (network.members index).node.state.ip ∧
    state.peers.lookup ip = (network.members index).node.state.peers.lookup ip
  | _, .publish _ change => change.virtualIp ≠ ip
  | network, .exit index => (network.members index).node.state.ip ≠ ip
  | _, .trigger _ _ => True

theorem Spares.single {ip : Ip} {event : Event n} (spares : Spares ip network event) :
    Single network event := by
  cases event with
  | start index state => exact spares.1
  | edit index state => exact spares.1
  | _ => trivial

structure Ready (counter : Int) (keys : List Ip) (network : Network n) : Prop where
  counts : Counts counter keys network
  filed : AllFiled network.store
  single : ∀ index, (network.members index).phase = .running →
    (network.members index).node.state.allSyncMode = 0

theorem Checked.store_eq {store : Store} {keys : List Ip} {counter : Int} {state : State}
    {sync : SyncDHT} {site : Site} (checked : Checked store keys counter state sync site) :
    site.store = store := by
  cases checked <;> rfl

theorem Checked.allSyncMode_eq {store : Store} {keys : List Ip} {counter : Int} {state : State}
    {sync : SyncDHT} {site : Site} (checked : Checked store keys counter state sync site) :
    site.node.state.allSyncMode = state.allSyncMode := by
  cases checked with
  | unchanged => rfl
  | failed _ same => exact same.2
  | passed _ same => exact same.2

theorem Move.filed {event : Event n} {index : Fin n} {site : Site} {phase : Phase}
    (move : Move counter keys network event index site phase) (filed : AllFiled network.store) :
    AllFiled site.store := by
  cases move with
  | start => exact filed.set (by rintro record ⟨⟩; rfl) _ _
  | edit => exact filed
  | publish => exact filed.set (by rintro record ⟨⟩; rfl) _ _
  | exit => exact filed.set (by rintro record ⟨⟩) _ _
  | trigger running checked => exact checked.store_eq ▸ filed

theorem Move.single {event : Event n} {index : Fin n} {site : Site} {phase : Phase}
    (move : Move counter keys network event index site phase) (single : Single network event)
    (ready : Ready counter keys network) (runs : phase = .running) :
    site.node.state.allSyncMode = 0 := by
  cases move with
  | start => exact single
  | edit => exact single
  | publish running => exact ready.single index running
  | exit => cases runs
  | trigger running checked => exact checked.allSyncMode_eq.trans (ready.single index running)

theorem Ready.moved (ready : Ready counter keys network) {event : Event n}
    (single : Single network event) {index : Fin n} {site : Site} {phase : Phase}
    (move : Move counter keys network event index site phase)
    (turned : Turned network after index site phase) {counter' : Int} {keys' : List Ip}
    (counts : Counts counter' keys' after) : Ready counter' keys' after := by
  refine ⟨counts, turned.store ▸ move.filed ready.filed, ?_⟩
  intro other hrunning
  by_cases hother : other = index
  · subst hother
    rw [turned.node]
    exact move.single single ready (turned.phase.symm.trans hrunning)
  · obtain ⟨hnode, hphase⟩ := turned.others other hother
    rw [hnode]
    exact ready.single other (hphase ▸ hrunning)

theorem ready_next (ready : Ready counter keys network) {event : Event n}
    (single : Single network event) (step : next network event = some after) :
    ∃ counter keys, Ready counter keys after := by
  obtain ⟨index, site, phase, hmove, hturned⟩ := moved ready.counts step
  obtain ⟨counter', keys', hcounts⟩ := counts_next ready.counts step
  exact ⟨counter', keys', ready.moved single hmove hturned hcounts⟩

theorem ready_created (creator : Fin n) {state : State} (single : state.allSyncMode = 0) :
    Ready 0 [state.ip] (created creator state) := by
  refine ⟨counts_created creator state, ?_, ?_⟩
  · have hempty : AllFiled ⟨none, none, ∅⟩ := by
      intro key record hrecord
      cases hrecord
    have hfirst : AllFiled
        ⟨some 0, some [state.ip], Dict.set ∅ state.ip (some (ownRecord state))⟩ :=
      hempty.set (by rintro record ⟨⟩; rfl) _ _
    exact hfirst
  · intro index hrunning
    unfold created Network.call at hrunning ⊢
    dsimp only at hrunning ⊢
    by_cases h : index = creator
    · subst h
      simp only [Network.site, if_true]
      exact single
    · simp [h] at hrunning

/-- What is stored for an address stays so, and a node that has not taken it over is
behind the counter. The node that filed it goes uncounted. -/
structure Arriving (ip : Ip) (target : Option PeerRecord) (actor : Fin n) (counter : Int)
    (keys : List Ip) (network : Network n) : Prop where
  ready : Ready counter keys network
  kept : network.store.stored ip = target
  key : ip ∈ keys
  told : ∀ index, index ≠ actor → (network.members index).phase = .running →
    (network.members index).node.state.ip ≠ ip →
    (network.members index).node.sync.currentChangeCheckValue < counter ∨
      Shows ip target (network.members index).node.state

section

variable {ip : Ip} {target : Option PeerRecord} {actor : Fin n} {event : Event n} {index : Fin n}
  {site : Site} {phase : Phase} {counter' : Int} {keys' : List Ip}

theorem Move.grows (counts : Counts counter keys network)
    (move : Move counter keys network event index site phase)
    (stored : site.store.changeCheck = some counter') : counter ≤ counter' := by
  have hcounter := counts.stored
  cases move with
  | publish => cases stored; omega
  | exit => cases stored; omega
  | trigger running checked =>
      rw [checked.store_eq, hcounter] at stored
      cases stored
      exact Int.le_refl _
  | _ =>
      rw [show _ = some counter from hcounter] at stored
      cases stored
      exact Int.le_refl _

theorem Move.keeps_key (counts : Counts counter keys network)
    (move : Move counter keys network event index site phase)
    (listed : site.store.keyList = some keys') (key : ip ∈ keys) : ip ∈ keys' := by
  have hkeys := counts.listed
  cases move with
  | publish =>
      cases listed
      split
      · exact key
      · exact List.mem_append_left _ key
  | exit => cases listed; exact key
  | trigger running checked =>
      rw [checked.store_eq, hkeys] at listed
      cases listed
      exact key
  | _ =>
      rw [show _ = some keys from hkeys] at listed
      cases listed
      exact key

theorem Move.stored_spared (move : Move counter keys network event index site phase)
    (spares : Spares ip network event) : site.store.stored ip = network.store.stored ip := by
  cases move with
  | start => exact (stored_set _ _ _ _).trans (if_neg fun h => spares.2 h.symm)
  | edit => rfl
  | publish => exact (stored_set _ _ _ _).trans (if_neg fun h => spares h.symm)
  | exit => exact (stored_set _ _ _ _).trans (if_neg fun h => spares h.symm)
  | trigger running checked => rw [checked.store_eq]

theorem Arriving.shows_passed (arriving : Arriving ip target actor counter keys network)
    (running : (network.members index).phase = .running)
    (foreign : (network.members index).node.state.ip ≠ ip) {result : Option PeerInfo} {mid : State}
    (loop : (checkKeys network.store keys none).run
      { (network.members index).node.state with locked := true } = .ok result mid) :
    Shows ip target mid := by
  have hfiled := arriving.ready.filed
  have hstanding := Passes.standing_returned (fun key _ => hfiled key)
    (arriving.ready.single index running) loop ip
  rw [if_pos arriving.key, arriving.kept] at hstanding
  exact shows_of_standing foreign.symm
    (fun record hrecord => hfiled ip record (arriving.kept.trans hrecord)) hstanding

/-- The member that a step is about has taken the record over, or is still behind. -/
theorem Move.told (arriving : Arriving ip target actor counter keys network)
    (move : Move counter keys network event index site phase) (spares : Spares ip network event)
    (stored : site.store.changeCheck = some counter') (bystander : index ≠ actor)
    (runs : phase = .running) (foreign : site.node.state.ip ≠ ip) :
    site.node.sync.currentChangeCheckValue < counter' ∨ Shows ip target site.node.state := by
  have hgrows := move.grows arriving.ready.counts stored
  have hpositive := arriving.ready.counts.positive
  cases move with
  | start =>
      left
      dsimp only
      omega
  | @edit index state running =>
      obtain ⟨-, hip, hentry⟩ := spares
      rcases arriving.told index bystander running (hip ▸ foreign) with hbehind | hshows
      · exact .inl (Int.lt_of_lt_of_le hbehind hgrows)
      · right
        refine ⟨fun record hrecord => ?_, fun habsent => ?_⟩
        · rw [hentry]
          exact hshows.present record hrecord
        · rw [← AList.lookup_eq_none, hentry]
          exact AList.lookup_eq_none.mpr (hshows.absent habsent)
  | publish running =>
      cases stored
      rcases arriving.told index bystander running foreign with hbehind | hshows
      · left
        dsimp only
        omega
      · exact .inr hshows
  | exit => cases runs
  | trigger running checked =>
      have hcounts := arriving.ready.counts
      have hbehind := hcounts.behind_of_running running
      have hsingle := arriving.ready.single index running
      rw [checked.store_eq, hcounts.stored] at stored
      cases stored
      cases checked with
      | unchanged => exact arriving.told index bystander running foreign
      | failed hbehind same =>
          left
          dsimp only
          omega
      | passed loop same =>
          right
          have hshows := arriving.shows_passed running (fun h => foreign (same.1.trans h)) loop
          exact ⟨hshows.present, hshows.absent⟩

theorem arriving_next (arriving : Arriving ip target actor counter keys network)
    (spares : Spares ip network event) (step : next network event = some after) :
    ∃ counter keys, Arriving ip target actor counter keys after := by
  have hcounts := arriving.ready.counts
  obtain ⟨index, site, phase, hmove, hturned⟩ := moved hcounts step
  obtain ⟨counter', keys', hcounts'⟩ := counts_next hcounts step
  have hstored := hturned.store ▸ hcounts'.stored
  have hlisted := hturned.store ▸ hcounts'.listed
  refine ⟨counter', keys', arriving.ready.moved spares.single hmove hturned hcounts', ?_,
    hmove.keeps_key hcounts hlisted arriving.key, ?_⟩
  · rw [hturned.store, hmove.stored_spared spares]
    exact arriving.kept
  · intro other hother hrunning hforeign
    by_cases hindex : other = index
    · subst hindex
      rw [hturned.node] at hforeign ⊢
      exact hmove.told arriving spares hstored hother (hturned.phase.symm.trans hrunning) hforeign
    · obtain ⟨hnode, hphase⟩ := hturned.others other hindex
      rw [hnode] at hforeign ⊢
      have hgrows := hmove.grows hcounts hstored
      rcases arriving.told other hother (hphase ▸ hrunning) hforeign with hbehind | hshows
      · exact .inl (Int.lt_of_lt_of_le hbehind hgrows)
      · exact .inr hshows

end

inductive Files (network : Network n) : Event n → Fin n → Ip → Option PeerRecord → Prop where
  | published (index : Fin n) (change : Change) :
      Files network (.publish index change) index change.virtualIp (some (publishedRecord change))
  | left (index : Fin n)
      (listed : ∃ keys, network.store.keyList = some keys ∧
        (network.members index).node.state.ip ∈ keys) :
      Files network (.exit index) index (network.members index).node.state.ip none

theorem arriving_filed {ip : Ip} {target : Option PeerRecord} {actor : Fin n} {event : Event n}
    (ready : Ready counter keys network) (step : next network event = some after)
    (files : Files network event actor ip target) :
    ∃ counter keys, Arriving ip target actor counter keys after := by
  have hcounts := ready.counts
  obtain ⟨index, site, phase, hmove, hturned⟩ := moved hcounts step
  obtain ⟨counter', keys', hcounts'⟩ := counts_next hcounts step
  have hstored := hturned.store ▸ hcounts'.stored
  have hlisted := hturned.store ▸ hcounts'.listed
  have hsingle : Single network event := by cases files <;> trivial
  have hbystander (hindex : index = actor) (hgrown : counter' = counter + 1) (other : Fin n)
      (hother : other ≠ actor) (hrunning : (after.members other).phase = .running) :
      (after.members other).node.sync.currentChangeCheckValue < counter' := by
    obtain ⟨hnode, hphase⟩ := hturned.others other (hindex ▸ hother)
    have hbehind := hcounts.behind_of_running (hphase ▸ hrunning)
    rw [hnode]
    omega
  have hready := ready.moved hsingle hmove hturned hcounts'
  cases files with
  | published index change =>
      cases hmove
      cases hstored
      cases hlisted
      refine ⟨_, _, hready, ?_, ?_, fun other hother hrunning _ =>
        .inl (hbystander rfl rfl other hother hrunning)⟩
      · rw [hturned.store, stored_set network.store, if_pos rfl]
      · split
        · assumption
        · simp
  | left index listed =>
      obtain ⟨keys₀, hkeys, hmem⟩ := listed
      rw [hcounts.listed] at hkeys
      cases hkeys
      cases hmove
      cases hstored
      cases hlisted
      refine ⟨_, _, hready, ?_, hmem, fun other hother hrunning _ =>
        .inl (hbystander rfl rfl other hother hrunning)⟩
      rw [hturned.store, stored_set network.store, if_pos rfl]

/-- A node shows the record already, or its next poll finds a change; this gets through
if the lock is free and the pass can, and then the node shows the record. -/
structure Arrives (ip : Ip) (target : Option PeerRecord) (site : Site) : Prop where
  due : Shows ip target site.node.state ∨
    site.store.changeCheck ≠ some site.node.sync.currentChangeCheckValue
  polled : ∀ depth after,
    ((checkForChangeTrigger (depth + 1)).run handle).run site = .ok () after →
      Shows ip target after.node.state
  returns : ¬Shows ip target site.node.state → ∀ depth,
    (returned (((checkForChangeTrigger (depth + 1)).run handle).run site) = true ↔
      site.node.state.locked = false ∧ PassesThrough site)

theorem Arriving.arrives {ip : Ip} {target : Option PeerRecord} {actor index : Fin n}
    (arriving : Arriving ip target actor counter keys network) (bystander : index ≠ actor)
    (running : (network.members index).phase = .running)
    (foreign : (network.members index).node.state.ip ≠ ip) :
    Arrives ip target (network.site index) := by
  have hcounts := arriving.ready.counts
  have hbehind := hcounts.behind_of_running running
  have htold := arriving.told index bystander running foreign
  have htrigger := run_checkForChangeTrigger (hcounts.at_ index) (by omega)
  refine ⟨?_, ?_, ?_⟩
  · rcases htold with hless | hshows
    · right
      change network.store.changeCheck ≠ _
      rw [hcounts.stored, Ne, Option.some.injEq]
      exact (Int.ne_of_lt hless).symm
    · exact .inl hshows
  · intro depth last hlast
    by_cases hlevel : (network.members index).node.sync.currentChangeCheckValue = counter
    · rw [htrigger depth, if_pos hlevel] at hlast
      cases hlast
      exact htold.resolve_left (by omega)
    · rw [htrigger depth, if_neg hlevel] at hlast
      have hlisted : (network.site index).store.keyList = some keys := hcounts.listed
      have hfree := ((returned_passAndCatchUp hlisted counter).mp (by rw [hlast]; rfl)).1
      have hpass := run_passAndCatchUp hlisted (network.members index).node.sync hfree counter
      have hended := hpass.symm.trans hlast
      split at hended
      · rename_i result mid hloop
        cases hended
        have hshows := arriving.shows_passed running foreign hloop
        exact ⟨hshows.present, hshows.absent⟩
      · cases hended
  · intro hnot depth
    have hless := htold.resolve_right hnot
    rw [htrigger depth, if_neg (Int.ne_of_lt hless)]
    exact returned_passAndCatchUp hcounts.listed counter

theorem dht_change_arrives (creator : Fin n) (state : State) (single : state.allSyncMode = 0)
    (network changed after : Network n) (setup : Run next Single (created creator state) network)
    (event : Event n) (step : next network event = some changed) (actor : Fin n) (ip : Ip)
    (target : Option PeerRecord) (files : Files network event actor ip target)
    (run : Run next (Spares ip) changed after) :
    after.store.stored ip = target ∧
      ∀ index, index ≠ actor → (after.members index).phase = .running →
        (after.members index).node.state.ip ≠ ip → Arrives ip target (after.site index) := by
  obtain ⟨counter, keys, hready⟩ := Run.invariant
    (fun network : Network n => ∃ counter keys, Ready counter keys network)
    ⟨0, [state.ip], ready_created creator single⟩
    (fun _ _ _ _ ⟨counter, keys, ready⟩ single step => ready_next ready single step) setup
  obtain ⟨counter, keys, harriving⟩ := Run.invariant
    (fun network : Network n => ∃ counter keys, Arriving ip target actor counter keys network)
    (arriving_filed hready step files)
    (fun _ _ _ _ ⟨counter, keys, arriving⟩ spares step => arriving_next arriving spares step) run
  exact ⟨harriving.kept, fun index hindex hrunning hforeign =>
    harriving.arrives hindex hrunning hforeign⟩

/-! The creator publishes a third node, which the second then finds. -/

def thirdChange : Change := ⟨"10.0.0.3", "kc", "198.51.100.3", 51820, none, some 6881⟩

def joined : State := joinerState.addPeer "10.0.0.1" "ka" "198.51.100.1" 51820

instance (network : Network n) : DecidablePred (Single network)
  | .start _ state => inferInstanceAs (Decidable (state.allSyncMode = 0))
  | .edit _ state => inferInstanceAs (Decidable (state.allSyncMode = 0))
  | .publish _ _ => .isTrue trivial
  | .exit _ => .isTrue trivial
  | .trigger _ _ => .isTrue trivial

instance (ip : Ip) (network : Network n) : DecidablePred (Spares ip network)
  | .start _ state => inferInstanceAs (Decidable (state.allSyncMode = 0 ∧ state.ip ≠ ip))
  | .edit index state => inferInstanceAs (Decidable (state.allSyncMode = 0 ∧
      state.ip = (network.members index).node.state.ip ∧
      state.peers.lookup ip = (network.members index).node.state.peers.lookup ip))
  | .publish _ change => inferInstanceAs (Decidable (change.virtualIp ≠ ip))
  | .exit index => inferInstanceAs (Decidable ((network.members index).node.state.ip ≠ ip))
  | .trigger _ _ => .isTrue trivial

theorem dht_change_arrives_third :
    ∃ changed after : Network 3,
      (changed.members 1).node.state.peers.lookup "10.0.0.3" = none ∧
      (after.members 1).node.state.peers.lookup "10.0.0.3" =
        some ⟨"kc", "198.51.100.3", 51820, ["10.0.0.3/32"]⟩ ∧
      Arrives "10.0.0.3" (some (publishedRecord thirdChange)) (changed.site 1) ∧
      Arrives "10.0.0.3" (some (publishedRecord thirdChange)) (after.site 1) := by
  have hreplay : (replay next (fun network event => decide (Single network event))
      (created 0 creatorState : Network 3)
      [.start 1 joined, .edit 0 (creatorState.addPeer "10.0.0.2" "kb" "198.51.100.2" 51820),
        .publish 0 joinerChange]).any (fun network =>
          (next network (.publish 0 thirdChange)).any fun changed =>
            (changed.members 1).phase = .running ∧
            (changed.members 1).node.state.ip = "10.0.0.2" ∧
            (changed.members 1).node.state.peers.lookup "10.0.0.3" = none ∧
            (replay next (fun network event => decide (Spares "10.0.0.3" network event)) changed
              [.trigger 1 8]).any fun after =>
                (after.members 1).phase = .running ∧
                (after.members 1).node.state.ip = "10.0.0.2" ∧
                (after.members 1).node.state.peers.lookup "10.0.0.3" =
                  some ⟨"kc", "198.51.100.3", 51820, ["10.0.0.3/32"]⟩) = true := by
    decide +kernel
  obtain ⟨network, hsetup, hnetwork⟩ := reached_of_replay (fun _ _ h => of_decide_eq_true h) hreplay
  obtain ⟨changed, hstep, hchanged⟩ := (Option.any_eq_true _ _).mp hnetwork
  obtain ⟨hrunning, hip, hunknown, hlater⟩ := of_decide_eq_true hchanged
  obtain ⟨after, hrun, hafter⟩ := reached_of_replay (fun _ _ h => of_decide_eq_true h) hlater
  obtain ⟨hstill, hsame, hknown⟩ := of_decide_eq_true hafter
  have harrives := dht_change_arrives 0 creatorState rfl network changed changed hsetup _ hstep 0
    "10.0.0.3" _ (.published 0 thirdChange) (.refl changed)
  have harrived := dht_change_arrives 0 creatorState rfl network changed after hsetup _ hstep 0
    "10.0.0.3" _ (.published 0 thirdChange) hrun
  exact ⟨changed, after, hunknown, hknown,
    harrives.2 1 (by decide) hrunning (by rw [hip]; decide),
    harrived.2 1 (by decide) hstill (by rw [hsame]; decide)⟩

end WgBp.Dht.ChangeCheck
