import WgBp.Model.State

/-! Reconciling `State.peers` with a module's view: the helpers the three
modules share, and what the two loops of a pass amount to as pure updates. -/
namespace WgBp.Model

open WgBp.Library WgBp.Library.Procedure

abbrev PeerMap := Dict Ip PeerRecord

structure Change where
  virtualIp : Ip
  publicKey : String
  endpointIp : String
  endpointPort : Nat
  allowedIps : Option (List String)
  syncPort : Option Nat
  deriving DecidableEq, Repr

/-- An empty list counts as not given. -/
def Change.allowedOrDefault (change : Change) : List String :=
  match change.allowedIps with
  | some (first :: rest) => first :: rest
  | _ => [change.virtualIp ++ "/32"]

/-- The publication of the node's own record after an allowed-IP command. -/
def State.ownChange (state : State) : Change where
  virtualIp := state.ip
  publicKey := state.publicKey
  endpointIp := state.publicIp
  endpointPort := state.publicPort
  allowedIps := some state.allowedIps
  syncPort := none

theorem ownChange_allowedOrDefault {state : State} (nonempty : state.allowedIps ≠ []) :
    state.ownChange.allowedOrDefault = state.allowedIps := by
  obtain ⟨first, rest, hlist⟩ := List.exists_cons_of_ne_nil nonempty
  unfold Change.allowedOrDefault State.ownChange
  dsimp only
  rw [hlist]

def State.ownRecord (state : State) (port : Nat) : PeerRecord where
  virtualIp := state.ip
  publicKey := state.publicKey
  endpointIp := state.publicIp
  endpointPort := state.publicPort
  syncPort := .port port
  allowedIps := state.allowedIps

def PeerRecord.getSyncPort {σ : Type} (record : PeerRecord) : EStateM Halt σ SyncPort :=
  if record.syncPort = .missing then throw (.raised .keyError) else pure record.syncPort

def Keyed (peers : PeerMap) : Prop := Dict.All peers fun key record => record.virtualIp = key

instance (peers : PeerMap) : Decidable (Keyed peers) :=
  inferInstanceAs (Decidable (Dict.All peers _))

/-- `_checkAllowedIPs`, the same in the three modules. Subscripting a missing
peer is a `TypeError`. -/
def checkAllowedIPs (peerInfo : PeerRecord) (existingPeer : Option PeerInfo) :
    EStateM Halt State Unit :=
  match existingPeer with
  | none => throw (.raised .typeError)
  | some existing =>
    if peerInfo.allowedIps ≠ existing.allowedIps then
      State.setPeerAllowedIPs peerInfo.virtualIp peerInfo.allowedIps
    else pure ()

/-- The second loop of a pass: ask for the removal of every peer the view does
not list, walking a copy of the table. -/
def removeUnlisted (peers : PeerMap) : EStateM Halt State Unit := do
  let existingPeersCopy := (← get).peers.entries
  forM existingPeersCopy fun existing =>
    if existing.1 ∈ peers then pure ()
    else modify fun state => state.removePeer existing.1

/-- What `State.peers` should hold for a listed peer: its key and endpoint are
taken over when the peer is new, its allowed IPs always. -/
def reconciledPeer (old : Option PeerInfo) (record : PeerRecord) : PeerInfo :=
  match old with
  | none => ⟨record.publicKey, record.endpointIp, record.endpointPort, record.allowedIps⟩
  | some peer => { peer with allowedIps := record.allowedIps }

def patched (state : State) (record : PeerRecord) (peer : PeerInfo) : State :=
  if record.allowedIps ≠ peer.allowedIps then
    state.withAllowedIPs record.virtualIp peer record.allowedIps
  else state

def entered (state : State) (record : PeerRecord) : State :=
  if record.virtualIp = state.ip then state
  else match state.peers.lookup record.virtualIp with
    | some existing => patched state record existing
    | none =>
      patched
        (state.addPeer record.virtualIp record.publicKey record.endpointIp record.endpointPort)
        record
        ⟨record.publicKey, record.endpointIp, record.endpointPort,
          State.getAllowedIPs record.virtualIp⟩

def enteredAll (state : State) (entries : List (Σ _ : Ip, PeerRecord)) : State :=
  entries.foldl (fun state entry => entered state entry.2) state

def removedUnlisted (peers : PeerMap) (state : State) (peerIp : Ip) : State :=
  if peerIp ∈ peers then state else state.removePeer peerIp

def removedAll (peers : PeerMap) (state : State)
    (entries : List (Σ _ : Ip, PeerInfo)) : State :=
  entries.foldl (fun state entry => removedUnlisted peers state entry.1) state

def reconciled (peers : PeerMap) (state : State) : State :=
  let listed := enteredAll state peers.entries
  removedAll peers listed listed.peers.entries

theorem run_checkAllowedIPs {state : State} {record : PeerRecord} {peer : PeerInfo}
    (found : state.peers.lookup record.virtualIp = some peer) :
    (checkAllowedIPs record (some peer)).run state = .ok () (patched state record peer) := by
  unfold checkAllowedIPs patched
  dsimp only
  split
  · exact State.run_setPeerAllowedIPs found _
  · rfl

theorem run_checkAllowedIPs_added {state : State} {record : PeerRecord}
    (absent : state.peers.lookup record.virtualIp = none)
    (foreign : record.virtualIp ≠ state.ip) {added : State} (adds : added =
      state.addPeer record.virtualIp record.publicKey record.endpointIp record.endpointPort) :
    (checkAllowedIPs record (added.peers.lookup record.virtualIp)).run added =
      .ok () (entered state record) := by
  subst adds
  have hadded : (state.addPeer record.virtualIp record.publicKey record.endpointIp
      record.endpointPort).peers.lookup record.virtualIp = some
        ⟨record.publicKey, record.endpointIp, record.endpointPort,
          State.getAllowedIPs record.virtualIp⟩ := by
    rw [State.lookup_addPeer state _ _ _ _ foreign, if_pos rfl]
  rw [hadded, run_checkAllowedIPs hadded, entered, if_neg foreign, absent]

theorem patched_same (state : State) (record : PeerRecord) (peer : PeerInfo) :
    State.SameNode state (patched state record peer) := by
  unfold patched
  split
  · exact State.withAllowedIPs_same _ _ _ _
  · exact .refl state

theorem lookup_patched {state : State} {record : PeerRecord} {peer : PeerInfo}
    (found : state.peers.lookup record.virtualIp = some peer) (other : Ip) :
    (patched state record peer).peers.lookup other =
      if other = record.virtualIp then some { peer with allowedIps := record.allowedIps }
      else state.peers.lookup other := by
  unfold patched
  split
  · exact State.lookup_withAllowedIPs _ _ _ _ _
  · rename_i hequal
    have hallowed : record.allowedIps = peer.allowedIps := not_not.mp hequal
    split
    · rename_i hother
      rw [hother, found, hallowed]
    · rfl

theorem entered_same (state : State) (record : PeerRecord) :
    State.SameNode state (entered state record) := by
  unfold entered
  split
  · exact .refl state
  · split
    · exact patched_same _ _ _
    · exact (State.addPeer_same _ _ _ _ _).trans (patched_same _ _ _)

@[simp] theorem lookup_entered (state : State) (record : PeerRecord) (other : Ip) :
    (entered state record).peers.lookup other =
      if other = record.virtualIp ∧ record.virtualIp ≠ state.ip then
        some (reconciledPeer (state.peers.lookup record.virtualIp) record)
      else state.peers.lookup other := by
  unfold entered
  by_cases hown : record.virtualIp = state.ip
  · simp [hown]
  · rw [if_neg hown]
    split
    · rename_i existing found
      rw [lookup_patched found]
      simp [hown, reconciledPeer, found]
    · rename_i absent
      have hadded (other : Ip) := State.lookup_addPeer state record.publicKey
        record.endpointIp record.endpointPort other hown
      rw [lookup_patched (by simp [hadded]), hadded]
      by_cases hother : other = record.virtualIp <;>
        simp [hother, hown, reconciledPeer, absent]

theorem enteredAll_same (state : State) (entries : List (Σ _ : Ip, PeerRecord)) :
    State.SameNode state (enteredAll state entries) := by
  unfold enteredAll
  induction entries generalizing state with
  | nil => exact .refl state
  | cons entry rest ih => exact (entered_same state entry.2).trans (ih _)

private theorem lookup_enteredAll_list (state : State) (other : Ip)
    (entries : List (Σ _ : Ip, PeerRecord)) (nodup : entries.NodupKeys)
    (keyed : ∀ entry ∈ entries, entry.2.virtualIp = entry.1) :
    (enteredAll state entries).peers.lookup other =
      match if other = state.ip then none else entries.dlookup other with
      | some record => some (reconciledPeer (state.peers.lookup other) record)
      | none => state.peers.lookup other := by
  induction entries generalizing state with
  | nil => simp [enteredAll]
  | cons entry rest ih =>
      obtain ⟨key, record⟩ := entry
      have hkey : record.virtualIp = key := keyed ⟨key, record⟩ (by simp)
      obtain ⟨hfresh, hrest⟩ := List.nodupKeys_cons.mp nodup
      have htail := ih (entered state record) hrest
        fun entry hentry => keyed entry (by simp [hentry])
      have hstep : enteredAll state (⟨key, record⟩ :: rest) =
          enteredAll (entered state record) rest := rfl
      rw [hstep, htail, lookup_entered, (entered_same state record).ip, hkey]
      by_cases hother : other = key
      · subst hother
        have habsent : rest.dlookup other = none := List.dlookup_eq_none.mpr hfresh
        by_cases hown : other = state.ip <;> simp [hown, habsent]
      · have htailOnly : List.dlookup other (⟨key, record⟩ :: rest) = rest.dlookup other :=
          List.dlookup_cons_ne rest ⟨key, record⟩ hother
        simp [hother, htailOnly]

theorem lookup_enteredAll (state : State) {peers : PeerMap} (keyed : Keyed peers)
    (other : Ip) :
    (enteredAll state peers.entries).peers.lookup other =
      match if other = state.ip then none else peers.lookup other with
      | some record => some (reconciledPeer (state.peers.lookup other) record)
      | none => state.peers.lookup other :=
  lookup_enteredAll_list state other peers.entries peers.nodupKeys fun entry hentry =>
    keyed entry.1 entry.2 (Dict.lookup_of_mem_entries hentry)

theorem removedUnlisted_same (peers : PeerMap) (state : State) (peerIp : Ip) :
    State.SameNode state (removedUnlisted peers state peerIp) := by
  unfold removedUnlisted
  split
  · exact .refl state
  · exact State.removePeer_same _ _

theorem removedAll_same (peers : PeerMap) (state : State)
    (entries : List (Σ _ : Ip, PeerInfo)) :
    State.SameNode state (removedAll peers state entries) := by
  unfold removedAll
  induction entries generalizing state with
  | nil => exact .refl state
  | cons entry rest ih => exact (removedUnlisted_same peers state entry.1).trans (ih _)

theorem lookup_removedAll (peers : PeerMap) (state : State)
    (single : state.allSyncMode = 0) (entries : List (Σ _ : Ip, PeerInfo)) (other : Ip) :
    (removedAll peers state entries).peers.lookup other =
      if other ∈ entries.keys ∧ other ∉ peers then none else state.peers.lookup other := by
  induction entries generalizing state with
  | nil => simp [removedAll]
  | cons entry rest ih =>
      have hsame := removedUnlisted_same peers state entry.1
      have hstep : removedAll peers state (entry :: rest) =
          removedAll peers (removedUnlisted peers state entry.1) rest := rfl
      rw [hstep, ih _ (hsame.allSyncMode.trans single)]
      have hhead : (removedUnlisted peers state entry.1).peers.lookup other =
          if other = entry.1 ∧ other ∉ peers then none else state.peers.lookup other := by
        unfold removedUnlisted
        split
        · rename_i hlisted
          have hnot : ¬(other = entry.1 ∧ other ∉ peers) := by
            rintro ⟨rfl, hunlisted⟩
            exact hunlisted hlisted
          rw [if_neg hnot]
        · rename_i hunlisted
          rw [State.lookup_removePeer _ _ _ single]
          by_cases hother : other = entry.1
          · simp [hother, hunlisted]
          · simp [hother]
      rw [hhead]
      obtain ⟨key, info⟩ := entry
      by_cases hother : other = key
      · subst hother
        by_cases hlisted : other ∈ peers <;> simp [hlisted]
      · simp [hother]

theorem reconciled_same (peers : PeerMap) (state : State) :
    State.SameNode state (reconciled peers state) :=
  (enteredAll_same state peers.entries).trans (removedAll_same peers _ _)

/-- Outside ALL mode a pass leaves exactly the listed foreign peers, each with
its reconciled entry. -/
theorem lookup_reconciled (state : State) {peers : PeerMap} (keyed : Keyed peers)
    (single : state.allSyncMode = 0) (foreign : state.ip ∉ state.peers) (other : Ip) :
    (reconciled peers state).peers.lookup other =
      if other = state.ip then none
      else (peers.lookup other).map (reconciledPeer (state.peers.lookup other)) := by
  have hlisted := enteredAll_same state peers.entries
  have hentered := lookup_enteredAll state keyed other
  unfold reconciled
  rw [lookup_removedAll _ _ (hlisted.allSyncMode.trans single)]
  by_cases hother : other = state.ip
  · subst hother
    have hown : state.peers.lookup state.ip = none := AList.lookup_eq_none.mpr foreign
    simp [hentered, hown]
  · rw [if_neg hother] at hentered ⊢
    cases hrecord : peers.lookup other with
    | some record => simp [hentered, hrecord, Dict.mem_of_lookup hrecord]
    | none =>
        have hunlisted : other ∉ peers := AList.lookup_eq_none.mp hrecord
        rw [hrecord] at hentered
        cases hold : state.peers.lookup other with
        | none => simp [hentered, hold]
        | some info =>
            have hcopied : other ∈ (enteredAll state peers.entries).peers.entries.keys :=
              Dict.mem_of_lookup (hentered.trans hold)
            simp [hcopied, hunlisted]

def Tracks (state : State) (peers : PeerMap) : Prop :=
  ∀ ip, ip ∈ state.peers ↔ ip ∈ peers ∧ ip ≠ state.ip

theorem Tracks.foreign {state : State} {peers : PeerMap} (h : Tracks state peers) :
    state.ip ∉ state.peers := fun hmem => ((h _).mp hmem).2 rfl

theorem reconciled_tracks (state : State) {peers : PeerMap} (keyed : Keyed peers)
    (single : state.allSyncMode = 0) (foreign : state.ip ∉ state.peers) :
    Tracks (reconciled peers state) peers := by
  intro ip
  rw [Dict.mem_iff_lookup, lookup_reconciled state keyed single foreign,
    (reconciled_same peers state).ip, Dict.mem_iff_lookup]
  by_cases hown : ip = state.ip
  · simp [hown]
  · cases peers.lookup ip <;> simp [hown]

@[simp] theorem run_removeUnlisted (peers : PeerMap) (state : State) :
    (removeUnlisted peers).run state =
      .ok () (removedAll peers state state.peers.entries) := by
  unfold removeUnlisted
  rw [EStateM.run_bind, EStateM.run_get]
  refine run_forM (fun _ => True) _ ?_ state trivial
  intro existing _ state _
  refine ⟨?_, trivial⟩
  unfold removedUnlisted
  split <;> rfl

def checked (peers : PeerMap) (state : State) : State :=
  { reconciled peers { state with locked := true } with locked := false }

@[simp] theorem checked_ip (peers : PeerMap) (state : State) :
    (checked peers state).ip = state.ip :=
  (reconciled_same peers { state with locked := true }).ip

@[simp] theorem checked_allSyncMode (peers : PeerMap) (state : State) :
    (checked peers state).allSyncMode = state.allSyncMode :=
  (reconciled_same peers { state with locked := true }).allSyncMode

@[simp] theorem checked_allowedIps (peers : PeerMap) (state : State) :
    (checked peers state).allowedIps = state.allowedIps :=
  (reconciled_same peers { state with locked := true }).allowedIps

theorem checked_tracks {peers : PeerMap} {state : State} (keyed : Keyed peers)
    (single : state.allSyncMode = 0) (foreign : state.ip ∉ state.peers) :
    Tracks (checked peers state) peers :=
  reconciled_tracks { state with locked := true } keyed single foreign

end WgBp.Model
