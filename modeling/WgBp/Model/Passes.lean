import WgBp.Library.Keywise
import WgBp.Model.Reconcile

/-! The two loops of a pass address by address: what they make of an entry in
`State.peers` and of the votes on its removal, for any threshold. -/
namespace WgBp.Model

open WgBp.Library WgBp.Library.Keywise

def State.standing (state : State) (ip : Ip) : Option PeerInfo × Option Nat :=
  (state.peers.lookup ip, state.allDeletedCnt.lookup ip)

@[simp] theorem reconciledPeer_allowedIps (old : Option PeerInfo) (record : PeerRecord) :
    (reconciledPeer old record).allowedIps = record.allowedIps := by
  cases old <;> rfl

/-- A call of `remove_peer`: without a threshold the peer goes at once, else with
the vote that reaches the threshold. -/
def votedOut (threshold : Nat) (standing : Option PeerInfo × Option Nat) :
    Option PeerInfo × Option Nat :=
  if threshold = 0 then (none, standing.2)
  else if standing.2.getD 0 + 1 < threshold then (standing.1, some (standing.2.getD 0 + 1))
  else (none, none)

private theorem standing_deletePeer (state : State) (peerVirtualIp other : Ip) :
    (state.deletePeer peerVirtualIp).standing other =
      if other = peerVirtualIp then (none, (state.standing other).2) else state.standing other := by
  have hvotes : (state.deletePeer peerVirtualIp).allDeletedCnt = state.allDeletedCnt := by
    unfold State.deletePeer
    split <;> rfl
  unfold State.standing
  rw [State.lookup_deletePeer, hvotes]
  split <;> rfl

theorem removePeer_visit (state : State) (peerVirtualIp : Ip) :
    Visit State.standing (fun _ => votedOut state.allSyncMode) peerVirtualIp state
      (state.removePeer peerVirtualIp) := by
  intro other
  unfold State.removePeer votedOut
  dsimp only
  by_cases hsingle : state.allSyncMode = 0
  · simp only [hsingle, ne_eq, not_true_eq_false, if_false, if_true, standing_deletePeer]
    rfl
  · simp only [hsingle, ne_eq, not_false_eq_true, if_true, if_false]
    by_cases hother : other = peerVirtualIp
    · subst hother
      rw [if_pos rfl]
      by_cases hfew : (state.allDeletedCnt.lookup other).getD 0 + 1 < state.allSyncMode
      · simp [State.standing, hfew]
      · rw [if_neg hfew, standing_deletePeer]
        simp [State.standing, hfew]
    · rw [if_neg hother]
      split
      · simp [State.standing, Dict.lookup_set_ne _ _ hother]
      · rw [standing_deletePeer, if_neg hother]
        simp [State.standing, hother, Dict.lookup_set_ne _ _ hother]

def kept (peers : PeerMap) (threshold : Nat) (ip : Ip)
    (standing : Option PeerInfo × Option Nat) : Option PeerInfo × Option Nat :=
  if ip ∈ peers then standing else votedOut threshold standing

theorem removedUnlisted_visit (peers : PeerMap) (state : State) (peerIp : Ip) :
    Visit State.standing (kept peers state.allSyncMode) peerIp state
      (removedUnlisted peers state peerIp) := by
  intro other
  unfold removedUnlisted kept
  by_cases hlisted : peerIp ∈ peers
  · rw [if_pos hlisted]
    by_cases hother : other = peerIp
    · simp [hother, hlisted]
    · rw [if_neg hother]
  · rw [if_neg hlisted, removePeer_visit state peerIp other]
    by_cases hother : other = peerIp
    · simp [hother, hlisted]
    · rw [if_neg hother, if_neg hother]

theorem standing_removedAll (peers : PeerMap) (state : State) (ip : Ip) :
    (removedAll peers state state.peers.entries).standing ip =
      if ip ∈ state.peers then kept peers state.allSyncMode ip (state.standing ip)
      else state.standing ip := by
  have hwalk : Walk State.standing (kept peers state.allSyncMode) state.peers.entries.keys state
      (removedAll peers state state.peers.entries) := by
    refine (walk_foldl (fun later => later.allSyncMode = state.allSyncMode) _ ?_ rfl).2
    intro entry _ later hmode
    refine ⟨(removedUnlisted_same peers later entry.1).allSyncMode.trans hmode, ?_⟩
    rw [← hmode]
    exact removedUnlisted_visit peers later entry.1
  by_cases hmem : ip ∈ state.peers
  · rw [if_pos hmem]
    exact hwalk.value_of_nodup state.peers.keys_nodup hmem
  · rw [if_neg hmem]
    exact hwalk.value_of_not_mem hmem

@[simp] theorem patched_votes (state : State) (record : PeerRecord) (peer : PeerInfo) :
    (patched state record peer).allDeletedCnt = state.allDeletedCnt := by
  unfold patched
  split <;> rfl

@[simp] theorem entered_votes (state : State) (record : PeerRecord) :
    (entered state record).allDeletedCnt = state.allDeletedCnt := by
  unfold entered
  split
  · rfl
  · split
    · exact patched_votes _ _ _
    · rename_i hforeign _ _
      rw [patched_votes, State.addPeer, if_neg hforeign]

@[simp] theorem enteredAll_votes (state : State) (entries : List (Σ _ : Ip, PeerRecord)) :
    (enteredAll state entries).allDeletedCnt = state.allDeletedCnt := by
  induction entries generalizing state with
  | nil => rfl
  | cons entry rest ih => exact (ih (entered state entry.2)).trans (entered_votes state entry.2)

private theorem standing_reconciled {peers : PeerMap} (state : State) (keyed : Keyed peers)
    (ip : Ip) :
    (reconciled peers state).standing ip =
      match if ip = state.ip then none else peers.lookup ip with
      | some record =>
        (some (reconciledPeer (state.peers.lookup ip) record), state.allDeletedCnt.lookup ip)
      | none =>
        if ip ∈ state.peers then kept peers state.allSyncMode ip (state.standing ip)
        else state.standing ip := by
  have hentered := lookup_enteredAll state keyed ip
  have hmem : ip ∈ (enteredAll state peers.entries).peers ↔
      ∃ info, (enteredAll state peers.entries).peers.lookup ip = some info := Dict.mem_iff_lookup
  have hstanding : (enteredAll state peers.entries).standing ip =
      ((enteredAll state peers.entries).peers.lookup ip, state.allDeletedCnt.lookup ip) := by
    rw [State.standing, enteredAll_votes]
  have hremoved := standing_removedAll peers (enteredAll state peers.entries) ip
  rw [hstanding, (enteredAll_same state peers.entries).allSyncMode] at hremoved
  unfold reconciled
  rw [hremoved]
  cases hrecord : if ip = state.ip then none else peers.lookup ip with
  | some record =>
      rw [hrecord] at hentered
      have hlisted : ip ∈ peers := by
        split at hrecord
        · cases hrecord
        · exact Dict.mem_of_lookup hrecord
      rw [if_pos (hmem.mpr ⟨_, hentered⟩), hentered]
      exact if_pos hlisted
  | none =>
      rw [hrecord] at hentered
      rw [hentered] at hmem ⊢
      by_cases hold : ip ∈ state.peers
      · rw [if_pos (hmem.mpr (Dict.mem_iff_lookup.mp hold))]
        exact (if_pos hold).symm
      · rw [if_neg fun h => hold (Dict.mem_iff_lookup.mpr (hmem.mp h))]
        exact (if_neg hold).symm

theorem standing_checked {peers : PeerMap} (state : State) (keyed : Keyed peers) (ip : Ip) :
    (checked peers state).standing ip =
      match if ip = state.ip then none else peers.lookup ip with
      | some record =>
        (some (reconciledPeer (state.peers.lookup ip) record), state.allDeletedCnt.lookup ip)
      | none =>
        if ip ∈ state.peers then kept peers state.allSyncMode ip (state.standing ip)
        else state.standing ip :=
  standing_reconciled { state with locked := true } keyed ip

theorem checked_foreign {peers : PeerMap} {state : State} (keyed : Keyed peers)
    (foreign : state.ip ∉ state.peers) :
    (checked peers state).ip ∉ (checked peers state).peers := by
  have hstanding := standing_checked state keyed state.ip
  rw [if_pos rfl] at hstanding
  dsimp only at hstanding
  rw [if_neg foreign] at hstanding
  rw [checked_ip, ← AList.lookup_eq_none]
  exact (congrArg Prod.fst hstanding).trans (AList.lookup_eq_none.mpr foreign)

/-- `SyncGossip` and `SyncDHT` ask who a peer is only before they add it, so an own
entry that is already there is treated like any other. -/
def meet (own : Ip) (record : PeerRecord) (old : Option PeerInfo × Option Nat) :
    Option PeerInfo × Option Nat :=
  if record.virtualIp = own ∧ old.1 = none then old else (some (reconciledPeer old.1 record), old.2)

theorem meet_meet (own : Ip) (record : PeerRecord) (old : Option PeerInfo × Option Nat) :
    meet own record (meet own record old) = meet own record old := by
  unfold meet
  by_cases hskipped : record.virtualIp = own ∧ old.1 = none
  · rw [if_pos hskipped, if_pos hskipped]
  · rw [if_neg hskipped, if_neg (by simp)]
    obtain ⟨peer, votes⟩ := old
    cases peer <;> rfl

theorem meet_foreign {own : Ip} {record : PeerRecord} (foreign : record.virtualIp ≠ own)
    (old : Option PeerInfo × Option Nat) :
    meet own record old = (some (reconciledPeer old.1 record), old.2) :=
  if_neg fun h => foreign h.1

/-- One iteration of the first loop, as `entered` but without the early skip. -/
def met (state : State) (record : PeerRecord) : State :=
  match state.peers.lookup record.virtualIp with
  | some existing => patched state record existing
  | none => entered state record

theorem met_new {state : State} {record : PeerRecord}
    (absent : state.peers.lookup record.virtualIp = none) :
    met state record = entered state record := by
  rw [met, absent]

/-- The skip makes no difference to a `State` without an entry for its own address. -/
theorem met_foreign {state : State} {record : PeerRecord} (foreign : state.ip ∉ state.peers) :
    met state record = entered state record := by
  unfold met
  split
  · rename_i existing hfound
    have hother : record.virtualIp ≠ state.ip := by
      rintro hown
      exact foreign (hown ▸ Dict.mem_of_lookup hfound)
    unfold entered
    rw [if_neg hother, hfound]
  · rfl

theorem met_same (state : State) (record : PeerRecord) :
    State.SameNode state (met state record) := by
  unfold met
  split
  · exact patched_same _ _ _
  · exact entered_same _ _

theorem entered_visit (state : State) (record : PeerRecord) :
    Visit State.standing
      (fun _ old => if record.virtualIp = state.ip then old else meet state.ip record old)
      record.virtualIp state (entered state record) := by
  intro other
  have hstanding : (entered state record).standing other =
      ((entered state record).peers.lookup other, state.allDeletedCnt.lookup other) := by
    rw [State.standing, entered_votes]
  rw [hstanding, lookup_entered]
  by_cases hown : record.virtualIp = state.ip
  · simp [hown, State.standing]
  · by_cases hother : other = record.virtualIp
    · subst hother
      simp [hown, meet_foreign hown, State.standing]
    · simp [hother, State.standing]

theorem met_visit (state : State) (record : PeerRecord) :
    Visit State.standing (fun _ => meet state.ip record) record.virtualIp state
      (met state record) := by
  intro other
  unfold met
  split
  · rename_i existing hfound
    have hstanding : (patched state record existing).standing other =
        ((patched state record existing).peers.lookup other, state.allDeletedCnt.lookup other) := by
      rw [State.standing, patched_votes]
    rw [hstanding, lookup_patched hfound]
    split
    · rename_i hother
      rw [hother]
      simp [meet, State.standing, hfound, reconciledPeer]
    · rfl
  · rename_i habsent
    rw [entered_visit state record other]
    by_cases hother : other = record.virtualIp
    · subst hother
      by_cases hown : record.virtualIp = state.ip
      · simp only [hown, if_true, meet, State.standing]
        simp [habsent]
      · simp [hown]
    · simp [hother]

def metAll (state : State) (entries : List (Σ _ : Ip, PeerRecord)) : State :=
  entries.foldl (fun state entry => met state entry.2) state

theorem metAll_same (state : State) (entries : List (Σ _ : Ip, PeerRecord)) :
    State.SameNode state (metAll state entries) := by
  induction entries generalizing state with
  | nil => exact .refl state
  | cons entry rest ih => exact (met_same state entry.2).trans (ih _)

def meetListed (listed : Ip → Option PeerRecord) (own : Ip) (ip : Ip)
    (old : Option PeerInfo × Option Nat) : Option PeerInfo × Option Nat :=
  match listed ip with
  | some record => meet own record old
  | none => old

theorem standing_metAll (state : State) {peers : PeerMap} (keyed : Keyed peers) (ip : Ip) :
    (metAll state peers.entries).standing ip =
      meetListed peers.lookup state.ip ip (state.standing ip) := by
  have hwalk : Walk State.standing (meetListed peers.lookup state.ip) peers.entries.keys state
      (metAll state peers.entries) := by
    refine (walk_foldl (fun later => later.ip = state.ip) _ ?_ rfl).2
    intro entry hentry later hip
    have hlookup := Dict.lookup_of_mem_entries hentry
    refine ⟨(met_same later entry.2).ip.trans hip, ?_⟩
    have hvisit := met_visit later entry.2
    rw [keyed _ _ hlookup, hip] at hvisit
    refine hvisit.congr ?_
    funext old
    simp [meetListed, hlookup]
  by_cases hlisted : ip ∈ peers
  · exact hwalk.value_of_nodup peers.keys_nodup hlisted
  · rw [hwalk.value_of_not_mem hlisted, meetListed, AList.lookup_eq_none.mpr hlisted]

theorem standing_removedAll_listed {peers : PeerMap} (state : State) {ip : Ip}
    (listed : ip ∈ peers) :
    (removedAll peers state state.peers.entries).standing ip = state.standing ip := by
  rw [standing_removedAll, kept, if_pos listed, ite_self]

theorem lookup_removedAll_unlisted {peers : PeerMap} {state : State}
    (single : state.allSyncMode = 0) {ip : Ip} (unlisted : ip ∉ peers) :
    (removedAll peers state state.peers.entries).peers.lookup ip = none := by
  have hstanding := congrArg Prod.fst (standing_removedAll peers state ip)
  rw [kept, if_neg unlisted, votedOut, if_pos single] at hstanding
  refine hstanding.trans ?_
  split
  · rfl
  · rename_i habsent
    exact AList.lookup_eq_none.mpr habsent

/-- What a stored value makes of an address in a pass of `SyncDHT`; a key without a
record stands for a peer that has left. -/
def meetStored (own : Ip) (threshold : Nat) (stored : Option PeerRecord)
    (old : Option PeerInfo × Option Nat) : Option PeerInfo × Option Nat :=
  match stored with
  | some record => meet own record old
  | none => if old.1.isSome then votedOut threshold old else old

theorem meetStored_none (own : Ip) (threshold : Nat) (state : State) (ip : Ip) :
    meetStored own threshold none (state.standing ip) =
      if ip ∈ state.peers then votedOut threshold (state.standing ip) else state.standing ip := by
  unfold meetStored
  by_cases hknown : ip ∈ state.peers
  · have hsome : (state.standing ip).1.isSome = true := AList.lookup_isSome.mpr hknown
    rw [if_pos hknown, if_pos hsome]
  · have hnone : (state.standing ip).1 = none := AList.lookup_eq_none.mpr hknown
    rw [if_neg hknown, if_neg (by simp [hnone])]

theorem meetStored_meetStored (own : Ip) (stored : Option PeerRecord)
    (old : Option PeerInfo × Option Nat) :
    meetStored own 0 stored (meetStored own 0 stored old) = meetStored own 0 stored old := by
  cases stored with
  | some record => exact meet_meet own record old
  | none =>
      unfold meetStored votedOut
      by_cases hpresent : old.1.isSome <;> simp [hpresent]

/-- `State` already holds what a pass over the view would leave. -/
structure Settled (peers : PeerMap) (state : State) : Prop where
  listed : ∀ ip record, peers.lookup ip = some record → ip ≠ state.ip →
    ∃ info, state.peers.lookup ip = some info ∧ record.allowedIps = info.allowedIps
  unlisted : ∀ ip ∈ state.peers, ip ∈ peers

theorem checked_settled {peers : PeerMap} {state : State} (keyed : Keyed peers)
    (single : state.allSyncMode = 0) (foreign : state.ip ∉ state.peers) :
    Settled peers (checked peers state) where
  listed := by
    intro ip record hrecord hforeign
    rw [checked_ip] at hforeign
    have hstanding := congrArg Prod.fst (standing_checked state keyed ip)
    rw [if_neg hforeign, hrecord] at hstanding
    exact ⟨_, hstanding, (reconciledPeer_allowedIps _ record).symm⟩
  unlisted := fun ip hmem => ((checked_tracks keyed single foreign ip).mp hmem).1

private theorem Settled.entered {peers : PeerMap} {state : State} (settled : Settled peers state)
    (keyed : Keyed peers) {entry : Σ _ : Ip, PeerRecord} (listed : entry ∈ peers.entries) :
    entered state entry.2 = state := by
  have hlookup := Dict.lookup_of_mem_entries listed
  have hkey := keyed _ _ hlookup
  unfold Model.entered
  by_cases hown : entry.2.virtualIp = state.ip
  · rw [if_pos hown]
  · obtain ⟨info, hinfo, hallowed⟩ := settled.listed _ _ hlookup (hkey ▸ hown)
    rw [if_neg hown, hkey, hinfo]
    simp [patched, hallowed]

private theorem foldl_stays {α : Type} {step : State → α → State} {state : State} (items : List α)
    (stays : ∀ item ∈ items, step state item = state) : items.foldl step state = state := by
  induction items with
  | nil => rfl
  | cons item rest ih =>
      rw [List.foldl_cons, stays item (by simp)]
      exact ih fun other hother => stays other (by simp [hother])

theorem Settled.enteredAll {peers : PeerMap} {state : State} (settled : Settled peers state)
    (keyed : Keyed peers) : enteredAll state peers.entries = state :=
  foldl_stays _ fun _ hentry => settled.entered keyed hentry

theorem Settled.removedAll {peers : PeerMap} {state : State} (settled : Settled peers state) :
    removedAll peers state state.peers.entries = state :=
  foldl_stays _ fun _ hentry => if_pos
    (settled.unlisted _ (Dict.mem_of_lookup (Dict.lookup_of_mem_entries hentry)))

theorem Settled.checked {peers : PeerMap} {state : State} (settled : Settled peers state)
    (keyed : Keyed peers) (free : state.locked = false) : checked peers state = state := by
  have hlocked : Settled peers { state with locked := true } :=
    ⟨settled.listed, settled.unlisted⟩
  unfold Model.checked reconciled
  rw [hlocked.enteredAll keyed, hlocked.removedAll, ← free]

end WgBp.Model
