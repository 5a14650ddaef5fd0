import WgBp.Library.Cryptokey
import WgBp.Model.Reconcile

/-! What the commands of `State` do to the WireGuard interface. `rangeOf` stands for
the kernel's reading of an allowed IP; every call hands over the complete list. -/
namespace WgBp.Wireguard

open WgBp.Library WgBp.Library.Cryptokey WgBp.Model

variable {ρ : Type} (rangeOf : String → ρ)

abbrev Peer (ρ : Type) := Entry String (String × Nat) ρ

def effect : WgCommand → Command String (String × Nat) ρ
  | .setPeer publicKey allowedIps endpointAddr endpointPort _ =>
    .put ⟨publicKey, allowedIps.map rangeOf, (endpointAddr, endpointPort)⟩
  | .removePeer publicKey => .drop publicKey

def entryOf (info : PeerInfo) : Peer ρ where
  key := State.strip info.publicKey
  ranges := info.allowedIps.map rangeOf
  endpoint := (info.endpointIp, info.endpointPort)

def directory (state : State) (ip : Ip) : Option (Peer ρ) :=
  (state.peers.lookup ip).map (entryOf rangeOf)

private theorem directory_update {before after : State} {ip : Ip} {value : Option PeerInfo}
    (changed : ∀ other, after.peers.lookup other =
      if other = ip then value else before.peers.lookup other) :
    directory rangeOf after =
      Function.update (directory rangeOf before) ip (value.map (entryOf rangeOf)) := by
  funext other
  unfold directory
  rw [changed]
  by_cases hother : other = ip
  · subst hother
    simp
  · simp [hother]

def defaultPeer (peerVirtualIp : Ip) (publicKey endpointIp : String) (endpointPort : Nat) :
    PeerInfo :=
  ⟨publicKey, endpointIp, endpointPort, State.getAllowedIPs peerVirtualIp⟩

theorem directory_addPeer (state : State) {peerVirtualIp : Ip} (publicKey endpointIp : String)
    (endpointPort : Nat) (foreign : peerVirtualIp ≠ state.ip) :
    directory rangeOf (state.addPeer peerVirtualIp publicKey endpointIp endpointPort) =
      Function.update (directory rangeOf state) peerVirtualIp
        (some (entryOf rangeOf (defaultPeer peerVirtualIp publicKey endpointIp endpointPort))) :=
  directory_update rangeOf fun other =>
    State.lookup_addPeer state publicKey endpointIp endpointPort other foreign

theorem directory_withAllowedIPs (state : State) (peerVirtualIp : Ip) (peer : PeerInfo)
    (allowedIps : List String) :
    directory rangeOf (state.withAllowedIPs peerVirtualIp peer allowedIps) =
      Function.update (directory rangeOf state) peerVirtualIp
        (some (entryOf rangeOf { peer with allowedIps })) :=
  directory_update rangeOf fun other => State.lookup_withAllowedIPs state peerVirtualIp other peer _

@[simp] theorem directory_deletePeer (state : State) (peerVirtualIp : Ip) :
    directory rangeOf (state.deletePeer peerVirtualIp) =
      Function.update (directory rangeOf state) peerVirtualIp none :=
  directory_update rangeOf fun other => State.lookup_deletePeer state peerVirtualIp other

variable [DecidableEq ρ]

def interface (state : State) : Interface String (String × Nat) ρ :=
  replay (state.wg.map (effect rangeOf))

private theorem interface_issued {before after : State} (command : WgCommand)
    (issued : after.wg = before.wg ++ [command]) :
    interface rangeOf after = (interface rangeOf before).apply (effect rangeOf command) := by
  unfold interface
  rw [issued, List.map_append]
  exact replay_concat _ _

theorem interface_addPeer (state : State) {peerVirtualIp : Ip} (publicKey endpointIp : String)
    (endpointPort : Nat) (foreign : peerVirtualIp ≠ state.ip) :
    interface rangeOf (state.addPeer peerVirtualIp publicKey endpointIp endpointPort) =
      (interface rangeOf state).apply (.put
        (entryOf rangeOf (defaultPeer peerVirtualIp publicKey endpointIp endpointPort))) := by
  refine interface_issued rangeOf (.setPeer (State.strip publicKey)
    (State.getAllowedIPs peerVirtualIp) endpointIp endpointPort state.keepalive) ?_
  rw [State.addPeer, if_neg foreign]

@[simp] theorem interface_withAllowedIPs (state : State) (peerVirtualIp : Ip) (peer : PeerInfo)
    (allowedIps : List String) :
    interface rangeOf (state.withAllowedIPs peerVirtualIp peer allowedIps) =
      (interface rangeOf state).apply (.put (entryOf rangeOf { peer with allowedIps })) :=
  interface_issued rangeOf (.setPeer (State.strip peer.publicKey) allowedIps peer.endpointIp
    peer.endpointPort state.keepalive) rfl

theorem interface_deletePeer (state : State) {peerVirtualIp : Ip} {peer : PeerInfo}
    (found : state.peers.lookup peerVirtualIp = some peer) :
    interface rangeOf (state.deletePeer peerVirtualIp) =
      (interface rangeOf state).apply (.drop (entryOf rangeOf peer).key) := by
  refine interface_issued rangeOf (.removePeer (State.strip peer.publicKey)) ?_
  unfold State.deletePeer
  rw [found]

abbrev Configured (owner : String → Ip) (state : State) : Prop :=
  Faithful owner (interface rangeOf state) (directory rangeOf state)

variable {rangeOf} {owner : String → Ip} {state : State}

theorem Configured.addPeer (configured : Configured rangeOf owner state) {peerVirtualIp : Ip}
    {publicKey : String} (owns : owner (State.strip publicKey) = peerVirtualIp)
    (absent : peerVirtualIp ∉ state.peers) (endpointIp : String) (endpointPort : Nat) :
    Configured rangeOf owner (state.addPeer peerVirtualIp publicKey endpointIp endpointPort) := by
  by_cases hown : peerVirtualIp = state.ip
  · rw [State.addPeer, if_pos hown]
    exact configured
  · unfold Configured
    rw [interface_addPeer rangeOf state _ _ _ hown, directory_addPeer rangeOf state _ _ _ hown]
    refine configured.put owns ?_
    intro old hold
    have hnone : state.peers.lookup peerVirtualIp = none := AList.lookup_eq_none.mpr absent
    simp [directory, hnone] at hold

theorem Configured.withAllowedIPs (configured : Configured rangeOf owner state)
    {peerVirtualIp : Ip} {peer : PeerInfo} (found : state.peers.lookup peerVirtualIp = some peer)
    (allowedIps : List String) :
    Configured rangeOf owner (state.withAllowedIPs peerVirtualIp peer allowedIps) := by
  have hentry : directory rangeOf state peerVirtualIp = some (entryOf rangeOf peer) := by
    simp [directory, found]
  have howns : owner (State.strip peer.publicKey) = peerVirtualIp := configured.owned _ _ hentry
  unfold Configured
  rw [interface_withAllowedIPs, directory_withAllowedIPs]
  refine configured.put howns ?_
  intro old hold
  cases hentry.symm.trans hold
  rfl

theorem Configured.deletePeer (configured : Configured rangeOf owner state) (peerVirtualIp : Ip) :
    Configured rangeOf owner (state.deletePeer peerVirtualIp) := by
  cases hfound : state.peers.lookup peerVirtualIp with
  | none =>
      rw [State.deletePeer, hfound]
      exact configured
  | some peer =>
      unfold Configured
      rw [interface_deletePeer rangeOf state hfound, directory_deletePeer]
      refine configured.drop ?_
      simp [directory, hfound]

/-- In ALL mode: one more vote does not remove the peer. -/
def Spared (state : State) (ip : Ip) : Prop :=
  (state.allDeletedCnt.lookup ip).getD 0 + 1 < state.allSyncMode

instance (state : State) (ip : Ip) : Decidable (Spared state ip) := Nat.decLt _ _

/-- A removal is a deletion, or leaves the table and the interface as they are. -/
theorem removePeer_cases (state : State) (ip : Ip) :
    ∃ counted : State, counted.peers = state.peers ∧ counted.wg = state.wg ∧
      (Spared state ip ∧ state.removePeer ip = counted ∨
        ¬Spared state ip ∧ state.removePeer ip = counted.deletePeer ip) := by
  unfold State.removePeer
  dsimp only
  split
  · split
    · rename_i hspared
      refine ⟨_, ?_, ?_, .inl ⟨hspared, rfl⟩⟩ <;> rfl
    · rename_i hreached
      refine ⟨_, ?_, ?_, .inr ⟨hreached, rfl⟩⟩ <;> rfl
  · rename_i hsingle
    have hreached : ¬Spared state ip := by
      rw [Spared, not_not.mp hsingle]
      exact Nat.not_lt_zero _
    refine ⟨_, ?_, ?_, .inr ⟨hreached, rfl⟩⟩ <;> rfl

theorem Configured.congr (configured : Configured rangeOf owner state) {other : State}
    (peers : other.peers = state.peers) (wg : other.wg = state.wg) :
    Configured rangeOf owner other := by
  have hinterface : interface rangeOf other = interface rangeOf state := by
    unfold interface
    rw [wg]
  have hdirectory : directory rangeOf other = directory rangeOf state := by
    funext ip
    unfold directory
    rw [peers]
  unfold Configured
  rw [hinterface, hdirectory]
  exact configured

theorem Configured.removePeer (configured : Configured rangeOf owner state) (peerVirtualIp : Ip) :
    Configured rangeOf owner (state.removePeer peerVirtualIp) := by
  obtain ⟨counted, hpeers, hwg, ⟨-, hcounted⟩ | ⟨-, hdeleted⟩⟩ :=
    removePeer_cases state peerVirtualIp
  · rw [hcounted]
    exact configured.congr hpeers hwg
  · rw [hdeleted]
    exact Configured.deletePeer (configured.congr hpeers hwg) peerVirtualIp

theorem Configured.patched (configured : Configured rangeOf owner state) {record : PeerRecord}
    {peer : PeerInfo} (found : state.peers.lookup record.virtualIp = some peer) :
    Configured rangeOf owner (patched state record peer) := by
  unfold Model.patched
  split
  · exact configured.withAllowedIPs found _
  · exact configured

theorem Configured.entered (configured : Configured rangeOf owner state) {record : PeerRecord}
    (owns : owner (State.strip record.publicKey) = record.virtualIp) :
    Configured rangeOf owner (entered state record) := by
  unfold Model.entered
  split
  · exact configured
  · rename_i hforeign
    split
    · rename_i existing hfound
      exact configured.patched hfound
    · rename_i habsent
      have hunknown : record.virtualIp ∉ state.peers := AList.lookup_eq_none.mp habsent
      refine Configured.patched (configured.addPeer owns hunknown _ _) ?_
      rw [State.lookup_addPeer state _ _ _ _ hforeign, if_pos rfl]

theorem Configured.enteredAll (configured : Configured rangeOf owner state)
    {entries : List (Σ _ : Ip, PeerRecord)}
    (owns : ∀ entry ∈ entries, owner (State.strip entry.2.publicKey) = entry.2.virtualIp) :
    Configured rangeOf owner (enteredAll state entries) := by
  induction entries generalizing state with
  | nil => exact configured
  | cons entry rest ih =>
      refine ih (configured.entered (owns entry (by simp))) ?_
      exact fun other hother => owns other (by simp [hother])

theorem Configured.removedAll (configured : Configured rangeOf owner state) (peers : PeerMap)
    (entries : List (Σ _ : Ip, PeerInfo)) :
    Configured rangeOf owner (removedAll peers state entries) := by
  induction entries generalizing state with
  | nil => exact configured
  | cons entry rest ih =>
      have hone : Configured rangeOf owner (removedUnlisted peers state entry.1) := by
        unfold removedUnlisted
        split
        · exact configured
        · exact configured.removePeer entry.1
      exact ih hone

/-- The owner of every key in the view is the peer the record is about. -/
def Owns (owner : String → Ip) (peers : PeerMap) : Prop :=
  Dict.All peers fun _ record => owner (State.strip record.publicKey) = record.virtualIp

instance (owner : String → Ip) (peers : PeerMap) : Decidable (Owns owner peers) :=
  inferInstanceAs (Decidable (Dict.All peers _))

theorem Configured.checked (configured : Configured rangeOf owner state) {peers : PeerMap}
    (owns : Owns owner peers) : Configured rangeOf owner (checked peers state) := by
  have hlocked : Configured rangeOf owner { state with locked := true } :=
    configured.congr rfl rfl
  have hentered : Configured rangeOf owner
      (Model.enteredAll { state with locked := true } peers.entries) :=
    hlocked.enteredAll fun entry hentry => owns _ _ (Dict.lookup_of_mem_entries hentry)
  exact Configured.congr (hentered.removedAll peers _) rfl rfl

end WgBp.Wireguard
