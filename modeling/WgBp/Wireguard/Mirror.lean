import WgBp.Discovery.Join
import WgBp.Library.Transition
import WgBp.Model.Passes
import WgBp.Mq.Pass
import WgBp.Wireguard.Interface

/-! The peers configured on the interface against `State.peers`: one table is keyed by
public key, the other by virtual IP. -/
namespace WgBp.Wireguard

open WgBp.Library WgBp.Library.Procedure WgBp.Library.Cryptokey WgBp.Library.Transition WgBp.Model

inductive Pass where
  | gossip (peers : PeerMap)
  | mq (sync : Mq.MessageQueueSync)

def Pass.view : Pass → PeerMap
  | .gossip peers => peers
  | .mq sync => sync.peers

def Pass.returned (state : State) : Pass → Option State
  | .gossip peers =>
    match (Gossip.checkForChanges peers).run state with
    | .ok _ after => some after
    | .error _ _ => none
  | .mq sync =>
    match Mq.checkForChanges.run ⟨state, sync⟩ with
    | .ok _ after => some after.state
    | .error _ _ => none

inductive Label where
  | enableAllSyncMode (numOfSyncs : Nat)
  | admission (request : Discovery.Request)
  | startJoin (content : Discovery.Interface)
  | checkForChanges (pass : Pass)

/-- A completed call. Direct and broadcast joins test and add alike; `startJoin` adds
the bootstrap node without a test, to a State that has no peers yet. -/
def next (state : State) : Label → Option State
  | .enableAllSyncMode numOfSyncs => some (state.enableAllSyncMode numOfSyncs)
  | .admission request =>
    if request.ip ∈ state.peers ∨ request.ip = state.ip then some state
    else some (request.addedTo state)
  | .startJoin content =>
    if state.peers = ∅ then
      some (state.addPeer content.ip content.publicKey content.publicIp content.port)
    else none
  | .checkForChanges pass => pass.returned state

/-- Every key that comes with an address is the key of that address alone, and views
file their records under them. -/
def Carries (owner : String → Ip) : Label → Prop
  | .enableAllSyncMode _ => True
  | .admission request => owner (State.strip request.publicKey) = request.ip
  | .startJoin content => owner (State.strip content.publicKey) = content.ip
  | .checkForChanges pass => Keyed pass.view ∧ Owns owner pass.view

instance (owner : String → Ip) : (label : Label) → Decidable (Carries owner label)
  | .enableAllSyncMode _ => inferInstanceAs (Decidable True)
  | .admission _ => inferInstanceAs (Decidable (_ = _))
  | .startJoin _ => inferInstanceAs (Decidable (_ = _))
  | .checkForChanges _ => inferInstanceAs (Decidable (_ ∧ _))

private theorem gossip_returned {peers : PeerMap} {state after : State} (keyed : Keyed peers)
    (foreign : state.ip ∉ state.peers)
    (returns : (Gossip.checkForChanges peers).run state = .ok () after) :
    after = checked peers state := by
  have hfree := Gossip.free_of_returned returns
  rw [Gossip.run_checkForChanges keyed foreign hfree] at returns
  cases returns
  rfl

theorem Pass.returned_eq {pass : Pass} {state after : State} (keyed : Keyed pass.view)
    (foreign : state.ip ∉ state.peers) (returns : pass.returned state = some after) :
    after = checked pass.view state := by
  cases pass with
  | gossip peers =>
      simp only [Pass.returned] at returns
      split at returns
      · rename_i hrun
        cases returns
        exact gossip_returned keyed foreign hrun
      · cases returns
  | mq sync =>
      simp only [Pass.returned] at returns
      split at returns
      · rename_i hrun
        cases returns
        exact Mq.checkForChanges_returned keyed hrun
      · cases returns

inductive Steps (owner : String → Ip) (state : State) : State → Prop where
  | same {after : State} (node : after.ip = state.ip) (peers : after.peers = state.peers)
      (wg : after.wg = state.wg) : Steps owner state after
  | added {ip : Ip} {publicKey : String} (owns : owner (State.strip publicKey) = ip)
      (absent : ip ∉ state.peers) (endpointIp : String) (endpointPort : Nat) :
      Steps owner state (state.addPeer ip publicKey endpointIp endpointPort)
  | passed {peers : PeerMap} (keyed : Keyed peers) (owns : Owns owner peers) :
      Steps owner state (checked peers state)

theorem steps {owner : String → Ip} {state after : State} {label : Label}
    (foreign : state.ip ∉ state.peers) (carries : Carries owner label)
    (step : next state label = some after) : Steps owner state after := by
  cases label with
  | enableAllSyncMode numOfSyncs =>
      cases step
      exact .same rfl rfl rfl
  | admission request =>
      simp only [next] at step
      split at step
      · cases step
        exact .same rfl rfl rfl
      · rename_i hnew
        cases step
        exact .added carries (fun hmem => hnew (.inl hmem)) _ _
  | startJoin content =>
      simp only [next] at step
      split at step
      · rename_i hfresh
        cases step
        refine .added carries ?_ _ _
        rw [hfresh]
        exact AList.notMem_empty _
      · cases step
  | checkForChanges pass =>
      rw [Pass.returned_eq carries.1 foreign step]
      exact .passed carries.1 carries.2

/-- The keys on the interface are those of `State.peers`, each with the endpoint recorded
for it, and no two peers share one. -/
structure Mirrored (state : State) : Prop where
  configured : ∀ key endpoint, (interface id state).endpoint key = some endpoint ↔
    ∃ ip info, state.peers.lookup ip = some info ∧ State.strip info.publicKey = key ∧
      (info.endpointIp, info.endpointPort) = endpoint
  distinct : ∀ ip info other info', state.peers.lookup ip = some info →
    state.peers.lookup other = some info' →
    State.strip info.publicKey = State.strip info'.publicKey → ip = other

private theorem directory_eq_some {state : State} {ip : Ip} {entry : Peer String} :
    directory id state ip = some entry ↔
      ∃ info, state.peers.lookup ip = some info ∧ entryOf id info = entry := by
  unfold directory
  exact Option.map_eq_some_iff

theorem Configured.mirrored {owner : String → Ip} {state : State}
    (configured : Configured id owner state) : Mirrored state where
  configured := by
    intro key endpoint
    rw [configured.mirrors key endpoint]
    constructor
    · rintro ⟨ip, entry, hentry, rfl, rfl⟩
      obtain ⟨info, hinfo, rfl⟩ := directory_eq_some.mp hentry
      exact ⟨ip, info, hinfo, rfl, rfl⟩
    · rintro ⟨ip, info, hinfo, rfl, rfl⟩
      exact ⟨ip, entryOf id info, directory_eq_some.mpr ⟨info, hinfo, rfl⟩, rfl, rfl⟩
  distinct := by
    intro ip info other info' hinfo hinfo' hsame
    have hip := configured.owned ip _ (directory_eq_some.mpr ⟨info, hinfo, rfl⟩)
    have hother := configured.owned other _ (directory_eq_some.mpr ⟨info', hinfo', rfl⟩)
    exact hip.symm.trans ((congrArg owner hsame).trans hother)

structure Sound {ρ : Type} [DecidableEq ρ] (rangeOf : String → ρ) (owner : String → Ip)
    (state : State) : Prop where
  configured : Configured rangeOf owner state
  foreign : state.ip ∉ state.peers

variable {ρ : Type} [DecidableEq ρ] {rangeOf : String → ρ} {owner : String → Ip}

theorem sound_new (rangeOf : String → ρ) (owner : String → Ip) (ip : Ip)
    (publicKey publicIp : String) (publicPort : Nat) :
    Sound rangeOf owner (State.new ip publicKey publicIp publicPort) :=
  ⟨faithful_empty owner, AList.notMem_empty ip⟩

theorem addPeer_foreign {state : State} (foreign : state.ip ∉ state.peers) (ip : Ip)
    (publicKey endpointIp : String) (endpointPort : Nat) :
    (state.addPeer ip publicKey endpointIp endpointPort).ip ∉
      (state.addPeer ip publicKey endpointIp endpointPort).peers := by
  by_cases hown : ip = state.ip
  · rw [State.addPeer, if_pos hown]
    exact foreign
  · rw [(State.addPeer_same state ip publicKey endpointIp endpointPort).ip,
      State.mem_addPeer state publicKey endpointIp endpointPort _ hown]
    rintro (h | h)
    · exact hown h.symm
    · exact foreign h

theorem Sound.step {state after : State} {label : Label} (sound : Sound rangeOf owner state)
    (carries : Carries owner label) (step : next state label = some after) :
    Sound rangeOf owner after := by
  cases steps sound.foreign carries step with
  | same hnode hpeers hwg =>
      refine ⟨sound.configured.congr hpeers hwg, ?_⟩
      rw [hnode, hpeers]
      exact sound.foreign
  | added howns habsent endpointIp endpointPort =>
      exact ⟨sound.configured.addPeer howns habsent _ _, addPeer_foreign sound.foreign _ _ _ _⟩
  | passed hkeyed howns =>
      exact ⟨sound.configured.checked howns, checked_foreign hkeyed sound.foreign⟩

/-- However joins and passes follow each other, in either mode, the interface and State
know the same peers. -/
theorem interface_mirrors_state {ip : Ip} {publicKey publicIp : String} {publicPort : Nat}
    {state : State} (run : Run next (fun _ label => Carries owner label)
      (State.new ip publicKey publicIp publicPort) state) : Mirrored state := by
  have hsound : Sound id owner state := by
    refine run.invariant (Sound id owner) (sound_new id owner ip publicKey publicIp publicPort) ?_
    intro _ _ _ _ hsound hcarries hstep
    exact hsound.step hcarries hstep
  exact hsound.configured.mirrored

def ownerABC (key : String) : Ip :=
  if key = "ka" then "10.0.0.1" else if key = "kb" then "10.0.0.2" else "10.0.0.3"

def recordC : PeerRecord :=
  ⟨"10.0.0.3", "kc", "198.51.100.3", 51820, .port 6883, ["10.0.0.3/32", "192.0.2.0/24"]⟩

def replaced : List Label :=
  [.startJoin ⟨"10.0.0.2", 51820, "kb ", "198.51.100.2"⟩, .enableAllSyncMode 2,
    .admission ⟨"JOIN", "10.0.0.3", "kc", "198.51.100.3", 51820, .port 6883⟩,
    .checkForChanges (.gossip ((∅ : PeerMap).set "10.0.0.3" recordC)),
    .checkForChanges (.mq ⟨6883, 1, (∅ : PeerMap).set "10.0.0.3" recordC, true, [], []⟩)]

theorem interface_mirrors_state_replaced :
    ∃ state : State, state.peers.keys = ["10.0.0.3"] ∧ Mirrored state := by
  have hreplay : (replay next (fun _ label => Carries ownerABC label)
      (State.new "10.0.0.1" "ka" "198.51.100.1" 51820) replaced).any
        (fun state => state.peers.keys = ["10.0.0.3"]) = true := by
    decide +kernel
  obtain ⟨state, hrun, hkeys⟩ := reached_of_replay (fun _ _ h => of_decide_eq_true h) hreplay
  exact ⟨state, of_decide_eq_true hkeys, interface_mirrors_state hrun⟩

end WgBp.Wireguard
