import WgBp.Wireguard.Routes

/-! Networks in which every range belongs to one address. There a pass gives each peer the
ranges it lists, and takes none of them away from another one. -/
namespace WgBp.Wireguard

open WgBp.Library WgBp.Library.Cryptokey WgBp.Library.Transition WgBp.Model

variable {ρ : Type} {rangeOf : String → ρ} {home : ρ → Ip} {owner : String → Ip}
variable {state : State} {peers : PeerMap}

def AtHome (rangeOf : String → ρ) (home : ρ → Ip) (ip : Ip) (allowedIps : List String) : Prop :=
  ∀ allowedIp ∈ allowedIps, home (rangeOf allowedIp) = ip

def AllAtHome (rangeOf : String → ρ) (home : ρ → Ip) (peers : PeerMap) : Prop :=
  Dict.All peers fun ip record => AtHome rangeOf home ip record.allowedIps

theorem AtHome.range {ip : Ip} {allowedIps : List String}
    (atHome : AtHome rangeOf home ip allowedIps) {range : ρ}
    (listed : range ∈ allowedIps.map rangeOf) : home range = ip := by
  obtain ⟨allowedIp, hmem, rfl⟩ := List.mem_map.mp listed
  exact atHome allowedIp hmem

theorem AtHome.same {ip other : Ip} {allowedIps allowedIps' : List String}
    (atHome : AtHome rangeOf home ip allowedIps) (atHome' : AtHome rangeOf home other allowedIps')
    {range : ρ} (listed : range ∈ allowedIps.map rangeOf)
    (listed' : range ∈ allowedIps'.map rangeOf) : other = ip :=
  (atHome'.range listed').symm.trans (atHome.range listed)

variable [DecidableEq ρ]

structure Homed (rangeOf : String → ρ) (home : ρ → Ip) (state : State) : Prop where
  lists : Dict.All state.peers fun ip info => AtHome rangeOf home ip info.allowedIps
  holds : Dict.All state.peers fun _ info => ∀ allowedIp ∈ info.allowedIps,
    (interface rangeOf state).holder (rangeOf allowedIp) = some (State.strip info.publicKey)

theorem Routed.homed (routed : Routed rangeOf state)
    (lists : Dict.All state.peers fun ip info => AtHome rangeOf home ip info.allowedIps) :
    Homed rangeOf home state := by
  refine ⟨lists, fun ip info hfound allowedIp hmem => ?_⟩
  have hlisted : rangeOf allowedIp ∈ info.allowedIps.map rangeOf := List.mem_map_of_mem hmem
  exact routed _ ip info ⟨hfound, hlisted, fun other info' hother hlisted' =>
    (lists ip info hfound).same (lists other info' hother) hlisted hlisted'⟩

theorem homed_new (ip publicKey publicIp : String) (publicPort : Nat) :
    Homed rangeOf home (State.new ip publicKey publicIp publicPort) :=
  ⟨Dict.all_empty _, Dict.all_empty _⟩

theorem Configured.owner_eq (configured : Configured rangeOf owner state) {ip : Ip}
    {info : PeerInfo} (found : state.peers.lookup ip = some info) :
    owner (State.strip info.publicKey) = ip :=
  configured.owned ip (entryOf rangeOf info) (by rw [directory, found]; rfl)

theorem Homed.addPeer (homed : Homed rangeOf home state)
    (configured : Configured rangeOf owner state) {ip : Ip} {publicKey : String}
    (owns : owner (State.strip publicKey) = ip)
    (hosts : AtHome rangeOf home ip (State.getAllowedIPs ip)) (endpointIp : String)
    (endpointPort : Nat) :
    Homed rangeOf home (state.addPeer ip publicKey endpointIp endpointPort) := by
  by_cases hown : ip = state.ip
  · rw [State.addPeer, if_pos hown]
    exact homed
  · have hlookup (other : Ip) :=
      State.lookup_addPeer state publicKey endpointIp endpointPort other hown
    have hholder (range : ρ) (key : String) :=
      holder_put (interface rangeOf state)
        (entryOf rangeOf (defaultPeer ip publicKey endpointIp endpointPort)) range key
    refine ⟨fun other info hfound => ?_, fun other info hfound allowedIp hmem => ?_⟩
    · rw [hlookup] at hfound
      split at hfound
      · rename_i hsame
        cases hfound
        exact hsame ▸ hosts
      · exact homed.lists other info hfound
    · rw [hlookup] at hfound
      rw [interface_addPeer rangeOf state _ _ _ hown, hholder]
      split at hfound
      · cases hfound
        exact .inl ⟨List.mem_map_of_mem hmem, rfl⟩
      · rename_i hother
        refine .inr ⟨fun hdefault => ?_, homed.holds other info hfound allowedIp hmem,
          fun hkey => ?_⟩
        · exact hother (hosts.same (homed.lists other info hfound) hdefault
            (List.mem_map_of_mem hmem))
        · have hkey : State.strip publicKey = State.strip info.publicKey := hkey
          rw [hkey, configured.owner_eq hfound] at owns
          exact hother owns

theorem keyOf_owner (configured : Configured rangeOf owner state) (owns : Owns owner peers)
    {record : PeerRecord} (found : peers.lookup record.virtualIp = some record) :
    owner (keyOf state record) = record.virtualIp := by
  unfold keyOf
  cases hold : state.peers.lookup record.virtualIp with
  | none => exact owns _ record found
  | some existing =>
      have howner : owner (State.strip existing.publicKey) = record.virtualIp :=
        configured.owner_eq hold
      exact howner

theorem not_takes (configured : Configured rangeOf owner state) (keyed : Keyed peers)
    (owns : Owns owner peers) (view : AllAtHome rangeOf home peers)
    (hosts : ∀ ip ∈ peers, AtHome rangeOf home ip (State.getAllowedIPs ip)) {record : PeerRecord}
    (found : peers.lookup record.virtualIp = some record) {range : ρ}
    (given : range ∈ record.allowedIps.map rangeOf) :
    ∀ entry ∈ peers.entries, ¬Takes rangeOf state range (keyOf state record) entry.2 := by
  rintro ⟨other, another⟩ hentry ⟨-, homits, htaken⟩
  have hanother : peers.lookup other = some another := Dict.lookup_of_mem_entries hentry
  have hsame : another.virtualIp = other := keyed other another hanother
  subst hsame
  have hequal : another.virtualIp = record.virtualIp := by
    rcases htaken with hkey | ⟨-, hdefault⟩
    · rw [← keyOf_owner configured owns hanother, hkey, keyOf_owner configured owns found]
    · exact (view _ record found).same (hosts _ (Dict.mem_of_lookup hanother)) given hdefault
  rw [hequal, found] at hanother
  cases hanother
  exact homits given

theorem Homed.delivers (homed : Homed rangeOf home state)
    (configured : Configured rangeOf owner state) (single : state.allSyncMode = 0)
    (keyed : Keyed peers) (owns : Owns owner peers) (view : AllAtHome rangeOf home peers)
    (hosts : ∀ ip ∈ peers, AtHome rangeOf home ip (State.getAllowedIPs ip)) :
    Delivers rangeOf peers state := by
  intro range ip info sole
  have hspared : ¬Spared state ip := by simp [Spared, single]
  obtain ⟨hother, record, hrecord, rfl⟩ : ip ≠ state.ip ∧ ∃ record,
      peers.lookup ip = some record ∧
        reconciledPeer (state.peers.lookup ip) record = info := by
    have hfound := sole.found
    rw [settled, if_neg hspared] at hfound
    split at hfound
    · cases hfound
    · rename_i hother
      split at hfound
      · rename_i record hrecord
        exact ⟨hother, record, hrecord, Option.some.inj hfound⟩
      · cases hfound
  have hip : record.virtualIp = ip := keyed ip record hrecord
  subst hip
  have hgiven : range ∈ record.allowedIps.map rangeOf := by
    have hlisted := sole.listed
    rwa [reconciledPeer_allowedIps] at hlisted
  have hnotTaken := not_takes configured keyed owns view hosts hrecord hgiven
  refine ⟨?_, ?_⟩
  · by_cases hhands : Hands state record
    · obtain ⟨front, rest, hsplit⟩ := List.append_of_mem (AList.mem_lookup_iff.mp hrecord)
      refine .inl ⟨front, ⟨record.virtualIp, record⟩, rest, hsplit, ⟨hhands, hgiven, rfl⟩, ?_⟩
      exact fun later hlater => hnotTaken later (by rw [hsplit]; simp [hlater])
    · refine .inr ⟨?_, hnotTaken⟩
      obtain ⟨existing, hexisting, hsame⟩ : ∃ existing,
          state.peers.lookup record.virtualIp = some existing ∧
            record.allowedIps = existing.allowedIps := by
        by_contra hnone
        exact hhands ⟨hother, fun existing hexisting hsame => hnone ⟨existing, hexisting, hsame⟩⟩
      rw [hexisting]
      obtain ⟨allowedIp, hmem, rfl⟩ := List.mem_map.mp (hsame ▸ hgiven)
      exact homed.holds _ existing hexisting allowedIp hmem
  · rintro other ⟨hunlisted, -, existing, hexisting, hkey⟩
    have howner : owner (keyOf state record) = record.virtualIp :=
      keyOf_owner configured owns hrecord
    have hequal : other = record.virtualIp := by
      rw [← configured.owner_eq hexisting, hkey]
      exact howner
    exact hunlisted (hequal ▸ Dict.mem_of_lookup hrecord)

theorem Homed.checked (homed : Homed rangeOf home state)
    (configured : Configured rangeOf owner state) (foreign : state.ip ∉ state.peers)
    (single : state.allSyncMode = 0) (keyed : Keyed peers) (owns : Owns owner peers)
    (view : AllAtHome rangeOf home peers)
    (hosts : ∀ ip ∈ peers, AtHome rangeOf home ip (State.getAllowedIPs ip)) :
    Homed rangeOf home (checked peers state) := by
  refine Routed.homed ((routed_checked rangeOf keyed foreign).mpr
    (homed.delivers configured single keyed owns view hosts)) fun ip info hfound => ?_
  rw [lookup_checked keyed foreign, settled] at hfound
  split at hfound
  · cases hfound
  · split at hfound
    · rename_i record hrecord
      cases hfound
      rw [reconciledPeer_allowedIps]
      exact view ip record hrecord
    · split at hfound
      · exact homed.lists ip info hfound
      · cases hfound

/-- Whoever comes is at home in the range of its address, and views list nothing else than
ranges of the address itself. -/
def Hosts (rangeOf : String → ρ) (home : ρ → Ip) : Label → Prop
  | .enableAllSyncMode _ => False
  | .admission request => AtHome rangeOf home request.ip (State.getAllowedIPs request.ip)
  | .startJoin content => AtHome rangeOf home content.ip (State.getAllowedIPs content.ip)
  | .checkForChanges pass => AllAtHome rangeOf home pass.view ∧
    ∀ ip ∈ pass.view, AtHome rangeOf home ip (State.getAllowedIPs ip)

structure Settles (rangeOf : String → ρ) (home : ρ → Ip) (owner : String → Ip) (state : State) :
    Prop where
  sound : Sound rangeOf owner state
  homed : Homed rangeOf home state
  single : state.allSyncMode = 0

theorem Settles.step (settles : Settles rangeOf home owner state) {label : Label} {after : State}
    (carries : Carries owner label) (hosts : Hosts rangeOf home label)
    (step : next state label = some after) : Settles rangeOf home owner after := by
  have hsound := settles.sound.step carries step
  cases label with
  | enableAllSyncMode numOfSyncs => cases hosts
  | admission request =>
      simp only [next] at step
      split at step
      · cases step
        exact settles
      · cases step
        exact ⟨hsound, settles.homed.addPeer settles.sound.configured carries hosts _ _,
          (State.addPeer_same _ _ _ _ _).allSyncMode.trans settles.single⟩
  | startJoin content =>
      simp only [next] at step
      split at step
      · cases step
        exact ⟨hsound, settles.homed.addPeer settles.sound.configured carries hosts _ _,
          (State.addPeer_same _ _ _ _ _).allSyncMode.trans settles.single⟩
      · cases step
  | checkForChanges pass =>
      obtain rfl := Pass.returned_eq carries.1 settles.sound.foreign step
      refine ⟨hsound, settles.homed.checked settles.sound.configured settles.sound.foreign
        settles.single carries.1 carries.2 hosts.1 hosts.2, ?_⟩
      rw [checked_allSyncMode, settles.single]

/-- Where every range has one home, whatever a peer lists is sent to it in every state that
joins and passes lead to. -/
theorem homes_hold {ip publicKey publicIp : String} {publicPort : Nat}
    (run : Run next (fun _ label => Carries owner label ∧ Hosts rangeOf home label)
      (State.new ip publicKey publicIp publicPort) state) {peerIp : Ip} {info : PeerInfo}
    (found : state.peers.lookup peerIp = some info) :
    ∀ allowedIp ∈ info.allowedIps,
      (interface rangeOf state).holder (rangeOf allowedIp) = some (State.strip info.publicKey) := by
  have hsettles : Settles rangeOf home owner state := run.invariant (Settles rangeOf home owner)
    ⟨sound_new _ _ _ _ _ _, homed_new _ _ _ _, rfl⟩
    fun _ _ _ _ hbefore hok hstep => hbefore.step hok.1 hok.2 hstep
  exact hsettles.homed.holds peerIp info found

end WgBp.Wireguard
