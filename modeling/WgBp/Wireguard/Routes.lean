import WgBp.Library.Latch
import WgBp.Wireguard.Mirror

/-! Where the interface sends the ranges that peers advertise. A pass compares the view
with State, so a range moves only when State's list of some peer changes. -/
namespace WgBp.Wireguard

open WgBp.Library WgBp.Library.Cryptokey WgBp.Library.Latch WgBp.Library.Transition WgBp.Model

variable {ρ : Type} (rangeOf : String → ρ)

structure Sole (peers : Ip → Option PeerInfo) (range : ρ) (ip : Ip) (info : PeerInfo) : Prop where
  found : peers ip = some info
  listed : range ∈ info.allowedIps.map rangeOf
  alone : ∀ other info', peers other = some info' → range ∈ info'.allowedIps.map rangeOf →
    other = ip

def keyOf (state : State) (record : PeerRecord) : String :=
  State.strip (reconciledPeer (state.peers.lookup record.virtualIp) record).publicKey

def Hands (state : State) (record : PeerRecord) : Prop :=
  record.virtualIp ≠ state.ip ∧
    ∀ info, state.peers.lookup record.virtualIp = some info → record.allowedIps ≠ info.allowedIps

def Gives (state : State) (range : ρ) (key : String) (record : PeerRecord) : Prop :=
  Hands state record ∧ range ∈ record.allowedIps.map rangeOf ∧ keyOf state record = key

/-- The visit takes a range from the holder of a key and gives it to nobody: the list of
that key no longer has it, or a new peer got it by default and its record omits it. -/
def Takes (state : State) (range : ρ) (key : String) (record : PeerRecord) : Prop :=
  Hands state record ∧ range ∉ record.allowedIps.map rangeOf ∧
    (keyOf state record = key ∨ record.virtualIp ∉ state.peers ∧
      range ∈ (State.getAllowedIPs record.virtualIp).map rangeOf)

variable [DecidableEq ρ]

theorem holder_patched (state : State) (record : PeerRecord) (peer : PeerInfo) (range : ρ)
    (key : String) :
    (interface rangeOf (patched state record peer)).holder range = some key ↔
      if record.allowedIps = peer.allowedIps then
        (interface rangeOf state).holder range = some key
      else range ∈ record.allowedIps.map rangeOf ∧ State.strip peer.publicKey = key ∨
        range ∉ record.allowedIps.map rangeOf ∧
          (interface rangeOf state).holder range = some key ∧
            State.strip peer.publicKey ≠ key := by
  unfold patched
  by_cases hequal : record.allowedIps = peer.allowedIps
  · simp [hequal]
  · rw [if_pos hequal, if_neg hequal, interface_withAllowedIPs]
    exact holder_put _ _ range key

/-- `only` says that no other key is given the range. -/
theorem holder_entered {state : State} {record : PeerRecord} {range : ρ} {key : String}
    (only : record.virtualIp ≠ state.ip → range ∈ record.allowedIps.map rangeOf →
      keyOf state record = key) :
    (interface rangeOf (entered state record)).holder range = some key ↔
      Gives rangeOf state range key record ∨
        (interface rangeOf state).holder range = some key ∧
          ¬Takes rangeOf state range key record := by
  unfold entered Gives Takes Hands
  by_cases hown : record.virtualIp = state.ip
  · simp [hown]
  · rw [if_neg hown]
    have hkey := only hown
    split
    · rename_i existing hfound
      have hmem : record.virtualIp ∈ state.peers := Dict.mem_of_lookup hfound
      have hsame : keyOf state record = State.strip existing.publicKey := by
        unfold keyOf
        rw [hfound]
        rfl
      rw [hsame] at hkey ⊢
      rw [holder_patched, hfound]
      by_cases hequal : record.allowedIps = existing.allowedIps
      · simp [hequal]
      · by_cases hgiven : range ∈ record.allowedIps.map rangeOf
        · simp only [if_neg hequal, hgiven, hkey hgiven]
          simp [hown, hequal]
        · simp only [if_neg hequal, hgiven]
          simp [hown, hequal, hmem]
    · rename_i habsent
      have hmem : record.virtualIp ∉ state.peers := AList.lookup_eq_none.mp habsent
      have hsame : keyOf state record = State.strip record.publicKey := by
        unfold keyOf
        rw [habsent]
        rfl
      have hadded := holder_put (interface rangeOf state)
        (entryOf rangeOf (defaultPeer record.virtualIp record.publicKey record.endpointIp
          record.endpointPort)) range key
      rw [← interface_addPeer rangeOf state _ _ _ hown] at hadded
      simp only [entryOf, defaultPeer] at hadded
      rw [hsame] at hkey ⊢
      rw [holder_patched, hadded, habsent]
      by_cases hequal : record.allowedIps = State.getAllowedIPs record.virtualIp
      · rw [if_pos hequal, ← hequal]
        by_cases hgiven : range ∈ record.allowedIps.map rangeOf
        · simp only [hgiven, hkey hgiven]
          simp [hown]
        · simp only [hgiven]
          simp [hown]
      · rw [if_neg hequal]
        by_cases hgiven : range ∈ record.allowedIps.map rangeOf
        · simp only [hgiven, hkey hgiven]
          simp [hown]
        · simp only [hgiven]
          by_cases hdefault : range ∈ (State.getAllowedIPs record.virtualIp).map rangeOf
          · simp only [hdefault]
            simp [hown, hmem]
          · simp only [hdefault]
            simp [hown]

theorem holder_deletePeer (state : State) (ip : Ip) (range : ρ) (key : String) :
    (interface rangeOf (state.deletePeer ip)).holder range = some key ↔
      (interface rangeOf state).holder range = some key ∧
        ∀ info, state.peers.lookup ip = some info → State.strip info.publicKey ≠ key := by
  cases hfound : state.peers.lookup ip with
  | none =>
      rw [State.deletePeer, hfound]
      simp
  | some peer =>
      rw [interface_deletePeer rangeOf state hfound, holder_drop]
      simp [entryOf]

def Drops (peers : PeerMap) (state : State) (key : String) (ip : Ip) : Prop :=
  ip ∉ peers ∧ ¬Spared state ip ∧
    ∃ info, state.peers.lookup ip = some info ∧ State.strip info.publicKey = key

theorem holder_removedUnlisted (peers : PeerMap) (state : State) (ip : Ip) (range : ρ)
    (key : String) :
    (interface rangeOf (removedUnlisted peers state ip)).holder range = some key ↔
      (interface rangeOf state).holder range = some key ∧ ¬Drops peers state key ip := by
  unfold removedUnlisted Drops
  by_cases hlisted : ip ∈ peers
  · simp [hlisted]
  · rw [if_neg hlisted]
    obtain ⟨counted, hpeers, hwg, hremoved⟩ := removePeer_cases state ip
    have hinterface : interface rangeOf counted = interface rangeOf state := by
      unfold interface
      rw [hwg]
    rcases hremoved with ⟨hspared, hcounted⟩ | ⟨hreached, hdeleted⟩
    · rw [hcounted, hinterface]
      simp [hspared]
    · rw [hdeleted, holder_deletePeer, hinterface, hpeers]
      simp [hlisted, hreached]

omit [DecidableEq ρ] in
private theorem visit_congr {state later : State} {record : PeerRecord} (own : later.ip = state.ip)
    (entry : later.peers.lookup record.virtualIp = state.peers.lookup record.virtualIp)
    (range : ρ) (key : String) :
    keyOf later record = keyOf state record ∧
      (Gives rangeOf later range key record ↔ Gives rangeOf state range key record) ∧
      (Takes rangeOf later range key record ↔ Takes rangeOf state range key record) := by
  unfold Gives Takes Hands keyOf
  rw [← AList.lookup_eq_none, ← AList.lookup_eq_none, own, entry]
  exact ⟨rfl, .rfl, .rfl⟩

theorem holder_enteredAll {state : State} {entries : List (Σ _ : Ip, PeerRecord)}
    (nodup : entries.NodupKeys) (keyed : ∀ entry ∈ entries, entry.2.virtualIp = entry.1)
    {range : ρ} {key : String}
    (only : ∀ entry ∈ entries, entry.1 ≠ state.ip → range ∈ entry.2.allowedIps.map rangeOf →
      keyOf state entry.2 = key) :
    (interface rangeOf (enteredAll state entries)).holder range = some key ↔
      SetLast (fun entry => Gives rangeOf state range key entry.2)
          (fun entry => Takes rangeOf state range key entry.2) entries ∨
        (interface rangeOf state).holder range = some key ∧
          ∀ entry ∈ entries, ¬Takes rangeOf state range key entry.2 := by
  refine flag_foldl (fun later => (interface rangeOf later).holder range = some key)
    (fun items (later : State) => items.NodupKeys ∧ later.ip = state.ip ∧
      ∀ entry ∈ items, entry ∈ entries ∧ later.peers.lookup entry.1 = state.peers.lookup entry.1) ?_
    ⟨nodup, rfl, fun entry hentry => ⟨hentry, rfl⟩⟩
  rintro ⟨ip, record⟩ rest later ⟨hnodup, hown, hitems⟩
  have hfresh : ip ∉ rest.keys := (List.nodupKeys_cons.mp hnodup).1
  have hrest : rest.NodupKeys := (List.nodupKeys_cons.mp hnodup).2
  obtain ⟨hmem, hlookup⟩ := hitems ⟨ip, record⟩ (by simp)
  have hip : record.virtualIp = ip := keyed ⟨ip, record⟩ hmem
  subst hip
  obtain ⟨hkey, hgives, htakes⟩ := visit_congr rangeOf hown hlookup range key
  constructor
  · refine ⟨hrest, (entered_same later record).ip.trans hown, fun entry hentry => ?_⟩
    obtain ⟨hold, hsame⟩ := hitems entry (by simp [hentry])
    have hother : entry.1 ≠ record.virtualIp := by
      intro h
      rw [← h] at hfresh
      exact hfresh (List.mem_keys_of_mem hentry)
    refine ⟨hold, ?_⟩
    rw [lookup_entered, if_neg fun h => hother h.1, hsame]
  · rw [← hgives, ← htakes]
    refine holder_entered rangeOf ?_
    intro hforeign hgiven
    rw [hkey]
    exact only ⟨record.virtualIp, record⟩ hmem (fun h => hforeign (h.trans hown.symm)) hgiven

omit [DecidableEq ρ] in
private theorem drops_congr {peers : PeerMap} {state later : State} {key : String} {ip : Ip}
    (mode : later.allSyncMode = state.allSyncMode) (entry : later.standing ip = state.standing ip) :
    Drops peers later key ip ↔ Drops peers state key ip := by
  obtain ⟨hlookup, hvotes⟩ := Prod.mk.inj entry
  unfold Drops Spared
  rw [mode, hlookup, hvotes]

theorem holder_removedAll {peers : PeerMap} {state : State}
    {entries : List (Σ _ : Ip, PeerInfo)} (nodup : entries.NodupKeys) (range : ρ) (key : String) :
    (interface rangeOf (removedAll peers state entries)).holder range = some key ↔
      (interface rangeOf state).holder range = some key ∧
        ∀ entry ∈ entries, ¬Drops peers state key entry.1 := by
  have hfold : (interface rangeOf (removedAll peers state entries)).holder range = some key ↔
      SetLast (fun _ => False) (fun entry => Drops peers state key entry.1) entries ∨
        (interface rangeOf state).holder range = some key ∧
          ∀ entry ∈ entries, ¬Drops peers state key entry.1 := by
    refine flag_foldl (fun later => (interface rangeOf later).holder range = some key)
      (fun items later => items.NodupKeys ∧ later.allSyncMode = state.allSyncMode ∧
        ∀ entry ∈ items, later.standing entry.1 = state.standing entry.1) ?_
      ⟨nodup, rfl, fun entry _ => rfl⟩
    rintro ⟨ip, info⟩ rest later ⟨hnodup, hmode, hitems⟩
    have hfresh : ip ∉ rest.keys := (List.nodupKeys_cons.mp hnodup).1
    have hrest : rest.NodupKeys := (List.nodupKeys_cons.mp hnodup).2
    have hvisit := removedUnlisted_visit peers later ip
    constructor
    · refine ⟨hrest, (removedUnlisted_same peers later ip).allSyncMode.trans hmode, ?_⟩
      intro entry hentry
      have hother : entry.1 ≠ ip := by
        intro h
        rw [← h] at hfresh
        exact hfresh (List.mem_keys_of_mem hentry)
      rw [hvisit entry.1, if_neg hother]
      exact hitems entry (by simp [hentry])
    · rw [holder_removedUnlisted, drops_congr hmode (hitems ⟨ip, info⟩ (by simp))]
      simp
  have hnever : ¬SetLast (fun _ => False) (fun entry => Drops peers state key entry.1) entries := by
    rintro ⟨_, _, _, _, hset, _⟩
    exact hset
  rw [hfold, or_iff_right hnever]

def settled (peers : PeerMap) (state : State) (ip : Ip) : Option PeerInfo :=
  if ip = state.ip then none
  else match peers.lookup ip with
    | some record => some (reconciledPeer (state.peers.lookup ip) record)
    | none => if Spared state ip then state.peers.lookup ip else none

omit [DecidableEq ρ] in
theorem lookup_checked {peers : PeerMap} {state : State} (keyed : Keyed peers)
    (foreign : state.ip ∉ state.peers) (ip : Ip) :
    (checked peers state).peers.lookup ip = settled peers state ip := by
  have hstanding := congrArg Prod.fst (standing_checked state keyed ip)
  change (checked peers state).peers.lookup ip = _ at hstanding
  rw [hstanding]
  unfold settled
  by_cases hown : ip = state.ip
  · have habsent : state.peers.lookup state.ip = none := AList.lookup_eq_none.mpr foreign
    subst hown
    simp [foreign, habsent, State.standing]
  · rw [if_neg hown, if_neg hown]
    cases hrecord : peers.lookup ip with
    | some record => rfl
    | none =>
        have hunlisted : ip ∉ peers := AList.lookup_eq_none.mp hrecord
        by_cases hknown : ip ∈ state.peers
        · simp only [if_pos hknown, kept, if_neg hunlisted, votedOut, State.standing, Spared]
          by_cases hsingle : state.allSyncMode = 0
          · simp [hsingle]
          · rw [if_neg hsingle]
            exact apply_ite Prod.fst _ _ _
        · have habsent : state.peers.lookup ip = none := AList.lookup_eq_none.mpr hknown
          simp [hknown, habsent, State.standing]

def Reaches (peers : PeerMap) (state : State) (range : ρ) (key : String) : Prop :=
  (SetLast (fun entry => Gives rangeOf state range key entry.2)
      (fun entry => Takes rangeOf state range key entry.2) peers.entries ∨
    (interface rangeOf state).holder range = some key ∧
      ∀ entry ∈ peers.entries, ¬Takes rangeOf state range key entry.2) ∧
    ∀ ip, ¬Drops peers state key ip

theorem holder_checked {peers : PeerMap} {state : State} (keyed : Keyed peers) {range : ρ}
    {key : String}
    (only : ∀ ip record, peers.lookup ip = some record → ip ≠ state.ip →
      range ∈ record.allowedIps.map rangeOf → keyOf state record = key) :
    (interface rangeOf (checked peers state)).holder range = some key ↔
      Reaches rangeOf peers state range key := by
  let locked := { state with locked := true }
  let listed := enteredAll locked peers.entries
  have hentered : (interface rangeOf listed).holder range = some key ↔
      SetLast (fun entry => Gives rangeOf state range key entry.2)
          (fun entry => Takes rangeOf state range key entry.2) peers.entries ∨
        (interface rangeOf state).holder range = some key ∧
          ∀ entry ∈ peers.entries, ¬Takes rangeOf state range key entry.2 :=
    @holder_enteredAll ρ rangeOf _ locked peers.entries peers.nodupKeys
      (fun entry hentry => keyed entry.1 entry.2 (Dict.lookup_of_mem_entries hentry)) range key
      (fun entry hentry => only entry.1 entry.2 (Dict.lookup_of_mem_entries hentry))
  have hremoved : (interface rangeOf (checked peers state)).holder range = some key ↔
      (interface rangeOf listed).holder range = some key ∧
        ∀ entry ∈ listed.peers.entries, ¬Drops peers listed key entry.1 :=
    holder_removedAll rangeOf listed.peers.nodupKeys range key
  have hdrops : (∀ entry ∈ listed.peers.entries, ¬Drops peers listed key entry.1) ↔
      ∀ ip, ¬Drops peers state key ip := by
    have hmode : listed.allSyncMode = state.allSyncMode := (enteredAll_same locked _).allSyncMode
    have hunlisted : ∀ ip ∉ peers, listed.standing ip = state.standing ip := by
      intro ip hunlisted
      have hlookup : listed.peers.lookup ip = _ := lookup_enteredAll locked keyed ip
      rw [AList.lookup_eq_none.mpr hunlisted, ite_self] at hlookup
      exact Prod.ext hlookup (congrArg (AList.lookup ip) (enteredAll_votes locked _))
    constructor
    · rintro hnone ip hdrops
      obtain ⟨hip, -, info, hfound, -⟩ := id hdrops
      have hsame := hunlisted ip hip
      have hlisted : listed.peers.lookup ip = some info := (congrArg Prod.fst hsame).trans hfound
      exact hnone ⟨ip, info⟩ (AList.mem_lookup_iff.mp hlisted)
        ((drops_congr hmode hsame).mpr hdrops)
    · intro hnone entry _ hdrops
      exact hnone entry.1 ((drops_congr hmode (hunlisted entry.1 hdrops.1)).mp hdrops)
  rw [hremoved, hentered, hdrops]
  rfl

def Routed (state : State) : Prop :=
  ∀ range ip info, Sole rangeOf (fun ip => state.peers.lookup ip) range ip info →
    (interface rangeOf state).holder range = some (State.strip info.publicKey)

/-- The view hands its peers their ranges in an order that leaves each sole owner with its
own: what a peer kept or was given is not taken away later in the pass. -/
def Delivers (peers : PeerMap) (state : State) : Prop :=
  ∀ range ip info, Sole rangeOf (settled peers state) range ip info →
    Reaches rangeOf peers state range (State.strip info.publicKey)

theorem routed_checked {peers : PeerMap} {state : State} (keyed : Keyed peers)
    (foreign : state.ip ∉ state.peers) :
    Routed rangeOf (checked peers state) ↔ Delivers rangeOf peers state := by
  have hpeers : (fun ip => (checked peers state).peers.lookup ip) = settled peers state :=
    funext fun ip => lookup_checked keyed foreign ip
  unfold Routed Delivers
  rw [hpeers]
  refine forall₄_congr fun range ip info sole => ?_
  refine holder_checked rangeOf keyed ?_
  intro other record hrecord hother hgiven
  have hsettled : settled peers state other =
      some (reconciledPeer (state.peers.lookup other) record) := by
    rw [settled, if_neg hother, hrecord]
  have hsame : other = ip :=
    sole.alone other _ hsettled (by rw [reconciledPeer_allowedIps]; exact hgiven)
  have hip : record.virtualIp = other := keyed other record hrecord
  subst hsame
  have hinfo : info = reconciledPeer (state.peers.lookup other) record :=
    Option.some.inj (sole.found.symm.trans hsettled)
  rw [keyOf, hip, hinfo]

/-- In any sequence of passes that deliver, in either mode, advertised ranges reach their
owner; and a pass that does not deliver leaves one that does not. -/
theorem advertised_ranges_reach_owner {ip : Ip} {publicKey publicIp : String} {publicPort : Nat}
    {numOfSyncs : Nat} {state : State}
    (run : Run Pass.returned
      (fun state (pass : Pass) => Keyed pass.view ∧ Delivers rangeOf pass.view state)
      ((State.new ip publicKey publicIp publicPort).enableAllSyncMode numOfSyncs) state) :
    Routed rangeOf state ∧ ∀ (pass : Pass) (after : State), Keyed pass.view →
      pass.returned state = some after →
      (Routed rangeOf after ↔ Delivers rangeOf pass.view state) := by
  have hexact {state : State} (foreign : state.ip ∉ state.peers) (pass : Pass) (after : State)
      (keyed : Keyed pass.view) (step : pass.returned state = some after) :
      Routed rangeOf after ↔ Delivers rangeOf pass.view state := by
    rw [Pass.returned_eq keyed foreign step]
    exact routed_checked rangeOf keyed foreign
  have hstate : state.ip ∉ state.peers ∧ Routed rangeOf state := by
    refine run.invariant (fun state => state.ip ∉ state.peers ∧ Routed rangeOf state)
      ⟨AList.notMem_empty ip, fun _ _ _ sole => ?_⟩ ?_
    · exact absurd (Dict.mem_of_lookup sole.found) (AList.notMem_empty _)
    · rintro mid pass after - ⟨hforeign, -⟩ ⟨hkeyed, hdelivers⟩ hstep
      refine ⟨?_, (hexact hforeign pass after hkeyed hstep).mpr hdelivers⟩
      rw [Pass.returned_eq hkeyed hforeign hstep]
      exact checked_foreign hkeyed hforeign
  exact ⟨hstate.2, hexact hstate.1⟩

def nodeA : State := State.new "10.0.0.1" "ka" "198.51.100.1" 51820

def recordB : PeerRecord :=
  ⟨"10.0.0.2", "kb", "198.51.100.2", 51820, .port 6882, ["10.0.0.2/32", "192.0.2.0/24"]⟩

def onlyB : PeerMap := (∅ : PeerMap).set "10.0.0.2" recordB

theorem onlyB_delivers : Delivers id onlyB nodeA := by
  intro range ip info sole
  have hfound := sole.found
  unfold settled at hfound
  split at hfound
  · cases hfound
  · have hlookup : onlyB.lookup ip = if ip = "10.0.0.2" then some recordB else none :=
      Dict.lookup_set _ _ _ _
    have habsent : nodeA.peers.lookup ip = none := AList.lookup_empty ip
    rw [hlookup, habsent] at hfound
    split at hfound
    · rename_i hrecord
      split at hrecord
      · cases hrecord
        cases hfound
        have hgives : Gives id nodeA range (State.strip recordB.publicKey) recordB :=
          ⟨⟨by decide, fun _ h => nomatch h⟩, sole.listed, rfl⟩
        refine ⟨.inl ⟨[], ⟨"10.0.0.2", recordB⟩, [], rfl, hgives, by simp⟩, ?_⟩
        rintro other ⟨-, -, _, hother, -⟩
        cases hother
      · cases hrecord
    · simp at hfound

theorem advertised_ranges_reach_owner_onlyB : Routed id (checked onlyB nodeA) := by
  have hok : Keyed (Pass.gossip onlyB).view ∧ Delivers id (Pass.gossip onlyB).view nodeA :=
    ⟨by decide, onlyB_delivers⟩
  have hstep : Pass.returned (nodeA.enableAllSyncMode 0) (.gossip onlyB) =
      some (checked onlyB nodeA) := by decide +kernel
  exact (advertised_ranges_reach_owner id (.step (.refl _) hok hstep)).1

def withdrawal : List Pass :=
  [.gossip (onlyB.set "10.0.0.3" recordC),
    .gossip (onlyB.set "10.0.0.3" { recordC with allowedIps := ["10.0.0.3/32"] })]

def infoB : PeerInfo := ⟨"kb", "198.51.100.2", 51820, ["10.0.0.2/32", "192.0.2.0/24"]⟩

def infoC : PeerInfo := ⟨"kc", "198.51.100.3", 51820, ["10.0.0.3/32"]⟩

theorem sole_infoB : Sole id
    (fun ip => (((∅ : Dict Ip PeerInfo).set "10.0.0.2" infoB).set "10.0.0.3" infoC).lookup ip)
    "192.0.2.0/24" "10.0.0.2" infoB where
  found := by decide
  listed := by decide
  alone := by
    intro other info hfound hlisted
    rw [Dict.lookup_set, Dict.lookup_set] at hfound
    split at hfound
    · cases hfound
      exact absurd hlisted (by decide)
    · split at hfound
      · assumption
      · simp at hfound

/-- The other peer is then the only one that lists the range, and nobody has it. -/
theorem advertised_ranges_reach_owner_fails :
    ¬∀ state, Run Pass.returned (fun _ (pass : Pass) => Keyed pass.view) nodeA state →
      Routed id state := by
  intro h
  have hreplay : (replay Pass.returned (fun _ pass => Keyed pass.view) nodeA withdrawal).any
      (fun state =>
        state.peers = ((∅ : Dict Ip PeerInfo).set "10.0.0.2" infoB).set "10.0.0.3" infoC &&
          (interface id state).holder "192.0.2.0/24" = none) = true := by
    decide +kernel
  obtain ⟨state, hrun, hfound⟩ := reached_of_replay (fun _ _ h => of_decide_eq_true h) hreplay
  simp only [Bool.and_eq_true, decide_eq_true_eq] at hfound
  have hsole := sole_infoB
  rw [← hfound.1] at hsole
  have hholder := h state hrun "192.0.2.0/24" "10.0.0.2" infoB hsole
  rw [hfound.2] at hholder
  cases hholder

end WgBp.Wireguard
