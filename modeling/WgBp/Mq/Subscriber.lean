import WgBp.Mq.Pass
import WgBp.Mq.SelfFix
import WgBp.Mq.Swarm

/-! Whom the subscriber of one node is connected to after a check. The node may share its
`State` with other modules, which add and remove peers between the calls of this one. -/
namespace WgBp.Mq

open WgBp.Library WgBp.Library.Procedure WgBp.Library.Transition WgBp.Model

def linked (node : MqNode) (record : PeerRecord) : Bool :=
  (endpointOf record).any (· ∈ node.sync.sub)

def Follows (node : MqNode) : Prop :=
  Dict.All node.sync.peers fun ip record => ip ≠ node.state.ip → linked node record = true

/-- Every listed peer that `State` already has is connected before the check. -/
def Prepared (node : MqNode) : Prop :=
  Dict.All node.sync.peers fun ip record =>
    ip ≠ node.state.ip → ip ∈ node.state.peers → linked node record = true

instance (node : MqNode) : Decidable (Follows node) := inferInstanceAs (Decidable (Dict.All _ _))

instance (node : MqNode) : Decidable (Prepared node) := inferInstanceAs (Decidable (Dict.All _ _))

@[simp] theorem mem_connected (sync : MessageQueueSync) (endpoint other : Address) :
    other ∈ (sync.connected endpoint).sub ↔ other = endpoint ∨ other ∈ sync.sub := by
  unfold MessageQueueSync.connected
  split
  · rename_i hknown
    constructor
    · exact .inr
    · rintro (rfl | h)
      · exact hknown
      · exact h
  · simp [or_comm]

theorem connect_returned {node after : MqNode} {virtualIp : Ip} {syncPort : SyncPort}
    (returns : (connect virtualIp syncPort).run node = .ok () after) :
    ∃ number, syncPort = .port number ∧
      after = { node with sync := node.sync.connected ⟨virtualIp, number⟩ } := by
  cases syncPort with
  | missing => cases returns
  | null => cases returns
  | port number =>
      cases returns
      exact ⟨number, rfl, rfl⟩

theorem checkPeer_sync {node after : MqNode} {peerIp : Ip} {record : PeerRecord}
    (returns : (checkPeer peerIp record).run node = .ok () after) :
    (peerIp = node.state.ip ∨ peerIp ∈ node.state.peers) ∧ after.sync = node.sync ∨
      peerIp ≠ node.state.ip ∧ peerIp ∉ node.state.peers ∧ ∃ number,
        record.syncPort = .port number ∧
          after.sync = node.sync.connected ⟨record.virtualIp, number⟩ := by
  obtain ⟨_, _, hget, hbody⟩ := bind_returned returns
  cases hget
  by_cases hown : peerIp = node.state.ip
  · rw [if_pos hown] at hbody
    cases hbody
    exact .inl ⟨.inl hown, rfl⟩
  · rw [if_neg hown] at hbody
    obtain ⟨_, _, hget, hpeer⟩ := bind_returned hbody
    cases hget
    cases hfound : node.state.peers.lookup peerIp with
    | some existing =>
        rw [hfound] at hpeer
        obtain ⟨_, -, rfl⟩ := onState_returned hpeer
        exact .inl ⟨.inr (Dict.mem_of_lookup hfound), rfl⟩
    | none =>
        rw [hfound] at hpeer
        obtain ⟨_, added, hadd, hrest⟩ := bind_returned hpeer
        cases hadd
        obtain ⟨port, ported, hport, hrest⟩ := bind_returned hrest
        obtain ⟨rfl, rfl⟩ := getSyncPort_returned hport
        obtain ⟨_, connected, hconnect, hrest⟩ := bind_returned hrest
        obtain ⟨number, hnumber, rfl⟩ := connect_returned hconnect
        obtain ⟨_, _, hget, hcheck⟩ := bind_returned hrest
        cases hget
        obtain ⟨_, -, rfl⟩ := onState_returned hcheck
        exact .inr ⟨hown, AList.lookup_eq_none.mp hfound, number, hnumber, rfl⟩

structure Reaches (entries : List (Σ _ : Ip, PeerRecord)) (before after : MqNode) : Prop where
  ip : after.state.ip = before.state.ip
  peers : after.sync.peers = before.sync.peers
  keeps : ∀ endpoint ∈ before.sync.sub, endpoint ∈ after.sync.sub
  new : ∀ endpoint ∈ after.sync.sub, endpoint ∈ before.sync.sub ∨ endpoint.ip ∉ before.state.peers
  known : ∀ ip ∈ before.state.peers, ip ∈ after.state.peers
  others : ∀ ip ∈ after.state.peers, ip ∈ before.state.peers ∨ ip ∈ entries.keys
  reached : ∀ entry ∈ entries, entry.1 ≠ before.state.ip → entry.1 ∉ before.state.peers →
    linked after entry.2 = true

private theorem mem_entered (state : State) (record : PeerRecord) (other : Ip) :
    other ∈ (entered state record).peers ↔
      other = record.virtualIp ∧ record.virtualIp ≠ state.ip ∨ other ∈ state.peers := by
  rw [← AList.lookup_isSome, lookup_entered, ← AList.lookup_isSome]
  by_cases hother : other = record.virtualIp ∧ record.virtualIp ≠ state.ip
  · rw [if_pos hother]
    simp [hother]
  · rw [if_neg hother]
    simp [hother]

theorem reaches_checkPeer {node after : MqNode} {entry : Σ _ : Ip, PeerRecord}
    (keyed : entry.2.virtualIp = entry.1)
    (returns : (checkPeer entry.1 entry.2).run node = .ok () after) :
    Reaches [entry] node after := by
  have hstate := checkPeer_returned keyed returns
  have hmem (ip : Ip) : ip ∈ after.state.peers ↔
      ip = entry.1 ∧ entry.1 ≠ node.state.ip ∨ ip ∈ node.state.peers := by
    rw [hstate, mem_entered, keyed]
  refine ⟨hstate ▸ (entered_same _ _).ip, ?_, ?_, ?_, fun ip h => (hmem ip).mpr (.inr h), ?_, ?_⟩
  · rcases checkPeer_sync returns with ⟨-, hsync⟩ | ⟨-, -, number, -, hsync⟩
    · rw [hsync]
    · rw [hsync, (connected_connects _ _).peers]
  · rcases checkPeer_sync returns with ⟨-, hsync⟩ | ⟨-, -, number, -, hsync⟩
    · rw [hsync]
      exact fun _ h => h
    · rw [hsync]
      exact (connected_connects _ _).sub
  · intro endpoint hendpoint
    rcases checkPeer_sync returns with ⟨-, hsync⟩ | ⟨-, hunknown, number, -, hsync⟩
    · exact .inl (hsync ▸ hendpoint)
    · rw [hsync, mem_connected] at hendpoint
      rcases hendpoint with rfl | h
      · exact .inr (keyed ▸ hunknown)
      · exact .inl h
  · intro ip hip
    rcases (hmem ip).mp hip with ⟨rfl, -⟩ | h
    · exact .inr (by simp)
    · exact .inl h
  · intro other hother hforeign hunknown
    rw [List.mem_singleton] at hother
    subst hother
    rcases checkPeer_sync returns with ⟨hcalm, -⟩ | ⟨-, -, number, hport, hsync⟩
    · rcases hcalm with h | h
      · exact absurd h hforeign
      · exact absurd h hunknown
    · simp [linked, endpointOf, hport, hsync]

theorem linked_mono {before after : MqNode} {record : PeerRecord}
    (keeps : ∀ endpoint ∈ before.sync.sub, endpoint ∈ after.sync.sub)
    (link : linked before record = true) : linked after record = true := by
  unfold linked at link ⊢
  obtain ⟨endpoint, hendpoint, hmem⟩ := (Option.any_eq_true _ _).mp link
  exact (Option.any_eq_true _ _).mpr
    ⟨endpoint, hendpoint, decide_eq_true (keeps endpoint (of_decide_eq_true hmem))⟩

theorem reaches_loop {entries : List (Σ _ : Ip, PeerRecord)} (nodup : entries.NodupKeys)
    (keyed : ∀ entry ∈ entries, entry.2.virtualIp = entry.1) {before after : MqNode}
    (returns : (forM entries fun entry => checkPeer entry.1 entry.2).run before = .ok () after) :
    Reaches entries before after := by
  induction entries generalizing before with
  | nil =>
      cases returns
      exact ⟨rfl, rfl, fun _ h => h, fun _ h => .inl h, fun _ h => h, fun _ h => .inl h,
        fun _ h => absurd h List.not_mem_nil⟩
  | cons entry rest ih =>
      rw [List.forM_cons] at returns
      obtain ⟨_, mid, hfirst, hrest⟩ := bind_returned returns
      have hhead := reaches_checkPeer (keyed entry (by simp)) hfirst
      obtain ⟨hfresh, hnodup⟩ := List.nodupKeys_cons.mp nodup
      have htail := ih hnodup (fun other hother => keyed other (by simp [hother])) hrest
      refine ⟨htail.ip.trans hhead.ip, htail.peers.trans hhead.peers,
        fun endpoint h => htail.keeps endpoint (hhead.keeps endpoint h), ?_,
        fun ip h => htail.known ip (hhead.known ip h), ?_, ?_⟩
      · intro endpoint hendpoint
        rcases htail.new endpoint hendpoint with h | h
        · exact hhead.new endpoint h
        · exact .inr fun hknown => h (hhead.known _ hknown)
      · intro ip hip
        rcases htail.others ip hip with h | h
        · rcases hhead.others ip h with h | h
          · exact .inl h
          · exact .inr (by simp_all)
        · exact .inr (by simp [h])
      · intro other hother hforeign hunknown
        rcases List.mem_cons.mp hother with rfl | hother
        · exact linked_mono htail.keeps (hhead.reached other (by simp) hforeign hunknown)
        · refine htail.reached other hother (hhead.ip ▸ hforeign) ?_
          intro hknown
          rcases hhead.others _ hknown with h | h
          · exact hunknown h
          · have hsame : other.1 = entry.1 := by simpa using h
            exact hfresh (hsame ▸ List.mem_map_of_mem hother)

theorem reaches_checkForChanges {node after : MqNode} (keyed : Keyed node.sync.peers)
    (returns : checkForChanges.run node = .ok () after) :
    ∃ looped, Reaches node.sync.peers.entries node looped ∧ after.sync = looped.sync ∧
      after.state.ip = node.state.ip := by
  have hip : after.state.ip = node.state.ip := by
    rw [checkForChanges_returned keyed returns]
    exact checked_ip _ _
  obtain ⟨_, locked, hlock, hrest⟩ := bind_returned returns
  obtain ⟨_, _, hget, hrest⟩ := bind_returned hrest
  cases hget
  obtain ⟨_, looped, hloop, hrest⟩ := bind_returned hrest
  obtain ⟨_, removed, hremove, hrelease⟩ := bind_returned hrest
  obtain ⟨acquired, hacquire, rfl⟩ := onState_returned hlock
  obtain ⟨-, rfl⟩ := State.lockAquire_returned hacquire
  obtain ⟨_, -, rfl⟩ := onState_returned hremove
  obtain ⟨_, -, rfl⟩ := onState_returned hrelease
  have hreaches := reaches_loop node.sync.peers.nodupKeys
    (fun entry hentry => keyed _ _ (Dict.lookup_of_mem_entries hentry)) hloop
  exact ⟨looped, ⟨hreaches.ip, hreaches.peers, hreaches.keeps, hreaches.new, hreaches.known,
    hreaches.others, hreaches.reached⟩, rfl, hip⟩

theorem follows_of_check {node after : MqNode} (keyed : Keyed node.sync.peers)
    (returns : checkForChanges.run node = .ok () after) : Follows after ↔ Prepared node := by
  obtain ⟨looped, hreaches, hsync, hip⟩ := reaches_checkForChanges keyed returns
  have hlinked (record : PeerRecord) : linked after record = linked looped record := by
    rw [linked, hsync, linked]
  unfold Follows Prepared
  rw [hsync, hreaches.peers, hip]
  constructor
  · intro hfollows ip record hrecord hforeign hknown
    have hlink := hfollows ip record hrecord hforeign
    rw [hlinked] at hlink
    obtain ⟨endpoint, hendpoint, hmem⟩ := (Option.any_eq_true _ _).mp hlink
    have haddress : endpoint.ip = ip := by
      unfold endpointOf at hendpoint
      split at hendpoint
      · cases hendpoint
        exact keyed ip record hrecord
      · cases hendpoint
    rcases hreaches.new endpoint (of_decide_eq_true hmem) with h | h
    · exact (Option.any_eq_true _ _).mpr ⟨endpoint, hendpoint, decide_eq_true h⟩
    · exact absurd (haddress ▸ hknown) h
  · intro hprepared ip record hrecord hforeign
    rw [hlinked]
    by_cases hknown : ip ∈ node.state.peers
    · exact linked_mono hreaches.keeps (hprepared ip record hrecord hforeign hknown)
    · exact hreaches.reached ⟨ip, record⟩ (AList.mem_lookup_iff.mp hrecord) hforeign hknown

structure Subscriber where
  node : MqNode
  listening : Bool
  checked : Bool
  deriving DecidableEq

/-- A received message carries records filed under their own address; the other modules of
the node leave `State` as they like. -/
inductive Happening where
  | receive (msg : Msg)
      (keyed : ∀ version peers, msg.body = .stateUpdate version peers → Keyed peers)
  | check
  | publish (change : Change)
  | others (state : State)

def checkpoint (node : MqNode) (msg : Msg) : Option MqNode :=
  if msg.sender = address node then none
  else
    match msg.body with
    | .stateUpdate version peers =>
      if node.sync.version < version then
        some { node with sync := { node.sync with
          ready := node.sync.ready || node.sync.version = 0
          version := version
          peers := peers } }
      else none
    | .departureNotice virtualIp =>
      some { node with sync := { node.sync with
        peers := node.sync.peers.erase virtualIp
        sub := node.sync.sub.erase msg.sender
        version := node.sync.version + 1 } }
    | .onboardNotice => none

def step (subscriber : Subscriber) : Happening → Option Subscriber
  | .receive msg _ =>
    let result := (listenForUpdates msg).run subscriber.node
    if subscriber.listening then
      some ⟨final result, returned result,
        returned result && (checkpoint subscriber.node msg).isSome⟩
    else none
  | .check =>
    let result := checkForChanges.run subscriber.node
    some ⟨final result, subscriber.listening, returned result⟩
  | .publish change => some ⟨publishChange subscriber.node change, subscriber.listening, false⟩
  | .others state =>
    if state.ip = subscriber.node.state.ip then
      some ⟨{ subscriber.node with state }, subscriber.listening, false⟩
    else none

def prepared (subscriber : Subscriber) : Happening → Prop
  | .receive msg _ => ∀ point, checkpoint subscriber.node msg = some point → Prepared point
  | .check => Prepared subscriber.node
  | _ => True

private theorem getItem_returned {σ κ ν : Type} [DecidableEq κ] {missing : Halt}
    {dict : Dict κ ν} {key : κ} {state after : σ} {value : ν}
    (returns : (getItem missing dict key : EStateM Halt σ ν).run state = .ok value after) :
    after = state := by
  cases hfound : dict.lookup key with
  | none =>
      rw [run_getItem_none hfound] at returns
      cases returns
  | some found =>
      rw [run_getItem_some hfound] at returns
      cases returns
      rfl

theorem checkForChanges_of_listen {node point after : MqNode} {msg : Msg}
    (checks : checkpoint node msg = some point)
    (returns : (listenForUpdates msg).run node = .ok () after) :
    checkForChanges.run point = .ok () after := by
  obtain ⟨_, _, hget, hbody⟩ := bind_returned returns
  cases hget
  unfold checkpoint at checks
  split at checks
  · cases checks
  · rename_i hother
    rw [if_neg hother] at hbody
    cases hkind : msg.body with
    | stateUpdate version peers =>
        rw [hkind] at checks hbody
        dsimp only at checks
        split at checks
        · rename_i hnewer
          cases checks
          obtain ⟨_, _, hget, hbody⟩ := bind_returned hbody
          cases hget
          rw [if_pos hnewer] at hbody
          obtain ⟨_, _, hmodify, hcheck⟩ := bind_returned hbody
          cases hmodify
          exact hcheck
        · cases checks
    | departureNotice virtualIp =>
        rw [hkind] at checks hbody
        cases checks
        obtain ⟨_, _, hget, hbody⟩ := bind_returned hbody
        cases hget
        obtain ⟨_, _, hitem, hbody⟩ := bind_returned hbody
        obtain ⟨_, _, herase, hbody⟩ := bind_returned hbody
        obtain ⟨_, _, hdisconnect, hbody⟩ := bind_returned hbody
        obtain ⟨_, _, hversion, hbody⟩ := bind_returned hbody
        obtain ⟨_, _, hfix, hcheck⟩ := bind_returned hbody
        obtain rfl := getItem_returned hitem
        cases herase
        obtain ⟨_, hport, -, rfl⟩ := disconnect_returned hdisconnect
        cases hport
        cases hversion
        obtain ⟨-, rfl⟩ := selfFix_returned hfix
        exact hcheck
    | onboardNotice =>
        rw [hkind] at checks
        cases checks

def Filed (node : MqNode) : Prop := Keyed node.sync.peers

theorem blind_filed : Blind Filed := ⟨fun _ _ filed => filed, fun _ _ filed => filed⟩

theorem keeps_listenForUpdates (msg : Msg)
    (keyed : ∀ version peers, msg.body = .stateUpdate version peers → Keyed peers) :
    Keeps Filed (listenForUpdates msg) :=
  blind_filed.keeps_listenForUpdates msg
    (fun _ version peers hbody _ _ => keyed version peers hbody)
    (fun _ _ filed => Dict.All.erase filed _) (fun _ filed => filed) fun _ filed => filed

theorem filed_publishChange {node : MqNode} (filed : Filed node) (change : Change) :
    Filed (publishChange node change) := by
  have hpeers : (publishChange node change).sync.peers =
      node.sync.peers.set change.virtualIp (publishedRecord node change) :=
    (subscribed_connects _ _ _).peers
  unfold Filed
  rw [hpeers]
  exact Dict.All.set filed rfl

theorem filed_step {subscriber after : Subscriber} {happening : Happening}
    (filed : Filed subscriber.node) (next : step subscriber happening = some after) :
    Filed after.node := by
  cases happening with
  | receive msg keyed =>
      simp only [step] at next
      split at next
      · cases next
        exact keeps_listenForUpdates msg keyed _ filed
      · cases next
  | check =>
      cases next
      exact blind_filed.keeps_checkForChanges _ filed
  | publish change =>
      cases next
      exact filed_publishChange filed change
  | others state =>
      simp only [step] at next
      split at next
      · cases next
        exact filed
      · cases next

inductive Starts : MqNode → Prop where
  | alone (state : State) (port : Nat) : Starts ⟨state, .new state port⟩
  | seeded (state : State) (seedNode : PeerRecord) (seedPort port : Nat)
      (ported : seedNode.syncPort = .port seedPort) :
      Starts ⟨state, .seeded state seedNode seedPort port⟩

theorem filed_starts {node : MqNode} (starts : Starts node) : Filed node := by
  have hnew (state : State) (port : Nat) : Keyed (MessageQueueSync.new state port).peers :=
    Dict.All.set (Dict.all_empty _) rfl
  cases starts with
  | alone state port => exact hnew state port
  | seeded state seedNode seedPort port ported =>
      unfold Filed MessageQueueSync.seeded
      dsimp only
      rw [(connected_connects _ _).peers]
      exact Dict.All.set (hnew state port) rfl

def Subscriber.start (node : MqNode) : Subscriber := ⟨node, true, false⟩

theorem filed_checkpoint {node point : MqNode} {msg : Msg} (filed : Filed node)
    (keyed : ∀ version peers, msg.body = .stateUpdate version peers → Keyed peers)
    (checks : checkpoint node msg = some point) : Filed point := by
  unfold checkpoint at checks
  split at checks
  · cases checks
  · split at checks
    · rename_i version peers hkind
      split at checks
      · cases checks
        exact keyed version peers hkind
      · cases checks
    · cases checks
      exact Dict.All.erase filed _
    · cases checks

/-- A step that has checked ends connected to everybody exactly if it was prepared. -/
theorem follows_of_step {subscriber after : Subscriber} {happening : Happening}
    (filed : Filed subscriber.node) (next : step subscriber happening = some after)
    (checked : after.checked = true) : Follows after.node ↔ prepared subscriber happening := by
  cases happening with
  | receive msg keyed =>
      simp only [step] at next
      split at next
      · cases next
        obtain ⟨hreturned, hchecks⟩ := (Bool.and_eq_true _ _).mp checked
        obtain ⟨_, hrun⟩ := of_returned hreturned
        obtain ⟨point, hpoint⟩ := Option.isSome_iff_exists.mp hchecks
        have hfiled := filed_checkpoint filed keyed hpoint
        rw [follows_of_check hfiled (checkForChanges_of_listen hpoint hrun)]
        simp [prepared, hpoint]
      · cases next
  | check =>
      cases next
      obtain ⟨_, hrun⟩ := of_returned checked
      exact follows_of_check filed hrun
  | publish change =>
      cases next
      cases checked
  | others state =>
      simp only [step] at next
      split at next
      · cases next
        cases checked
      · cases next

theorem filed_run {node : MqNode} (starts : Starts node) {ok : Subscriber → Happening → Prop}
    {reached : Subscriber} (run : Run step ok (.start node) reached) : Filed reached.node :=
  Run.invariant (fun subscriber => Filed subscriber.node) (filed_starts starts)
    (fun _ _ _ _ filed _ next => filed_step filed next) run

/-- In runs whose checks find every known peer connected, the subscriber follows the
membership; in any run a single check does so only then. -/
theorem subscriber_follows_membership (node : MqNode) (starts : Starts node) :
    (∀ reached, Run step prepared (.start node) reached → reached.checked = true →
      Follows reached.node) ∧
    ∀ before happening after, Run step always (.start node) before →
      step before happening = some after → after.checked = true →
      (Follows after.node ↔ prepared before happening) := by
  constructor
  · intro reached run checked
    cases run with
    | refl => cases checked
    | step run ok next => exact (follows_of_step (filed_run starts run) next checked).mpr ok
  · intro before happening after run next checked
    exact follows_of_step (filed_run starts run) next checked

/-! A node that creates the network, and the first state it hears of, with one peer. -/

def founder : MqNode :=
  let state := State.new "10.0.0.1" "ka" "198.51.100.1" 51820
  ⟨state, .new state 5555⟩

def settler : PeerRecord :=
  ⟨"10.0.0.2", "kb", "198.51.100.2", 51820, .port 5555, ["10.0.0.2/32"]⟩

def settledMap : PeerMap := founder.sync.peers.set "10.0.0.2" settler

private theorem settledMap_keyed : Keyed settledMap := by
  refine Dict.All.set (Dict.All.set (Dict.all_empty _) ?_) ?_ <;> rfl

def hearOfSettler : Happening :=
  .receive ⟨⟨"10.0.0.2", 5555⟩, .stateUpdate 1 settledMap⟩ (by
    intro version peers hbody
    cases hbody
    exact settledMap_keyed)

theorem subscriber_follows_membership_founder :
    ∃ reached : Subscriber, reached.checked = true ∧ Follows reached.node := by
  obtain ⟨reached, hnext⟩ : ∃ reached, step (.start founder) hearOfSettler = some reached :=
    ⟨_, rfl⟩
  have hchecked : reached.checked = true := by
    have hstep : (step (.start founder) hearOfSettler).any (·.checked) = true := by decide +kernel
    simpa [hnext] using hstep
  have hok : prepared (.start founder) hearOfSettler := by
    intro point hpoint
    cases hpoint
    unfold Prepared
    decide +kernel
  exact ⟨reached, hchecked, (subscriber_follows_membership founder (.alone _ _)).1 reached
    (.single hok hnext) hchecked⟩

/-- Another module has added the peer first. -/
theorem subscriber_follows_membership_fails :
    ¬ ∀ node, Starts node → ∀ reached, Run step always (.start node) reached →
      reached.checked = true → Follows reached.node := by
  intro claimed
  let known :=
    (founder.state.enableAllSyncMode 3).addPeer "10.0.0.2" "kb" "198.51.100.2" 51820
  have hreplay : (replay step (fun _ _ => true) (.start founder)
      [.others known, hearOfSettler]).any
      (fun reached => reached.checked ∧ ¬Follows reached.node) = true := by decide +kernel
  obtain ⟨reached, hrun, hfound⟩ := reached_of_replay (fun _ _ _ => trivial) hreplay
  obtain ⟨hchecked, hbad⟩ := of_decide_eq_true hfound
  exact hbad (claimed founder (.alone _ _) reached hrun hchecked)

end WgBp.Mq
