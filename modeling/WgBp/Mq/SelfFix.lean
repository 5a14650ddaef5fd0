import WgBp.Library.LiveLoop
import WgBp.Mq.Handling

/-! `_selfFix` as the loop it is: it deletes from the dictionary it iterates over. What it
is meant to do happens only when there is nothing to delete. -/
namespace WgBp.Mq

open WgBp.Library WgBp.Library.Procedure WgBp.Library.LiveLoop WgBp.Model

def peerIps (node : MqNode) : List Ip := node.sync.peers.keys

def fixPeer (peerIp : Ip) : EStateM Halt MqNode Unit := do
  if peerIp = (← get).state.ip then pure ()
  else if peerIp ∉ (← get).state.peers then
    let record ← getItem (.raised .keyError) (← get).sync.peers peerIp
    disconnect record.virtualIp (← record.getSyncPort)
    modify fun node => { node with sync := { node.sync with
      peers := node.sync.peers.erase peerIp } }

def selfFixLoop : EStateM Halt MqNode Unit :=
  forLive peerIps (.raised .runtimeError) fixPeer

/-- The entries the loop is meant to delete: no other module has kept the peer. -/
def Vanished (node : MqNode) (ip : Ip) : Prop := ip ≠ node.state.ip ∧ ip ∉ node.state.peers

instance (node : MqNode) (ip : Ip) : Decidable (Vanished node ip) :=
  inferInstanceAs (Decidable (_ ∧ _))

theorem run_fixPeer_spared {node : MqNode} {peerIp : Ip} (spared : ¬Vanished node peerIp) :
    (fixPeer peerIp).run node = .ok () node := by
  by_cases hown : peerIp = node.state.ip
  · simp [fixPeer, hown]
  · have hknown : peerIp ∈ node.state.peers := by
      by_contra hunknown
      exact spared ⟨hown, hunknown⟩
    simp [fixPeer, hown, hknown]

def dropPeer (peerIp : Ip) (record : PeerRecord) : EStateM Halt MqNode Unit := do
  disconnect record.virtualIp (← record.getSyncPort)
  modify fun node => { node with sync := { node.sync with
    peers := node.sync.peers.erase peerIp } }

theorem run_fixPeer_vanished {node : MqNode} {peerIp : Ip} {record : PeerRecord}
    (vanished : Vanished node peerIp) (found : node.sync.peers.lookup peerIp = some record) :
    (fixPeer peerIp).run node = (dropPeer peerIp record).run node := by
  simp only [fixPeer, dropPeer, EStateM.run_bind, EStateM.run_get, vanished.1, vanished.2, if_false,
    not_false_eq_true, if_true, run_getItem_some found]

theorem getSyncPort_returned {σ : Type} {record : PeerRecord} {state after : σ}
    {port : SyncPort}
    (returns : (record.getSyncPort : EStateM Halt σ SyncPort).run state = .ok port after) :
    port = record.syncPort ∧ after = state := by
  unfold PeerRecord.getSyncPort at returns
  split at returns
  · cases returns
  · cases returns
    exact ⟨rfl, rfl⟩

theorem disconnect_returned {node after : MqNode} {virtualIp : Ip} {syncPort : SyncPort}
    (returns : (disconnect virtualIp syncPort).run node = .ok () after) :
    ∃ number, syncPort = .port number ∧ (⟨virtualIp, number⟩ : Address) ∈ node.sync.sub ∧
      after = { node with sync := { node.sync with
        sub := node.sync.sub.erase ⟨virtualIp, number⟩ } } := by
  cases syncPort with
  | missing => cases returns
  | null => cases returns
  | port number =>
      by_cases hconnected : (⟨virtualIp, number⟩ : Address) ∈ node.sync.sub
      · simp only [disconnect, EStateM.run_bind, EStateM.run_get, hconnected, if_true] at returns
        cases returns
        exact ⟨number, rfl, hconnected, rfl⟩
      · simp only [disconnect, EStateM.run_bind, EStateM.run_get, hconnected, if_false] at returns
        cases returns

theorem dropPeer_returned {node after : MqNode} {peerIp : Ip} {record : PeerRecord}
    (returns : (dropPeer peerIp record).run node = .ok () after) :
    after.sync.peers = node.sync.peers.erase peerIp := by
  obtain ⟨port, mid, hport, hrest⟩ := bind_returned returns
  obtain ⟨_, last, hdisconnect, hmodify⟩ := bind_returned hrest
  obtain ⟨-, rfl⟩ := getSyncPort_returned hport
  obtain ⟨_, -, -, rfl⟩ := disconnect_returned hdisconnect
  cases hmodify
  rfl

/-- A deletion ends the loop, wherever in the dictionary it happens. -/
theorem run_iterate_fixPeer (node : MqNode) {done todo : List (Σ _ : Ip, PeerRecord)}
    (entries : node.sync.peers.entries = done ++ todo) :
    (iterate peerIps (.raised .runtimeError) fixPeer (peerIps node).length todo.length).run node =
      match todo.find? (fun entry => entry.1 ≠ node.state.ip ∧ entry.1 ∉ node.state.peers) with
      | none => .ok () node
      | some entry =>
        (do dropPeer entry.1 entry.2; throw (.raised .runtimeError) : EStateM Halt MqNode Unit).run
          node := by
  induction todo generalizing done with
  | nil => exact run_iterate_end _ _ _ node
  | cons entry rest ih =>
      have hahead : peerIps node = done.keys ++ entry.1 :: rest.keys := by
        simp [peerIps, AList.keys, entries, List.keys]
      have hlength : rest.keys.length = rest.length := List.length_map _
      have hnext := run_iterate_next peerIps (.raised .runtimeError) fixPeer hahead
      rw [hlength] at hnext
      rw [List.length_cons, hnext, EStateM.run_bind]
      by_cases hvanished : Vanished node entry.1
      · have hfound : node.sync.peers.lookup entry.1 = some entry.2 :=
          Dict.lookup_of_mem_entries (by simp [entries])
        have hmem := Dict.mem_of_lookup hfound
        have hfind : (entry :: rest).find? (fun entry => entry.1 ≠ node.state.ip ∧
            entry.1 ∉ node.state.peers) = some entry :=
          List.find?_cons_of_pos (by simpa [Vanished] using hvanished)
        rw [run_fixPeer_vanished hvanished hfound, hfind]
        dsimp only
        rw [EStateM.run_bind]
        cases hdrop : (dropPeer entry.1 entry.2).run node with
        | error error after => rfl
        | ok value after =>
            have hsize : (peerIps after).length ≠ (peerIps node).length := by
              have hpositive := List.length_pos_of_mem (AList.mem_keys.mp hmem)
              unfold peerIps
              rw [dropPeer_returned hdrop, AList.keys_erase,
                List.length_erase_of_mem (AList.mem_keys.mp hmem)]
              omega
            exact run_iterate_resized _ _ _ hsize _
      · have hfind : (entry :: rest).find? (fun entry => entry.1 ≠ node.state.ip ∧
            entry.1 ∉ node.state.peers) = rest.find? (fun entry => entry.1 ≠ node.state.ip ∧
              entry.1 ∉ node.state.peers) :=
          List.find?_cons_of_neg (by simpa [Vanished] using hvanished)
        rw [run_fixPeer_spared hvanished, hfind]
        exact ih (by rw [entries, List.append_cons])

@[simp] theorem run_selfFixLoop (node : MqNode) : selfFixLoop.run node = selfFix.run node := by
  have hloop := run_iterate_fixPeer node (List.nil_append node.sync.peers.entries).symm
  have hlength : node.sync.peers.entries.length = (peerIps node).length :=
    (List.length_map _).symm
  rw [hlength] at hloop
  unfold selfFixLoop forLive selfFix unconfigured
  rw [EStateM.run_bind, EStateM.run_get, EStateM.run_bind, EStateM.run_get]
  dsimp only
  rw [hloop]
  cases node.sync.peers.entries.find? (fun entry => entry.1 ≠ node.state.ip ∧
      entry.1 ∉ node.state.peers) with
  | none => rfl
  | some entry =>
      simp [dropPeer]

theorem selfFixLoop_eq : selfFixLoop = selfFix := funext run_selfFixLoop

def endpointOf (record : PeerRecord) : Option Address :=
  match record.syncPort with
  | .port number => some ⟨record.virtualIp, number⟩
  | _ => none

/-- The repair the loop is for: the vanished entries are gone, and the subscriber is
disconnected once from each of them; nothing else has changed. -/
structure Repairs (before after : MqNode) : Prop where
  state : after.state = before.state
  kept : ∀ ip, ¬Vanished before ip → after.sync.peers.lookup ip = before.sync.peers.lookup ip
  deleted : ∀ ip, Vanished before ip → ip ∉ after.sync.peers
  sub : after.sync.sub = before.sync.sub.diff
    ((before.sync.peers.entries.filter fun entry => Vanished before entry.1).filterMap
      fun entry => endpointOf entry.2)
  rest : { after.sync with peers := before.sync.peers, sub := before.sync.sub } = before.sync

theorem unconfigured_eq_none (node : MqNode) :
    unconfigured node = none ↔ ∀ ip ∈ node.sync.peers, ¬Vanished node ip := by
  unfold unconfigured
  rw [List.find?_eq_none]
  constructor
  · intro hnone ip hip hvanished
    obtain ⟨record, hrecord⟩ := Dict.mem_iff_lookup.mp hip
    exact hnone ⟨ip, record⟩ (AList.mem_lookup_iff.mp hrecord) (by simpa [Vanished] using hvanished)
  · intro hall entry hentry hbad
    exact hall entry.1 (Dict.mem_of_lookup (Dict.lookup_of_mem_entries hentry))
      (by simpa [Vanished] using hbad)

theorem repairs_self {node : MqNode} (settled : ∀ ip ∈ node.sync.peers, ¬Vanished node ip) :
    Repairs node node where
  state := rfl
  kept := fun _ _ => rfl
  deleted := fun ip vanished listed => settled ip listed vanished
  sub := by
    have hnone : (node.sync.peers.entries.filter fun entry => Vanished node entry.1) = [] := by
      rw [List.filter_eq_nil_iff]
      intro entry hentry
      have hsettled := settled entry.1 (Dict.mem_of_lookup (Dict.lookup_of_mem_entries hentry))
      simpa using hsettled
    rw [hnone]
    rfl
  rest := rfl

theorem selfFix_returned {node after : MqNode} (returns : selfFix.run node = .ok () after) :
    unconfigured node = none ∧ after = node := by
  obtain ⟨_, _, hget, hrest⟩ := bind_returned returns
  cases hget
  cases hfound : unconfigured node with
  | none =>
      rw [hfound] at hrest
      cases hrest
      exact ⟨rfl, rfl⟩
  | some entry =>
      rw [hfound] at hrest
      obtain ⟨_, _, _, hrest⟩ := bind_returned hrest
      obtain ⟨_, _, _, hrest⟩ := bind_returned hrest
      obtain ⟨_, _, _, hthrow⟩ := bind_returned hrest
      cases hthrow

theorem self_fix_repairs_iff (node : MqNode) :
    (∃ after, selfFixLoop.run node = .ok () after ∧ Repairs node after ∧
      (do selfFixLoop; checkForChanges).run node = checkForChanges.run after) ↔
    ∀ ip ∈ node.sync.peers, ip ≠ node.state.ip → ip ∈ node.state.peers := by
  have hsettled : (∀ ip ∈ node.sync.peers, ip ≠ node.state.ip → ip ∈ node.state.peers) ↔
      unconfigured node = none := by
    rw [unconfigured_eq_none]
    simp [Vanished]
  rw [hsettled, selfFixLoop_eq]
  constructor
  · rintro ⟨after, hrun, -, -⟩
    exact (selfFix_returned hrun).1
  · intro hnone
    have hrun : selfFix.run node = .ok () node := by simp [selfFix, hnone]
    refine ⟨node, hrun, repairs_self ((unconfigured_eq_none node).mp hnone), ?_⟩
    rw [EStateM.run_bind, hrun]

def abandoned : MqNode where
  state := .new "10.0.0.1" "ka" "198.51.100.1" 51820
  sync := ⟨5555, 3, (Dict.set ∅ "10.0.0.1" ⟨"10.0.0.1", "ka", "198.51.100.1", 51820, .port 5555,
      ["10.0.0.1/32"]⟩).set "10.0.0.2" ⟨"10.0.0.2", "kb", "198.51.100.2", 51820, .port 5555,
      ["10.0.0.2/32"]⟩, true, [⟨"10.0.0.2", 5555⟩], []⟩

theorem self_fix_repairs_fails :
    ¬ ∀ node : MqNode, Ported node.sync.peers →
      ∃ after, selfFixLoop.run node = .ok () after ∧ Repairs node after ∧
        (do selfFixLoop; checkForChanges).run node = checkForChanges.run after := by
  intro claimed
  have hported : Ported abandoned.sync.peers :=
    Dict.All.set (Dict.All.set (Dict.all_empty _) ⟨_, rfl⟩) ⟨_, rfl⟩
  obtain ⟨after, hrun, -⟩ := claimed abandoned hported
  have hraised : returned (selfFixLoop.run abandoned) = false := by decide +kernel
  rw [hrun] at hraised
  cases hraised

end WgBp.Mq
