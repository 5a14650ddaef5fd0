import WgBp.Gossip.Agreement
import WgBp.Gossip.SendLock
import WgBp.Library.Cascade

/-! Gossip dies out between two rounds. A reply is sent only to an older version, or once
to a node that is being onboarded, and carries a higher one, and a leaving node selects at
most `DEGREE` peers for its notice; so, each message handled at most once, what is under
way leads to a bounded number of further messages. -/
namespace WgBp.Gossip

open WgBp.Library WgBp.Library.Procedure WgBp.Library.Transition WgBp.Library.Cascade
open WgBp.Model

/-- What may still happen when no round starts and nobody joins or publishes. -/
inductive Settling where
  | send (node outgoing : Nat) (receiver : Option Nat) (raises : Bool)
  | handle (packet : Nat)
  | drop (packet : Nat)
  | leave (node : Nat)
  | depart (node : Nat) (peerIp : Ip)
  | stop (node : Nat)
  deriving DecidableEq

/-- `notices` says how often the loop of each node's `_sendLastGossip` may still select. -/
structure Ebb where
  network : Network
  notices : List Nat
  deriving DecidableEq

def Network.ebb (degree : Nat) (network : Network) : Ebb :=
  ⟨network, network.processes.map fun _ => degree⟩

/-- A message is handled once, since its connection carries nothing else. -/
def handled (network : Network) (position : Nat) : Option Network :=
  (next network (.deliver position)).bind fun after => next after (.drop position)

def settle (ebb : Ebb) : Settling → Option Ebb
  | .send index position receiver raises =>
    (next ebb.network (.send index position receiver raises)).map (⟨·, ebb.notices⟩)
  | .handle position => (handled ebb.network position).map (⟨·, ebb.notices⟩)
  | .drop position =>
    if position < ebb.network.packets.length then
      (next ebb.network (.drop position)).map (⟨·, ebb.notices⟩)
    else none
  | .leave index => (next ebb.network (.leave index)).map (⟨·, ebb.notices⟩)
  | .depart index peerIp => do
    let left ← ebb.notices[index]?
    if left = 0 then none
    else (next ebb.network (.depart index peerIp)).map (⟨·, ebb.notices.set index (left - 1)⟩)
  | .stop index => (next ebb.network (.stop index)).map (⟨·, ebb.notices⟩)

inductive Settles (ebb : Ebb) : Settling → Ebb → Prop where
  | send {index position : Nat} {receiver : Option Nat} {raises : Bool} {after : Network}
      (step : next ebb.network (.send index position receiver raises) = some after) :
      Settles ebb (.send index position receiver raises) ⟨after, ebb.notices⟩
  | handle {position : Nat} {delivered after : Network}
      (step : next ebb.network (.deliver position) = some delivered)
      (dropped : next delivered (.drop position) = some after) :
      Settles ebb (.handle position) ⟨after, ebb.notices⟩
  | drop {position : Nat} {after : Network} (inFlight : position < ebb.network.packets.length)
      (step : next ebb.network (.drop position) = some after) :
      Settles ebb (.drop position) ⟨after, ebb.notices⟩
  | leave {index : Nat} {after : Network} (step : next ebb.network (.leave index) = some after) :
      Settles ebb (.leave index) ⟨after, ebb.notices⟩
  | depart {index left : Nat} {peerIp : Ip} {after : Network}
      (remaining : ebb.notices[index]? = some (left + 1))
      (step : next ebb.network (.depart index peerIp) = some after) :
      Settles ebb (.depart index peerIp) ⟨after, ebb.notices.set index left⟩
  | stop {index : Nat} {after : Network} (step : next ebb.network (.stop index) = some after) :
      Settles ebb (.stop index) ⟨after, ebb.notices⟩

theorem settles_of_settle {ebb after : Ebb} {label : Settling}
    (step : settle ebb label = some after) : Settles ebb label after := by
  cases label with
  | send index position receiver raises =>
      obtain ⟨network, hstep, rfl⟩ := Option.map_eq_some_iff.mp step
      exact .send hstep
  | handle position =>
      obtain ⟨network, hstep, rfl⟩ := Option.map_eq_some_iff.mp step
      obtain ⟨mid, hdeliver, hdrop⟩ := Option.bind_eq_some_iff.mp hstep
      exact .handle hdeliver hdrop
  | drop position =>
      simp only [settle] at step
      split at step
      · rename_i hposition
        obtain ⟨network, hstep, rfl⟩ := Option.map_eq_some_iff.mp step
        exact .drop hposition hstep
      · cases step
  | leave index =>
      obtain ⟨network, hstep, rfl⟩ := Option.map_eq_some_iff.mp step
      exact .leave hstep
  | depart index peerIp =>
      obtain ⟨left, hleft, h⟩ := Option.bind_eq_some_iff.mp step
      split at h
      · cases h
      · rename_i hpositive
        obtain ⟨low, rfl⟩ := Nat.exists_eq_succ_of_ne_zero hpositive
        obtain ⟨network, hstep, rfl⟩ := Option.map_eq_some_iff.mp h
        exact .depart hleft hstep
  | stop index =>
      obtain ⟨network, hstep, rfl⟩ := Option.map_eq_some_iff.mp step
      exact .stop hstep

theorem run_of_settle {ebb after : Ebb} {label : Settling}
    (step : settle ebb label = some after) : Run next always ebb.network after.network := by
  cases settles_of_settle step with
  | handle hdeliver hdrop => exact .step (.single trivial hdeliver) trivial hdrop
  | send hstep | drop _ hstep | leave hstep | depart _ hstep | stop hstep =>
      exact .single trivial hstep

def AtVersion (version : Nat) (node : GossipNode) : Prop := node.sync.version = version

theorem atVersion_onState {version : Nat} {α : Type} (body : EStateM Halt State α) :
    Keeps (AtVersion version) (onState body : EStateM Halt GossipNode α) := by
  intro node h
  rw [final_onState]
  exact h

theorem atVersion_noticeDeparture (version : Nat) (msg : Msg) :
    Keeps (AtVersion version) (noticeDeparture msg) := by
  unfold noticeDeparture
  split
  · refine Keeps.bind (Keeps.get _) fun node => ?_
    split
    · exact Keeps.bind (Keeps.modify fun _ h => h) fun _ => Keeps.bind (Keeps.get _) fun _ =>
        atVersion_onState _
    · exact Keeps.pure _ _
  · exact Keeps.pure _ _

inductive Delivers (process : Process) (msg : Msg) (after : Process) : Prop where
  | ignored (version : after.node.sync.version = process.node.sync.version)
      (outbox : after.outbox = process.outbox)
  | onboarded (zero : msg.version = 0)
      (version : after.node.sync.version = process.node.sync.version + 1)
      (outbox : after.outbox.length = process.outbox.length + 1)
  | answered (positive : msg.version ≠ 0) (older : msg.version < process.node.sync.version)
      (version : after.node.sync.version = process.node.sync.version)
      (outbox : after.outbox.length = process.outbox.length + 1)
  | adopted (newer : process.node.sync.version < msg.version)
      (version : after.node.sync.version = msg.version) (outbox : after.outbox = process.outbox)

theorem final_newer_version (node : GossipNode) {msg : Msg} (positive : msg.version ≠ 0)
    (newer : node.sync.version < msg.version) :
    (final ((handleGossip msg).run node)).sync.version = msg.version := by
  have hlower : ¬msg.version < node.sync.version := by omega
  have hequal : msg.version ≠ node.sync.version := by omega
  have hrest : Keeps (AtVersion msg.version) (do
      onState (checkForChanges (← get).sync.peers)
      noticeDeparture msg
      pure Handled.done : EStateM Halt GossipNode Handled) :=
    Keeps.bind (Keeps.get _) fun _ => Keeps.bind (atVersion_onState _) fun _ =>
      Keeps.bind (atVersion_noticeDeparture _ _) fun _ => Keeps.pure _ _
  have hfinal := hrest { node with sync := { node.sync with
    version := msg.version, peers := msg.state } } rfl
  simp only [handleGossip, positive, hlower, hequal, if_false, EStateM.run_bind, EStateM.run_get,
    EStateM.run_modify]
  simpa only [EStateM.run_bind, EStateM.run_get, AtVersion] using hfinal

theorem delivers (process : Process) (msg : Msg) :
    Delivers process msg (delivered process msg) := by
  unfold delivered
  dsimp only
  by_cases hzero : msg.version = 0
  · rcases run_handleGossip_zero process.node hzero with
      ⟨newPeer, known, hnew, hknown, hport, hrun⟩ | hrun
    · refine .onboarded hzero ?_ ?_
      · rw [hrun]
        rfl
      · rw [hrun]
        simp [outcome, replyOf]
    · refine .ignored ?_ ?_
      · rw [hrun]
        rfl
      · rw [hrun]
        simp [outcome, replyOf]
  · rcases Nat.lt_trichotomy msg.version process.node.sync.version with holder | hequal | hnewer
    · refine .answered hzero holder ?_ ?_
      · rw [final_handleGossip_known hzero holder.le]
      · simp [handleGossip, hzero, holder, outcome, replyOf]
    · have hpositive : process.node.sync.version ≠ 0 := hequal ▸ hzero
      refine .ignored ?_ ?_
      · rw [final_handleGossip_known hzero hequal.le]
      · simp [handleGossip, hequal, hpositive, outcome, replyOf]
    · refine .adopted hnewer (final_newer_version process.node hzero hnewer) ?_
      rw [outcome_higher process.node hzero hnewer]
      exact List.append_nil _

@[simp] theorem afterSend_version (node : GossipNode) (outgoing : Outgoing) (raises : Bool) :
    (afterSend node outgoing raises).sync.version = node.sync.version := by
  unfold afterSend
  split
  · unfold forgetUnreachable
    split <;> rfl
  · unfold forgetUnreachable
    split <;> rfl
  · exact atVersion_noticeDeparture _ _ node rfl
  · rfl

def Packet.rises (packet : Packet) : Nat := if packet.msg.version = 0 then 1 else 0

def Packet.effort (top : Nat) (packet : Packet) : Nat := 2 * (top - packet.msg.version) + 1

/-- What a node at version zero sends will be answered with a version of its own. -/
def Process.rises (process : Process) : Nat :=
  (if process.node.sync.version = 0 then process.outbox.length else 0) +
    if process.phase = .running then 1 else 0

def Phase.effort : Phase → Nat
  | .running => 2
  | .leaving => 1
  | .stopped => 0

def Process.effort (top : Nat) (process : Process) : Nat :=
  process.outbox.length * (2 * (top - process.node.sync.version) + 2) + process.phase.effort

def Network.rises (network : Network) : Nat :=
  (network.processes.map Process.rises).sum + (network.packets.map Packet.rises).sum

def Network.effort (top : Nat) (network : Network) : Nat :=
  (network.processes.map (Process.effort top)).sum + (network.packets.map (Packet.effort top)).sum

def Network.allVersions (network : Network) : List Nat :=
  network.processes.map (fun process => process.node.sync.version) ++
    network.packets.map fun packet => packet.msg.version

/-- A selection may raise a version once more, where the node is still at zero. -/
def Ebb.top (ebb : Ebb) : Nat :=
  ebb.network.allVersions.max?.getD 0 + ebb.network.rises + ebb.notices.sum

def Ebb.effort (top : Nat) (ebb : Ebb) : Nat :=
  ebb.network.effort top + ebb.notices.sum * (2 * top + 3)

def Network.traffic (degree : Nat) (network : Network) : Nat :=
  (network.ebb degree).effort (network.ebb degree).top

/-- Versions stay below the top, whatever may still raise them. -/
structure Calming (top : Nat) (network : Network) : Prop where
  processes : ∀ process ∈ network.processes, process.node.sync.version + network.rises ≤ top
  packets : ∀ packet ∈ network.packets, packet.msg.version + network.rises ≤ top

theorem Calming.mono {low top : Nat} {network : Network} (calming : Calming low network)
    (le : low ≤ top) : Calming top network :=
  ⟨fun process hprocess => (calming.processes process hprocess).trans le,
    fun packet hpacket => (calming.packets packet hpacket).trans le⟩

variable {network after : Network} {top index position : Nat} {process changed : Process}
  {packets : List Packet} {tickets : List Ticket} {serial : Nat}

theorem rises_put (member : network.processes[index]? = some process) (changed : Process)
    (packets : List Packet) (tickets : List Ticket) (serial : Nat) :
    Network.rises ⟨network.processes.set index changed, packets, tickets, serial⟩ + process.rises +
      (network.packets.map Packet.rises).sum =
    network.rises + changed.rises + (packets.map Packet.rises).sum := by
  have hsum := sum_map_set Process.rises member changed
  unfold Network.rises
  dsimp only
  omega

theorem effort_put (member : network.processes[index]? = some process) (changed : Process)
    (packets : List Packet) (tickets : List Ticket) (serial top : Nat) :
    Network.effort top ⟨network.processes.set index changed, packets, tickets, serial⟩ +
      process.effort top + (network.packets.map (Packet.effort top)).sum =
    network.effort top + changed.effort top + (packets.map (Packet.effort top)).sum := by
  have hsum := sum_map_set (Process.effort top) member changed
  unfold Network.effort
  dsimp only
  omega

theorem Calming.put (calming : Calming top network)
    (rises : Network.rises ⟨network.processes.set index changed, packets, tickets, serial⟩ ≤
      network.rises)
    (own : changed.node.sync.version +
      Network.rises ⟨network.processes.set index changed, packets, tickets, serial⟩ ≤ top)
    (sent : ∀ packet ∈ packets, packet ∈ network.packets ∨
      packet.msg.version + network.rises ≤ top) :
    Calming top ⟨network.processes.set index changed, packets, tickets, serial⟩ := by
  constructor
  · intro other hother
    rcases List.mem_or_eq_of_mem_set hother with hold | rfl
    · have hle := calming.processes other hold
      omega
    · exact own
  · intro packet hpacket
    have hle : packet.msg.version + network.rises ≤ top := by
      rcases sent packet hpacket with hold | hnew
      · exact calming.packets packet hold
      · exact hnew
    omega

theorem effort_outbox (sender : Process) {node : GossipNode} {outgoing : Outgoing}
    (queued : sender.outbox[position]? = some outgoing)
    (same : node.sync.version = sender.node.sync.version) (top : Nat) :
    let kept := { sender with node, outbox := sender.outbox.eraseIdx position }
    kept.effort top + (2 * (top - sender.node.sync.version) + 2) = sender.effort top ∧
      kept.rises + (if sender.node.sync.version = 0 then 1 else 0) = sender.rises := by
  intro kept
  have hindex := (List.getElem?_eq_some_iff.mp queued).1
  have hlength : kept.outbox.length + 1 = sender.outbox.length := by
    simp only [kept, List.length_eraseIdx, hindex, if_true]
    omega
  have hversion : kept.node.sync.version = sender.node.sync.version := same
  have hphase : kept.phase = sender.phase := rfl
  unfold Process.effort Process.rises
  rw [← hlength, hversion, hphase, Nat.add_mul]
  constructor
  · omega
  · split <;> omega

theorem Calming.send (calming : Calming top network) {receiver : Option Nat} {raises : Bool}
    (step : next network (.send index position receiver raises) = some after) :
    Calming top after ∧ after.effort top < network.effort top := by
  cases stepped_of_next step with
  | @lost _ _ _ process outgoing member queued alive =>
      have hversion := afterSend_version process.node outgoing raises
      obtain ⟨heffort, hrises⟩ := effort_outbox process queued hversion top
      have hle := calming.processes process (List.mem_of_getElem? member)
      have hputRises := rises_put member { process with
        node := afterSend process.node outgoing raises
        outbox := process.outbox.eraseIdx position } network.packets network.tickets network.serial
      have hputEffort := effort_put member { process with
        node := afterSend process.node outgoing raises
        outbox := process.outbox.eraseIdx position } network.packets network.tickets
          network.serial top
      constructor
      · refine calming.put (by omega) ?_ fun packet hpacket => .inl hpacket
        dsimp only
        rw [hversion]
        omega
      · unfold Network.put
        omega
  | @sent _ _ target _ process other outgoing member queued alive receiver listening =>
      have hversion := afterSend_version process.node outgoing raises
      obtain ⟨heffort, hrises⟩ := effort_outbox process queued hversion top
      have hle := calming.processes process (List.mem_of_getElem? member)
      have hputRises := rises_put member { process with
        node := afterSend process.node outgoing raises
        outbox := process.outbox.eraseIdx position }
          (network.packets ++ [sentPacket network index target process outgoing]) network.tickets
          (network.serial + 1)
      have hputEffort := effort_put member { process with
        node := afterSend process.node outgoing raises
        outbox := process.outbox.eraseIdx position }
          (network.packets ++ [sentPacket network index target process outgoing]) network.tickets
          (network.serial + 1) top
      have hsentRises : (sentPacket network index target process outgoing).rises =
          if process.node.sync.version = 0 then 1 else 0 := rfl
      have hsentEffort : (sentPacket network index target process outgoing).effort top =
          2 * (top - process.node.sync.version) + 1 := rfl
      simp only [List.map_append, List.map_cons, List.map_nil, List.sum_append, List.sum_cons,
        List.sum_nil, hsentRises, hsentEffort] at hputRises hputEffort
      unfold Network.put
      dsimp only
      constructor
      · refine calming.put (by omega) ?_ ?_
        · dsimp only
          rw [hversion]
          omega
        · intro packet hpacket
          rcases List.mem_append.mp hpacket with hold | hnew
          · exact .inl hold
          · rw [List.mem_singleton.mp hnew]
            exact .inr hle
      · omega

theorem effort_delivered (process : Process) (msg : Msg) (top : Nat)
    (le : process.node.sync.version + (if msg.version = 0 then 1 else 0) ≤ top)
    (carried : msg.version ≤ top) :
    (delivered process msg).effort top < process.effort top + (2 * (top - msg.version) + 1) ∧
      (delivered process msg).rises ≤ process.rises ∧
      ((delivered process msg).node.sync.version ≤ process.node.sync.version +
        (if msg.version = 0 then 1 else 0) ∨
          (delivered process msg).node.sync.version = msg.version) := by
  have hphase : (delivered process msg).phase = process.phase := rfl
  have hcases := delivers process msg
  unfold Process.effort Process.rises
  rw [hphase]
  generalize delivered process msg = result at hcases
  cases hcases with
  | ignored version outbox =>
      rw [version, outbox]
      exact ⟨by omega, Nat.le_refl _, .inl (Nat.le_add_right _ _)⟩
  | onboarded zero version outbox =>
      rw [if_pos zero] at le
      have hlower : 2 * (top - result.node.sync.version) + 2 ≤
          2 * (top - process.node.sync.version) + 2 := by omega
      have hproduct := Nat.mul_le_mul_left process.outbox.length hlower
      have hpositive : result.node.sync.version ≠ 0 := by omega
      rw [outbox, Nat.add_mul, Nat.one_mul, if_pos zero, if_neg hpositive]
      exact ⟨by omega, by omega, .inl version.le⟩
  | answered positive older version outbox =>
      have hpositive : process.node.sync.version ≠ 0 := by omega
      rw [outbox, version, Nat.add_mul, Nat.one_mul, if_neg hpositive]
      exact ⟨by omega, by omega, .inl (Nat.le_add_right _ _)⟩
  | adopted newer version outbox =>
      have hlower : 2 * (top - result.node.sync.version) + 2 ≤
          2 * (top - process.node.sync.version) + 2 := by omega
      have hproduct := Nat.mul_le_mul_left process.outbox.length hlower
      have hpositive : result.node.sync.version ≠ 0 := by omega
      rw [outbox, if_neg hpositive]
      exact ⟨by omega, by omega, .inr version⟩

theorem Calming.handle {mid : Network} (calming : Calming top network)
    (step : next network (.deliver position) = some mid)
    (dropped : next mid (.drop position) = some after) :
    Calming top after ∧ after.effort top < network.effort top := by
  cases stepped_of_next step with
  | @deliver _ packet process inFlight member alive =>
      cases dropped
      have hmem := List.mem_of_getElem? inFlight
      have hle := calming.processes process (List.mem_of_getElem? member)
      have hcarried := calming.packets packet hmem
      have hrisesErased := sum_map_eraseIdx Packet.rises inFlight
      have heffortErased := sum_map_eraseIdx (Packet.effort top) inFlight
      have hputRises := rises_put member (delivered process packet.msg)
        (network.packets.eraseIdx position) network.tickets network.serial
      have hputEffort := effort_put member (delivered process packet.msg)
        (network.packets.eraseIdx position) network.tickets network.serial top
      have hcounted : packet.rises = if packet.msg.version = 0 then 1 else 0 := rfl
      have hcost : packet.effort top = 2 * (top - packet.msg.version) + 1 := rfl
      have hall : packet.rises ≤ network.rises := by
        unfold Network.rises
        omega
      obtain ⟨heffort, hrises, hversion⟩ :=
        effort_delivered process packet.msg top (by omega) (by omega)
      change Calming top ⟨network.processes.set packet.receiver (delivered process packet.msg),
          network.packets.eraseIdx position, network.tickets, network.serial⟩ ∧
        Network.effort top ⟨network.processes.set packet.receiver (delivered process packet.msg),
          network.packets.eraseIdx position, network.tickets, network.serial⟩ < _
      constructor
      · refine calming.put (by omega) ?_ fun other hother => .inl (List.mem_of_mem_eraseIdx hother)
        rcases hversion with hown | htaken
        · omega
        · omega
      · omega

theorem Calming.quit (calming : Calming top network)
    (member : network.processes[index]? = some process)
    (version : changed.node.sync.version + changed.rises ≤
      process.node.sync.version + process.rises)
    (rises : changed.rises ≤ process.rises) (effort : changed.effort top < process.effort top) :
    Calming top (network.put index changed) ∧
      (network.put index changed).effort top < network.effort top := by
  have hle := calming.processes process (List.mem_of_getElem? member)
  have hputRises := rises_put member changed network.packets network.tickets network.serial
  have hputEffort := effort_put member changed network.packets network.tickets network.serial top
  unfold Network.put
  exact ⟨calming.put (by omega) (by omega) fun packet hpacket => .inl hpacket, by omega⟩

theorem departed_quits {process : Process} (running : process.phase = .running) (top : Nat) :
    (departed process).node.sync.version + (departed process).rises ≤
        process.node.sync.version + process.rises ∧
      (departed process).rises ≤ process.rises ∧
      (departed process).effort top < process.effort top := by
  have hlower : 2 * (top - (process.node.sync.version + 1)) + 2 ≤
      2 * (top - process.node.sync.version) + 2 := by omega
  have hproduct := Nat.mul_le_mul_left process.outbox.length hlower
  unfold departed
  dsimp only
  split
  · simp only [Process.rises, Process.effort, running, Phase.effort, if_true]
    simp
    omega
  · simp only [Process.rises, Process.effort, running, Phase.effort, if_true]
    simp
    omega

theorem Calming.drop (calming : Calming top network)
    (inFlight : position < network.packets.length)
    (step : next network (.drop position) = some after) :
    Calming top after ∧ after.effort top < network.effort top := by
  cases step
  have hfound : network.packets[position]? = some network.packets[position] :=
    List.getElem?_eq_getElem inFlight
  have hrises := sum_map_eraseIdx Packet.rises hfound
  have heffort := sum_map_eraseIdx (Packet.effort top) hfound
  have hpositive : 0 < network.packets[position].effort top := Nat.succ_pos _
  have hlower : Network.rises { network with packets := network.packets.eraseIdx position } ≤
      network.rises := by
    unfold Network.rises
    dsimp only
    omega
  refine ⟨⟨?_, ?_⟩, ?_⟩
  · intro process hprocess
    have hle := calming.processes process hprocess
    omega
  · intro packet hpacket
    have hle := calming.packets packet (List.mem_of_mem_eraseIdx hpacket)
    omega
  · unfold Network.effort
    dsimp only
    omega

theorem Calming.leave (calming : Calming top network)
    (step : next network (.leave index) = some after) :
    Calming top after ∧ after.effort top < network.effort top := by
  cases stepped_of_next step with
  | leave member running =>
      obtain ⟨hversion, hrises, heffort⟩ := departed_quits running top
      exact calming.quit member hversion hrises heffort

theorem Calming.stop (calming : Calming top network)
    (step : next network (.stop index) = some after) :
    Calming top after ∧ after.effort top < network.effort top := by
  cases stepped_of_next step with
  | @stop _ process member leaving =>
      have hrises : Process.rises { process with phase := .stopped } = process.rises := by
        simp [Process.rises, leaving]
      have heffort : Process.effort top { process with phase := .stopped } <
          process.effort top := by
        simp [Process.effort, leaving, Phase.effort]
      exact calming.quit member (Nat.add_le_add_left hrises.le _) hrises.le heffort

theorem effort_queued (process : Process) (outgoing : Outgoing) :
    let queued := { process with outbox := process.outbox ++ [outgoing] }
    queued.rises ≤ process.rises + 1 ∧
      ∀ top, queued.effort top ≤ process.effort top + (2 * top + 2) := by
  intro queued
  have hlength : queued.outbox.length = process.outbox.length + 1 := by simp [queued]
  have hversion : queued.node = process.node := rfl
  have hphase : queued.phase = process.phase := rfl
  unfold Process.rises Process.effort
  rw [hlength, hversion, hphase]
  constructor
  · split <;> omega
  · intro top
    rw [Nat.add_mul]
    omega

theorem queued_of_selected {process after : Process} {peerIp : Ip} {kind : SendKind}
    (picked : selected process peerIp kind = some after) :
    ∃ outgoing, after = { process with outbox := process.outbox ++ [outgoing] } := by
  unfold selected at picked
  split at picked
  · cases picked
  · split at picked
    · cases picked
      exact ⟨_, rfl⟩
    · cases picked

theorem Calming.depart {peerIp : Ip} (calming : Calming top network)
    (step : next network (.depart index peerIp) = some after) :
    Calming (top + 1) after ∧ ∀ top, after.effort top ≤ network.effort top + (2 * top + 2) := by
  cases stepped_of_next step with
  | @depart _ _ process queued member picked leaving =>
      obtain ⟨outgoing, hqueued⟩ := queued_of_selected picked
      have hversion : queued.node.sync.version = process.node.sync.version := by rw [hqueued]
      obtain ⟨hrises, heffort⟩ := hqueued ▸ effort_queued process outgoing
      have hput := rises_put member queued network.packets network.tickets network.serial
      have hlower : (network.put index queued).rises ≤ network.rises + 1 := by
        unfold Network.put
        omega
      refine ⟨⟨?_, ?_⟩, ?_⟩
      · intro other hother
        rcases List.mem_or_eq_of_mem_set hother with hold | rfl
        · have hle := calming.processes other hold
          omega
        · have hle := calming.processes process (List.mem_of_getElem? member)
          omega
      · intro packet hpacket
        have hle := calming.packets packet hpacket
        omega
      · intro bound
        have hbound := heffort bound
        have hput := effort_put member queued network.packets network.tickets network.serial bound
        unfold Network.put
        omega

def Ebbing (top : Nat) (ebb : Ebb) : Prop :=
  ∃ low, low + ebb.notices.sum ≤ top ∧ Calming low ebb.network

theorem ebbing_kept {low : Nat} {ebb : Ebb} (room : low + ebb.notices.sum ≤ top)
    (falls : ∀ bound, Calming bound ebb.network → Calming bound after ∧
      after.effort bound < ebb.network.effort bound) (calming : Calming low ebb.network) :
    Ebbing top ⟨after, ebb.notices⟩ ∧ Ebb.effort top ⟨after, ebb.notices⟩ < ebb.effort top := by
  have hlow : low ≤ top := by omega
  have heffort := (falls top (calming.mono hlow)).2
  exact ⟨⟨low, room, (falls low calming).1⟩, Nat.add_lt_add_right heffort _⟩

theorem Ebbing.settle {ebb rest : Ebb} {label : Settling} (ebbing : Ebbing top ebb)
    (step : settle ebb label = some rest) : Ebbing top rest ∧ rest.effort top < ebb.effort top := by
  obtain ⟨low, hroom, hcalming⟩ := ebbing
  cases settles_of_settle step with
  | send hstep => exact ebbing_kept hroom (fun _ calming => calming.send hstep) hcalming
  | handle hstep hdropped =>
      exact ebbing_kept hroom (fun _ calming => calming.handle hstep hdropped) hcalming
  | drop hposition hstep =>
      exact ebbing_kept hroom (fun _ calming => calming.drop hposition hstep) hcalming
  | leave hstep => exact ebbing_kept hroom (fun _ calming => calming.leave hstep) hcalming
  | stop hstep => exact ebbing_kept hroom (fun _ calming => calming.stop hstep) hcalming
  | @depart index left peerIp network remaining hstep =>
      obtain ⟨hafter, heffort⟩ := hcalming.depart hstep
      have hsum := sum_map_set id remaining left
      simp only [List.map_id, id_eq] at hsum
      refine ⟨⟨low + 1, by dsimp only; omega, hafter⟩, ?_⟩
      have hbound := heffort top
      have hnotices : ebb.notices.sum = (ebb.notices.set index left).sum + 1 := by omega
      unfold Ebb.effort
      dsimp only
      rw [hnotices, Nat.add_mul]
      omega

theorem ebbing_top (ebb : Ebb) : Ebbing ebb.top ebb := by
  refine ⟨ebb.network.allVersions.max?.getD 0 + ebb.network.rises, Nat.le_refl _, ?_⟩
  have hle (version : Nat) (hversion : version ∈ ebb.network.allVersions) :
      version + ebb.network.rises ≤ ebb.network.allVersions.max?.getD 0 + ebb.network.rises :=
    Nat.add_le_add_right (List.le_max?_getD_of_mem hversion) _
  constructor
  · intro process hprocess
    exact hle _ (List.mem_append_left _ (List.mem_map.mpr ⟨process, hprocess, rfl⟩))
  · intro packet hpacket
    exact hle _ (List.mem_append_right _ (List.mem_map.mpr ⟨packet, hpacket, rfl⟩))

/-- From any network: without another round, admission or publication, only so many sends,
messages and departures with their notices are left, in any order and with any losses and
failures. -/
theorem gossip_dies_out (degree : Nat) (network : Network) (last : Ebb) (labels : List Settling)
    (replayed : replay settle (fun _ _ => true) (network.ebb degree) labels = some last) :
    labels.length ≤ network.traffic degree := by
  have hlength := length_le_of_replay (Ebbing (network.ebb degree).top)
    (Ebb.effort (network.ebb degree).top)
    (fun _ _ _ ebbing _ step => ebbing.settle step) (ebbing_top _) replayed
  exact (Nat.le_add_right _ _).trans hlength

theorem gossip_dies_out_onboarding :
    let network := scenario [.welcome 0 nodeB, .join 0, .heartbeat 1 nodeA.ip]
    network.traffic degree = 98 ∧
      [Settling.send 1 0 (some 0) false, .handle 0, .send 0 0 (some 1) false, .handle 0,
        .leave 1, .depart 1 nodeA.ip, .send 1 0 (some 0) false, .handle 0, .stop 1].length ≤
        network.traffic degree := by
  intro network
  have hreplay : (replay settle (fun _ _ => true) (network.ebb degree)
      [.send 1 0 (some 0) false, .handle 0, .send 0 0 (some 1) false, .handle 0,
        .leave 1, .depart 1 nodeA.ip, .send 1 0 (some 0) false, .handle 0, .stop 1]).isSome :=
    by decide +kernel
  obtain ⟨last, hlast⟩ := Option.isSome_iff_exists.mp hreplay
  exact ⟨by decide +kernel, gossip_dies_out degree network last _ hlast⟩

end WgBp.Gossip
