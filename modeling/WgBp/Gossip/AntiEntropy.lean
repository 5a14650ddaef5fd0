import WgBp.Gossip.Agreement

/-! Anti-entropy: runs in which processes only send what they hold and take over
newer versions. Nothing new is ever held, versions only grow, and one exchange
brings the slower of two processes up to the faster one. -/
namespace WgBp.Gossip

open WgBp.Library WgBp.Library.Procedure WgBp.Library.Transition WgBp.Library.Versioned
open WgBp.Model

/-- Heartbeats, sends of state updates, deliveries of state updates that carry a
version, and losses. -/
def quiet (network : Network) : Label → Bool
  | .heartbeat _ _ => true
  | .send index position _ _ =>
    (network.processes[index]?.bind fun process => process.outbox[position]?).any
      fun outgoing => !isDeparture outgoing.kind
  | .deliver position =>
    network.packets[position]?.any fun packet =>
      packet.msg.type = .stateUpdate && packet.msg.version ≠ 0
  | .drop _ => true
  | _ => false

def deliversTo (network : Network) (index : Nat) : Label → Bool
  | .deliver position => network.packets[position]?.any fun packet => packet.receiver = index
  | _ => false

abbrev Segment (first last : Network) : Prop :=
  Run next (fun network label => quiet network label = true) first last

abbrev Between (left right : Nat) (first last : Network) : Prop :=
  Run next (fun network label => quiet network label = true ∧
    deliversTo network left label = false ∧ deliversTo network right label = false) first last

theorem quiet_copied {network after : Network} {label : Label} (sane : Sane network)
    (ok : quiet network label = true) (step : next network label = some after) :
    after.held ⊆ network.held := by
  cases effect_of_next sane step with
  | copied sub => exact sub
  | started joins _ _ =>
      subst joins
      cases ok
  | wrote _ _ raised _ _ =>
      cases label with
      | deliver position =>
          obtain ⟨packet, hpacket, h⟩ := Option.bind_eq_some_iff.mp raised
          obtain ⟨receiver, _, h⟩ := Option.bind_eq_some_iff.mp h
          simp only [quiet, hpacket, Option.any_some, Bool.and_eq_true,
            decide_eq_true_eq] at ok
          simp [onboards, ok.2] at h
      | welcome | publishOwn | leave => cases ok
      | _ => cases raised
  | stale notice _ _ =>
      cases label with
      | deliver position =>
          obtain ⟨packet, hpacket, h⟩ := Option.bind_eq_some_iff.mp notice
          obtain ⟨receiver, _, h⟩ := Option.bind_eq_some_iff.mp h
          simp only [quiet, hpacket, Option.any_some, Bool.and_eq_true,
            decide_eq_true_eq] at ok
          simp [ok.1] at h
      | _ => cases notice

structure Stays (network : Network) (label : Label) (index : Nat) (before after : Process) :
    Prop where
  phase : after.phase = before.phase
  ip : after.node.state.ip = before.node.state.ip
  version : before.node.sync.version ≤ after.node.sync.version
  idle : deliversTo network index label = false → after.node.sync = before.node.sync

theorem Stays.refl (network : Network) (label : Label) (index : Nat) (process : Process) :
    Stays network label index process process := ⟨rfl, rfl, Nat.le_refl _, fun _ => rfl⟩

private theorem put_process {network : Network} {index target : Nat}
    {process moved changed : Process} (member : network.processes[index]? = some process)
    (source : network.processes[target]? = some moved) {label : Label}
    (stays : Stays network label target moved changed) :
    ∃ after, (network.put target changed).processes[index]? = some after ∧
      Stays network label index process after := by
  have hset : (network.put target changed).processes[index]? =
      if target = index then some changed else some process := by
    unfold Network.put
    rw [List.getElem?_set]
    split
    · simp [(List.getElem?_eq_some_iff.mp source).1]
    · exact member
  rw [hset]
  by_cases htarget : target = index
  · subst htarget
    rw [member] at source
    cases source
    exact ⟨changed, if_pos rfl, stays⟩
  · exact ⟨process, if_neg htarget, .refl _ _ _ _⟩

theorem quiet_process {network after : Network} {label : Label} (sane : Sane network)
    (ok : quiet network label = true) (step : next network label = some after) {index : Nat}
    {process : Process} (member : network.processes[index]? = some process) :
    ∃ changed, after.processes[index]? = some changed ∧
      Stays network label index process changed := by
  have hfine {index : Nat} {process : Process}
      (member : network.processes[index]? = some process) : process.Fine :=
    sane.processes process (List.mem_of_getElem? member)
  have hsent {index position : Nat} {process : Process} {outgoing : Outgoing} {raises : Bool}
      {label : Label} (member : network.processes[index]? = some process)
      (queued : process.outbox[position]? = some outgoing) :
      Stays network label index process { process with
        node := afterSend process.node outgoing raises
        outbox := process.outbox.eraseIdx position } := by
    rw [afterSend_eq (hfine member) (List.mem_of_getElem? queued)]
    exact ⟨rfl, rfl, Nat.le_refl _, fun _ => rfl⟩
  cases stepped_of_next step with
  | heartbeat source picked _ =>
      obtain ⟨_, number, rfl⟩ := selected_spec picked
      exact put_process member source ⟨rfl, rfl, Nat.le_refl _, fun _ => rfl⟩
  | lost source queued _ => exact put_process member source (hsent source queued)
  | sent source queued _ _ _ => exact put_process member source (hsent source queued)
  | deliver inFlight source _ =>
      have hpacket := sane.packets _ (List.mem_of_getElem? inFlight)
      have hcases := handleGossip_cases (hfine source).sound hpacket.keyed
      refine put_process member source ⟨rfl, hcases.ip, hcases.version_le, fun hidle => ?_⟩
      simp [deliversTo, inFlight] at hidle
  | drop => exact ⟨process, member, .refl _ _ _ _⟩
  | welcome | join | publishOwn | leave | depart | stop => cases ok

theorem segment_copied {first last : Network} (sane : Sane first) (run : Segment first last) :
    last.held ⊆ first.held := by
  refine Run.invariant (fun network => network.held ⊆ first.held) (fun _ h => h) ?_ run
  intro network label after hrun hsub hok hnext
  exact (quiet_copied (sane.run hrun) hok hnext).trans hsub

theorem segment_process {first last : Network} (sane : Sane first) (run : Segment first last)
    {index : Nat} {process : Process} (member : first.processes[index]? = some process) :
    ∃ later, last.processes[index]? = some later ∧ later.phase = process.phase ∧
      process.node.sync.version ≤ later.node.sync.version := by
  refine Run.invariant (fun network => ∃ later, network.processes[index]? = some later ∧
    later.phase = process.phase ∧ process.node.sync.version ≤ later.node.sync.version)
    ⟨process, member, rfl, Nat.le_refl _⟩ ?_ run
  rintro network label after hrun ⟨later, hlater, hphase, hversion⟩ hok hnext
  obtain ⟨changed, hchanged, hstays⟩ := quiet_process (sane.run hrun) hok hnext hlater
  exact ⟨changed, hchanged, hstays.phase.trans hphase, Nat.le_trans hversion hstays.version⟩

theorem segment_settled {first last : Network} (sane : Sane first) (run : Segment first last)
    {index : Nat} {process : Process} (member : first.processes[index]? = some process)
    (alive : process.phase ≠ .stopped)
    (highest : ∀ pair ∈ first.held, pair.1 ≤ process.node.sync.version) :
    ∃ later, last.processes[index]? = some later ∧ later.phase = process.phase ∧
      later.node.sync = process.node.sync := by
  refine Run.invariant (fun network => ∃ later, network.processes[index]? = some later ∧
    later.phase = process.phase ∧ later.node.sync = process.node.sync)
    ⟨process, member, rfl, rfl⟩ ?_ run
  rintro network label after hrun ⟨later, hlater, hphase, hsync⟩ hok hnext
  have hsane := sane.run hrun
  obtain ⟨changed, hchanged, hstays⟩ := quiet_process hsane hok hnext hlater
  obtain ⟨moved, hmoved, hevolves⟩ :=
    ((stepped_of_next hnext).processes hsane).process hsane hlater
  rw [hchanged] at hmoved
  cases hmoved
  refine ⟨changed, hchanged, hstays.phase.trans hphase, ?_⟩
  rcases hevolves.progress with hsame | hgrown
  · exact hsame.trans hsync
  · have halive : changed.phase ≠ .stopped := hstays.phase.trans hphase ▸ alive
    have hheld := process_held (List.mem_of_getElem? hchanged) halive
    have hcopied := segment_copied sane (.step hrun hok hnext) hheld
    have hle : changed.node.sync.version ≤ process.node.sync.version := highest _ hcopied
    rw [hsync] at hgrown
    exact absurd hle (Nat.not_le_of_lt hgrown)

theorem Handles.replies {msg : Msg} {node after : GossipNode} {next : Option Handled}
    (h : Handles msg node after next) (positive : msg.version ≠ 0)
    (lower : msg.version < node.sync.version) :
    after = node ∧ next = some (.replying msg.fromIp msg.fromPort false) := by
  cases h with
  | older _ _ => exact ⟨rfl, rfl⟩
  | onboarded zero _ _ _ | raised zero => exact absurd zero positive
  | equal _ same => exact absurd same (Nat.ne_of_lt lower)
  | adopted higher _ | departed higher _ _ => exact absurd higher (Nat.lt_asymm lower)

theorem Handles.adopts {msg : Msg} {node after : GossipNode} {next : Option Handled}
    (h : Handles msg node after next) (update : msg.type = .stateUpdate)
    (higher : node.sync.version < msg.version) : after.sync.pair = msg.pair := by
  cases h with
  | adopted _ _ => rfl
  | onboarded zero _ _ _ | raised zero => omega
  | older _ lower => omega
  | equal _ same => omega
  | departed _ notice _ =>
      rw [update] at notice
      cases notice

/-- While nothing is delivered to the two processes of an exchange, both keep what
they hold, and so does what the replying one sends. -/
structure Pending (serial asker replier : Nat) (asking replying : SyncGossip)
    (network : Network) : Prop where
  asks : ∃ process, network.processes[asker]? = some process ∧ process.node.sync = asking
  replies : ∃ process, network.processes[replier]? = some process ∧
    process.node.sync = replying
  sent : ∀ packet ∈ network.packets, packet.sender = replier → serial ≤ packet.serial →
    packet.msg.pair = replying.pair ∧ (packet.kind = .reply → packet.msg.type = .stateUpdate)

theorem Pending.next {serial asker replier : Nat} {asking replying : SyncGossip}
    {network after : Network} {label : Label}
    (pending : Pending serial asker replier asking replying network) (sane : Sane network)
    (ok : quiet network label = true) (askerIdle : deliversTo network asker label = false)
    (replierIdle : deliversTo network replier label = false)
    (step : Gossip.next network label = some after) :
    Pending serial asker replier asking replying after := by
  have hkept {index : Nat} {sync : SyncGossip}
      (idle : deliversTo network index label = false)
      (before : ∃ process, network.processes[index]? = some process ∧ process.node.sync = sync) :
      ∃ process, after.processes[index]? = some process ∧ process.node.sync = sync := by
    obtain ⟨process, hmember, hsync⟩ := before
    obtain ⟨changed, hchanged, hstays⟩ := quiet_process sane ok step hmember
    exact ⟨changed, hchanged, (hstays.idle idle).trans hsync⟩
  refine ⟨hkept askerIdle pending.asks, hkept replierIdle pending.replies, ?_⟩
  intro packet hmem
  cases stepped_of_next step with
  | sent member _ _ _ _ =>
      rename_i outgoing _ _ _ _
      rcases List.mem_append.mp hmem with hold | hnew
      · exact pending.sent packet hold
      · obtain rfl := List.mem_singleton.mp hnew
        intro hsender _
        obtain ⟨process, hprocess, hsync⟩ := pending.replies
        rw [← hsender] at hprocess
        obtain rfl := Option.some.inj (member.symm.trans hprocess)
        refine ⟨hsync ▸ rfl, fun hkind => ?_⟩
        have houtgoing : outgoing.kind = .reply := hkind
        unfold sentPacket
        rw [houtgoing]
        rfl
  | drop => exact pending.sent packet (List.mem_of_mem_eraseIdx hmem)
  | _ => exact pending.sent packet hmem

structure Asked (before asked : Network) (packet : Packet) (asker replier : Process) : Prop where
  delivery : ∃ position, before.packets[position]? = some packet ∧
    quiet before (.deliver position) = true ∧ next before (.deliver position) = some asked
  sender : before.processes[packet.sender]? = some asker
  receiver : before.processes[packet.receiver]? = some replier
  behind : asker.node.sync.version < replier.node.sync.version

/-- A reply to the packet, sent after its delivery, is delivered; nothing else was
delivered to either side in between. -/
structure Answered (asked answered : Network) (packet : Packet) : Prop where
  delivery : ∃ waiting position reply, Between packet.sender packet.receiver asked waiting ∧
    waiting.packets[position]? = some reply ∧ reply.kind = .reply ∧
    reply.sender = packet.receiver ∧ reply.receiver = packet.sender ∧
    asked.serial ≤ reply.serial ∧ next waiting (.deliver position) = some answered

private theorem next_deliver {network after : Network} {position : Nat} {packet : Packet}
    (inFlight : network.packets[position]? = some packet)
    (step : next network (.deliver position) = some after) :
    ∃ process, network.processes[packet.receiver]? = some process ∧
      after = network.put packet.receiver (delivered process packet.msg) := by
  cases stepped_of_next step with
  | deliver found member _ =>
      obtain rfl := Option.some.inj (inFlight.symm.trans found)
      exact ⟨_, member, rfl⟩

private theorem put_self {network : Network} {index : Nat} {process : Process}
    (member : network.processes[index]? = some process) (changed : Process) :
    (network.put index changed).processes[index]? = some changed :=
  List.getElem?_set_self (List.getElem?_eq_some_iff.mp member).1

theorem Asked.replies {before asked : Network} {packet : Packet} {asker replier : Process}
    (h : Asked before asked packet asker replier) (sane : Sane before) :
    asked.processes[packet.receiver]? = some { replier with
      outbox := replier.outbox ++ [⟨asker.node.state.ip, asker.node.sync.port, .reply⟩] } := by
  obtain ⟨position, hpacket, hquiet, hstep⟩ := h.delivery
  obtain ⟨receiver, hreceiver, rfl⟩ := next_deliver hpacket hstep
  obtain rfl := Option.some.inj (h.receiver.symm.trans hreceiver)
  have hfine := sane.packets _ (List.mem_of_getElem? hpacket)
  obtain ⟨sender, hsender, hsent⟩ := hfine.sender
  obtain rfl := Option.some.inj (h.sender.symm.trans hsender)
  have hpositive : packet.msg.version ≠ 0 := by
    simp only [quiet, hpacket, Option.any_some, Bool.and_eq_true, decide_eq_true_eq] at hquiet
    exact hquiet.2
  have hcases := handleGossip_cases (sane.processes _ (List.mem_of_getElem? hreceiver)).sound
    hfine.keyed
  obtain ⟨hnode, hnext⟩ := hcases.replies hpositive (Nat.lt_of_le_of_lt hsent.version h.behind)
  rw [put_self hreceiver]
  unfold delivered
  dsimp only
  rw [hnode, hnext, replyOf, hsent.ip, hsent.port]

theorem Asked.pending {before asked : Network} {packet : Packet} {asker replier : Process}
    (h : Asked before asked packet asker replier) (sane : Sane before) :
    Pending asked.serial packet.sender packet.receiver asker.node.sync replier.node.sync
      asked := by
  obtain ⟨position, hpacket, hquiet, hstep⟩ := h.delivery
  have hasked := sane.next hstep
  refine ⟨?_, ⟨_, h.replies sane, rfl⟩, fun other hmem _ hserial => ?_⟩
  · have hother : packet.receiver ≠ packet.sender := by
      intro hsame
      have hequal := h.sender.symm.trans (hsame ▸ h.receiver)
      rw [Option.some.inj hequal] at h
      exact absurd h.behind (Nat.lt_irrefl _)
    obtain ⟨changed, hchanged, hstays⟩ := quiet_process sane hquiet hstep h.sender
    refine ⟨changed, hchanged, hstays.idle ?_⟩
    simp [deliversTo, hpacket, hother]
  · have hnumbered := (hasked.packets other hmem).numbered
    exact absurd hserial (Nat.not_le_of_lt hnumbered)

theorem Asked.exchanged {before asked answered : Network} {packet : Packet}
    {asker replier : Process} (h : Asked before asked packet asker replier)
    (sane : Sane before) (answer : Answered asked answered packet) :
    ∃ left right, answered.processes[packet.sender]? = some left ∧
      answered.processes[packet.receiver]? = some right ∧
      left.node.sync.pair = replier.node.sync.pair ∧
      right.node.sync.pair = replier.node.sync.pair := by
  obtain ⟨_, _, _, hfirst⟩ := h.delivery
  have hasked := sane.next hfirst
  obtain ⟨waiting, position, reply, hrun, hpacket, hkind, hsender, hreceiver, hserial, hstep⟩ :=
    answer.delivery
  have hwaiting := hasked.run hrun
  have hpending : Pending asked.serial packet.sender packet.receiver asker.node.sync
      replier.node.sync waiting := by
    refine Run.invariant (Pending asked.serial packet.sender packet.receiver asker.node.sync
      replier.node.sync) (h.pending sane) ?_ hrun
    intro network label after hbefore hpending hok hnext
    exact hpending.next (hasked.run hbefore) hok.1 hok.2.1 hok.2.2 hnext
  obtain ⟨hpair, htype⟩ := hpending.sent reply (List.mem_of_getElem? hpacket) hsender hserial
  obtain ⟨left, hleft, hasking⟩ := hpending.asks
  obtain ⟨right, hright, hreplying⟩ := hpending.replies
  obtain ⟨receiver, hmember, rfl⟩ := next_deliver hpacket hstep
  rw [hreceiver] at hmember ⊢
  obtain rfl := Option.some.inj (hleft.symm.trans hmember)
  have hversion : reply.msg.version = replier.node.sync.version := congrArg Prod.fst hpair
  have hcases := handleGossip_cases (hwaiting.processes _ (List.mem_of_getElem? hleft)).sound
    (hwaiting.packets _ (List.mem_of_getElem? hpacket)).keyed
  have hadopted := hcases.adopts (htype hkind) (by rw [hasking, hversion]; exact h.behind)
  have hother : packet.sender ≠ packet.receiver := by
    intro hsame
    rw [hsame, hright] at hleft
    obtain rfl := Option.some.inj hleft
    have hbehind := h.behind
    rw [← hasking, ← hreplying] at hbehind
    exact absurd hbehind (Nat.lt_irrefl _)
  refine ⟨_, right, put_self hleft _, ?_, hadopted.trans hpair, congrArg _ hreplying⟩
  exact (List.getElem?_set_ne hother).trans hright

structure AntiEntropy (start : Network) : Prop where
  copied : ∀ last, Segment start last → last.held ⊆ start.held
  grows : ∀ mid last, Segment start mid → Segment mid last →
    ∀ (index : Nat) (before after : Process), mid.processes[index]? = some before →
    last.processes[index]? = some after → before.node.sync.version ≤ after.node.sync.version
  settled : ∀ last, Segment start last → ∀ (index : Nat) (process after : Process),
    start.processes[index]? = some process → process.phase ≠ .stopped →
    (∀ pair ∈ start.held, pair.1 ≤ process.node.sync.version) →
    last.processes[index]? = some after → after.node.sync.pair = process.node.sync.pair
  replies : ∀ (before asked : Network) (packet : Packet) (asker replier : Process),
    Segment start before → Asked before asked packet asker replier →
    asked.processes[packet.receiver]? = some { replier with
      outbox := replier.outbox ++ [⟨asker.node.state.ip, asker.node.sync.port, .reply⟩] }
  exchanged : ∀ (before asked answered : Network) (packet : Packet) (asker replier : Process),
    Segment start before → Asked before asked packet asker replier →
    Answered asked answered packet →
    ∃ left right, answered.processes[packet.sender]? = some left ∧
      answered.processes[packet.receiver]? = some right ∧
      left.node.sync.pair = replier.node.sync.pair ∧
      right.node.sync.pair = replier.node.sync.pair

theorem gossip_anti_entropy (start : Network) (sane : Sane start) : AntiEntropy start where
  copied := fun _ run => segment_copied sane run
  grows := by
    intro mid last hmid hlast index before after hbefore hafter
    obtain ⟨later, hlater, _, hversion⟩ := segment_process (sane.run hmid) hlast hbefore
    rw [hafter] at hlater
    cases hlater
    exact hversion
  settled := by
    intro last hlast index process after hmember halive hhighest hafter
    obtain ⟨later, hlater, _, hsync⟩ := segment_settled sane hlast hmember halive hhighest
    rw [hafter] at hlater
    cases hlater
    exact congrArg _ hsync
  replies := fun _ _ _ _ _ hrun hasked => hasked.replies (sane.run hrun)
  exchanged := fun _ _ _ _ _ _ hrun hasked hanswered =>
    hasked.exchanged (sane.run hrun) hanswered

def asking : List Label :=
  onboarding ++ [.welcome 0 nodeC] ++ [.heartbeat 1 nodeA.ip, .send 1 0 (some 0) false]

def answering : List Label := asking ++ [.deliver 2, .send 0 0 (some 1) false]

theorem gossip_anti_entropy_asking :
    ∃ left right, (scenario (answering ++ [.deliver 3])).processes[1]? = some left ∧
      (scenario (answering ++ [.deliver 3])).processes[0]? = some right ∧
      left.node.sync.version = 3 ∧ left.node.sync.pair = right.node.sync.pair := by
  have hstart : replay next (fun _ _ => true) (Network.create nodeA) asking =
      some (scenario asking) := by decide +kernel
  have hrun : Run next always (Network.create nodeA) (scenario asking) :=
    run_of_replay (fun _ _ _ => trivial) hstart
  have hentropy := gossip_anti_entropy (scenario asking) ((Sane.create nodeA).run hrun)
  let packet := (scenario asking).packets.get ⟨2, by decide +kernel⟩
  let asker := (scenario asking).processes.get ⟨1, by decide +kernel⟩
  let replier := (scenario asking).processes.get ⟨0, by decide +kernel⟩
  have hasked : Asked (scenario asking) (scenario (asking ++ [.deliver 2])) packet asker
      replier :=
    ⟨⟨2, by decide +kernel, by decide +kernel, by decide +kernel⟩, by decide +kernel,
      by decide +kernel, by decide +kernel⟩
  have hbetween : replay next (fun network label => quiet network label &&
      (!deliversTo network 1 label && !deliversTo network 0 label))
      (scenario (asking ++ [.deliver 2])) [.send 0 0 (some 1) false] =
      some (scenario answering) := by decide +kernel
  have hquiet : Between 1 0 (scenario (asking ++ [.deliver 2])) (scenario answering) :=
    run_of_replay (fun _ _ h => by simpa using h) hbetween
  have hanswered : Answered (scenario (asking ++ [.deliver 2]))
      (scenario (answering ++ [.deliver 3])) packet :=
    ⟨scenario answering, 3, (scenario answering).packets.get ⟨3, by decide +kernel⟩, hquiet,
      by decide +kernel, by decide +kernel, by decide +kernel, by decide +kernel,
      by decide +kernel, by decide +kernel⟩
  obtain ⟨left, right, hleft, hright, hleftPair, hrightPair⟩ :=
    hentropy.exchanged _ _ _ packet asker replier (.refl _) hasked hanswered
  refine ⟨left, right, hleft, hright, ?_, hleftPair.trans hrightPair.symm⟩
  have hversion : replier.node.sync.version = 3 := by decide +kernel
  rw [← hversion]
  exact congrArg Prod.fst hleftPair

end WgBp.Gossip
