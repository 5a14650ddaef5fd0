import WgBp.Mq.Sharing

/-! From a state every node holds, one publication leads to the next such state, and a
departure leads to it as well, whatever the order in which the messages are handled. -/
namespace WgBp.Mq

open WgBp.Library WgBp.Library.Procedure WgBp.Library.Mailbox WgBp.Library.Transition WgBp.Model
open WgBp.Gossip (Config Ticket OwnEdit)

variable {swarm : Swarm} {process acting : Process} {index : Nat}
variable {top : Nat} {prev last : PeerMap}

/-- Every node holds the latest state and nothing is under way. -/
structure Rest (top : Nat) (last : PeerMap) (swarm : Swarm) : Prop where
  members : ∀ process ∈ swarm.processes, process.phase = .running →
    Placed last process ∧ Holds top last process ∧ process.inbox = []
  stays : ∀ process ∈ swarm.processes, process.phase ≠ .leaving
  seeded : ∀ process ∈ swarm.processes, process.seeded = true → 0 < top
  distinct : swarm.Distinct
  keyed : Keyed last
  ported : Ported last
  listed : ∀ ip, ip ∈ last ↔ swarm.Runs ip
  joined : swarm.tickets.length + 1 = swarm.processes.length

theorem Sharing.rest (sharing : Sharing top prev last swarm) (idle : Idle swarm) :
    Rest top last swarm := by
  have hunused : swarm.unused = [] :=
    List.drop_eq_nil_of_le (by have hjoined := idle.joined; omega)
  refine ⟨fun process hmem hrunning => ?_, sharing.stays, sharing.seeded, sharing.distinct,
    sharing.keyed, sharing.ported, fun ip => ?_, idle.joined⟩
  · have hup : process.phase ≠ .stopped := fun h => by rw [hrunning] at h; cases h
    obtain ⟨hserves, hinbox⟩ := idle.served process hmem hup
    have hshares := sharing.members process hmem hrunning
    refine ⟨hshares.placed, ?_, hinbox⟩
    rcases hshares.stage with holds | lags
    · exact holds
    · rcases lags.waits with ⟨-, hpending, -⟩ | ⟨hwaits, -⟩
      · exact absurd hinbox hpending
      · rw [hserves] at hwaits
        cases hwaits
  · rw [sharing.listed ip, hunused]
    simp

theorem Rest.connected (rest : Rest top last swarm)
    (member : swarm.processes[index]? = some process) (running : process.phase = .running)
    {other : Nat} {listener : Process} (hears : swarm.processes[other]? = some listener)
    (up : listener.phase = .running) (different : other ≠ index) :
    address process.node ∈ listener.node.sync.sub := by
  obtain ⟨hplaced, -, -⟩ := rest.members process (List.mem_of_getElem? member) running
  obtain ⟨hlistener, holds, -⟩ := rest.members listener (List.mem_of_getElem? hears) up
  refine (hlistener.attends.dials.links _).mpr ⟨fun hip => ?_, ?_⟩
  · exact different (rest.distinct other index listener process hears member up running hip.symm)
  · rw [holds.peers]
    exact hplaced.described.port

theorem Rest.raise (rest : Rest top last swarm) (member : swarm.processes[index]? = some process)
    (running : process.phase = .running) {node : MqNode} {later : PeerMap} {tickets : List Ticket}
    (announces : Announces process.node later node) (own : Describes later node)
    (others : ∀ ip ∈ last, ip ≠ process.node.state.ip → later.lookup ip = last.lookup ip)
    (listed : ∀ ip, ip ∈ later ↔ swarm.Runs ip ∨
      ∃ ticket ∈ tickets.drop (swarm.processes.length - 1), ticket.config.ip = ip)
    (awaited : ∀ ticket ∈ tickets.drop (swarm.processes.length - 1),
      Awaited (top + 1) last later ticket ∧ ¬swarm.Runs ticket.config.ip)
    (started : tickets.length ≤ swarm.processes.length ∧
      swarm.processes.length ≤ tickets.length + 1) :
    Sharing (top + 1) last later { swarm.act index { process with node } with tickets } := by
  let acting : Process := { process with node }
  have hmem := List.mem_of_getElem? member
  obtain ⟨hplaced, holds, hinbox⟩ := rest.members process hmem running
  have hturns := announces.turns
  have hip : acting.node.state.ip = process.node.state.ip := hturns.ip
  have hphase : acting.phase = process.phase := rfl
  have hruns (ip : Ip) : (swarm.act index acting).Runs ip ↔ swarm.Runs ip :=
    swarm.runs_act member hphase hip ip
  have hlength : (swarm.act index acting).processes.length = swarm.processes.length :=
    act_length _ _ _
  have hwithin : Within last later := by
    intro address record hrecord
    by_cases hown : address = process.node.state.ip
    · obtain ⟨next, hnext, hport⟩ := own.port
      obtain ⟨known, hknown, hknownPort⟩ := hplaced.described.port
      rw [hown, hknown] at hrecord
      cases hrecord
      have hnextIp : node.state.ip = process.node.state.ip := hip
      have hnextPort : node.sync.port = process.node.sync.port := hturns.port
      rw [hnextIp] at hnext
      rw [hnextPort] at hport
      exact ⟨next, hown ▸ hnext, hport.trans hknownPort.symm⟩
    · exact ⟨record, (others _ (Dict.mem_of_lookup hrecord) hown).trans hrecord, rfl⟩
  refine ⟨fun moved hmoved hrunning => ?_, fun moved hmoved => ?_, fun moved hmoved hseeded => ?_,
    rest.distinct.act member running hip, hturns.peers ▸ hturns.attends.sound.keyed,
    hturns.peers ▸ hturns.attends.sound.ported, fun ip => ?_, ?_, ?_⟩
  · obtain ⟨other, hother⟩ := List.mem_iff_getElem?.mp hmoved
    obtain ⟨earlier, hearlier, ⟨rfl, rfl⟩ | ⟨hdifferent, rfl⟩⟩ := act_member hother
    · refine ⟨⟨hturns.attends, hplaced.listening, own.congr rfl rfl⟩,
        .inl ⟨?_, hturns.peers, ?_⟩, ?_⟩
      · exact hturns.version.trans (congrArg (· + 1) holds.version)
      · have hserves := holds.serves
        have hready : (flush node).sync.ready = process.node.sync.ready := announces.ready
        simp only [Process.serves, decide_eq_true_eq] at hserves ⊢
        rw [hready]
        exact hserves
      · intro entry hentry
        rw [hinbox] at hentry
        cases hentry
    · rw [Process.hear_phase] at hrunning
      obtain ⟨hlistener, hold, hempty⟩ :=
        rest.members earlier (List.mem_of_getElem? hearlier) hrunning
      have haddress : address node = address process.node := hturns.address
      have hconnected : address node ∈ earlier.node.sync.sub :=
        haddress ▸ rest.connected member running hearlier hrunning hdifferent
      have hup : earlier.phase ≠ .stopped := fun h => by rw [hrunning] at h; cases h
      have hforeign : earlier.node.state.ip ≠ process.node.state.ip := fun h =>
        hdifferent (rest.distinct other index earlier process hearlier member hrunning running h)
      have hother : address process.node ≠ address earlier.node := fun h =>
        hforeign (congrArg Address.ip h.symm)
      obtain ⟨record, hrecord, -⟩ := hlistener.described
      have hdescribed : Describes later earlier.node :=
        hlistener.described.view (others _ (Dict.mem_of_lookup hrecord) hforeign)
      rw [Process.hear, if_pos ⟨hup, hconnected⟩, hempty, announces.published, holds.version]
      refine ⟨⟨hlistener.attends, hlistener.listening, hdescribed⟩,
        .inr ⟨hold.version ▸ Nat.lt_succ_self _, fun ip hip _ => hold.peers ▸ hip,
          hold.peers ▸ hwithin, .inl ⟨hold.serves, by simp, fun hseeded => ?_⟩⟩, ?_⟩
      · exact hold.version ▸ rest.seeded earlier (List.mem_of_getElem? hearlier) hseeded
      · intro entry hentry
        obtain rfl : entry = (index, update (address process.node) (top + 1) later) := by
          simpa using hentry
        exact ⟨hother, .inl rfl⟩
  · obtain ⟨other, hother⟩ := List.mem_iff_getElem?.mp hmoved
    obtain ⟨earlier, hearlier, ⟨rfl, rfl⟩ | ⟨-, rfl⟩⟩ := act_member hother
    · exact rest.stays process hmem
    · rw [Process.hear_phase]
      exact rest.stays earlier (List.mem_of_getElem? hearlier)
  · exact Nat.succ_pos top
  · have hunused : Swarm.unused { swarm.act index acting with tickets } =
        tickets.drop (swarm.processes.length - 1) := by rw [Swarm.unused, hlength]
    have hsame : Swarm.Runs { swarm.act index acting with tickets } ip ↔ swarm.Runs ip := hruns ip
    rw [hunused, hsame]
    exact listed ip
  · have hunused : Swarm.unused { swarm.act index acting with tickets } =
        tickets.drop (swarm.processes.length - 1) := by rw [Swarm.unused, hlength]
    rw [hunused]
    intro ticket hticket
    have hsame : Swarm.Runs { swarm.act index acting with tickets } ticket.config.ip ↔
        swarm.Runs ticket.config.ip := hruns _
    rw [hsame]
    exact awaited ticket hticket
  · exact hlength ▸ started

theorem Rest.welcome (rest : Rest top last swarm)
    (member : swarm.processes[index]? = some process) (running : process.phase = .running)
    {joiner : Config} {seed : PeerRecord}
    (own : process.node.sync.peers.lookup process.node.state.ip = some seed)
    (new : joiner.ip ∉ process.node.state.peers) (foreign : joiner.ip ≠ process.node.state.ip)
    (port : joiner.syncPort ≠ 0) :
    ∃ later, Sharing (top + 1) last later
      { swarm.act index { process with node := admitted process.node joiner } with
        tickets := swarm.tickets ++ [⟨joiner, interfaceOf process.node, seed⟩] } := by
  obtain ⟨hplaced, holds, -⟩ := rest.members process (List.mem_of_getElem? member) running
  obtain ⟨record, -, hport, hroutes, hannounces⟩ := hplaced.attends.admits new foreign port
  have hpeers := holds.peers
  rw [hpeers] at hannounces own
  have hstranger : joiner.ip ∉ last := fun hlisted =>
    new ((hplaced.attends.tracks _).mpr ⟨hpeers ▸ hlisted, foreign⟩)
  have hcount := rest.joined
  let issued : Ticket := ⟨joiner, interfaceOf process.node, seed⟩
  have hunused : (swarm.tickets ++ [issued]).drop (swarm.processes.length - 1) = [issued] :=
    List.drop_left' (by omega)
  have hlisted : process.node.state.ip ∈ last := Dict.mem_of_lookup own
  have hkept (ip : Ip) (known : ip ∈ last) : (last.set joiner.ip record).lookup ip =
      last.lookup ip :=
    Dict.lookup_set_ne _ _ fun h => hstranger (h ▸ known)
  have hown : Describes (last.set joiner.ip record) (admitted process.node joiner) :=
    (hplaced.described.view (hkept _ hlisted)).congr hannounces.turns.address
      (joiner.addedTo_same _).allowedIps
  have hnew : Describes (last.set joiner.ip record) (created joiner).node :=
    ⟨record, Dict.lookup_set_self _ _ _, hport, hroutes⟩
  refine ⟨last.set joiner.ip record,
    rest.raise member running hannounces hown (fun ip known _ => hkept ip known) ?_ ?_ ?_⟩
  · intro ip
    rw [hunused, Dict.mem_set, rest.listed, or_comm]
    simp [issued, eq_comm]
  · rw [hunused]
    intro ticket hticket
    rw [List.mem_singleton.mp hticket]
    refine ⟨⟨⟨rest.keyed _ _ own, foreign.symm⟩, hnew,
      ⟨seed, (Dict.lookup_set_ne _ _ foreign.symm).trans own, rfl⟩, hlisted, hstranger,
      Nat.succ_pos top⟩, fun hruns => hstranger ((rest.listed _).mpr hruns)⟩
  · simp only [List.length_append, List.length_singleton]
    omega

theorem Rest.publish (rest : Rest top last swarm)
    (member : swarm.processes[index]? = some process) (running : process.phase = .running)
    {edit : OwnEdit} {state : State} (edited : edit.apply process.node.state = some state) :
    ∃ later, Sharing (top + 1) last later (swarm.act index
      { process with node := publishChange { process.node with state } state.ownChange }) := by
  obtain ⟨hplaced, holds, -⟩ := rest.members process (List.mem_of_getElem? member) running
  obtain ⟨record, -, hport, hroutes, hannounces⟩ := hplaced.attends.edits edited
  obtain ⟨allowedIps, rfl⟩ := edit.apply_spec edited
  rw [holds.peers] at hannounces
  have hcount := rest.joined
  have hunused : swarm.tickets.drop (swarm.processes.length - 1) = [] :=
    List.drop_eq_nil_of_le (by omega)
  have hown : Describes (last.set process.node.state.ip record) (publishChange
      { process.node with state := { process.node.state with allowedIps } }
        { process.node.state with allowedIps }.ownChange) :=
    ⟨record, Dict.lookup_set_self _ _ _, hport, hroutes⟩
  refine ⟨_, rest.raise member running hannounces hown
    (fun ip _ hother => Dict.lookup_set_ne _ _ hother) (fun ip => ?_) ?_ ?_⟩
  · rw [hunused, Dict.mem_set, rest.listed]
    constructor
    · rintro (rfl | hruns)
      · exact .inl ⟨process, List.mem_of_getElem? member, running, rfl⟩
      · exact .inl hruns
    · rintro (hruns | ⟨ticket, hticket, -⟩)
      · exact .inr hruns
      · cases hticket
  · rw [hunused]
    intro ticket hticket
    cases hticket
  · omega

inductive Hears (top : Nat) (last : PeerMap) (leaver : Address) (process : Process) : Prop where
  | waits {sender : Nat} (holds : Holds top last process)
      (connected : leaver ∈ process.node.sync.sub)
      (pending : process.inbox = [(sender, notice leaver)])
  | done (holds : Holds (top + 1) (last.erase leaver.ip) process) (empty : process.inbox = [])

structure Retiring (top : Nat) (last : PeerMap) (leaver : Address) (swarm : Swarm) : Prop where
  members : ∀ process ∈ swarm.processes, process.phase = .running →
    Placed (last.erase leaver.ip) process ∧ Hears top last leaver process
  silent : ∀ process ∈ swarm.processes, process.phase = .leaving → process.inbox = []
  seeded : ∀ process ∈ swarm.processes, process.seeded = true → 0 < top
  distinct : swarm.Distinct
  keyed : Keyed last
  ported : Ported last
  listed : ∀ ip, ip ∈ last.erase leaver.ip ↔ swarm.Runs ip
  joined : swarm.tickets.length + 1 = swarm.processes.length

theorem Retiring.rest {leaver : Address} (retiring : Retiring top last leaver swarm)
    (idle : Idle swarm) : Rest (top + 1) (last.erase leaver.ip) swarm := by
  refine ⟨fun process hmem hrunning => ?_, fun process hmem hleaving => ?_,
    fun _ _ _ => Nat.succ_pos top, retiring.distinct, retiring.keyed.erase _,
    retiring.ported.erase _, retiring.listed, retiring.joined⟩
  · have hup : process.phase ≠ .stopped := fun h => by rw [hrunning] at h; cases h
    obtain ⟨-, hinbox⟩ := idle.served process hmem hup
    obtain ⟨hplaced, hhears⟩ := retiring.members process hmem hrunning
    cases hhears with
    | waits holds connected pending =>
        rw [hinbox] at pending
        cases pending
    | done holds empty => exact ⟨hplaced, holds, empty⟩
  · have hup : process.phase ≠ .stopped := fun h => by rw [hleaving] at h; cases h
    obtain ⟨hserves, -⟩ := idle.served process hmem hup
    simp [Process.serves, hleaving] at hserves

theorem Rest.depart (rest : Rest top last swarm) (member : swarm.processes[index]? = some process)
    (running : process.phase = .running) :
    Retiring top last (address process.node) (swarm.act index
      { process with node := publishLastMessage process.node, phase := .leaving }) := by
  let acting : Process :=
    { process with node := publishLastMessage process.node, phase := .leaving }
  have hmem := List.mem_of_getElem? member
  obtain ⟨hplaced, holds, hinbox⟩ := rest.members process hmem running
  have hpub : acting.node.sync.pub = [notice (address process.node)] := by
    simp [acting, publishLastMessage, handOver, hplaced.attends.sound.flushed, notice, address]
  have hip : acting.node.state.ip = process.node.state.ip := rfl
  have hruns (ip : Ip) :
      (swarm.act index acting).Runs ip ↔ swarm.Runs ip ∧ ip ≠ process.node.state.ip := by
    constructor
    · rintro ⟨later, hlater, hrunning, rfl⟩
      obtain ⟨other, hother⟩ := List.mem_iff_getElem?.mp hlater
      obtain ⟨earlier, hearlier, ⟨rfl, rfl⟩ | ⟨hdifferent, rfl⟩⟩ := act_member hother
      · cases hrunning
      · rw [Process.hear_phase] at hrunning
        rw [Process.hear_node]
        exact ⟨⟨earlier, List.mem_of_getElem? hearlier, hrunning, rfl⟩, fun h =>
          hdifferent (rest.distinct other index earlier process hearlier member hrunning running h)⟩
    · rintro ⟨⟨earlier, hearlier, hrunning, rfl⟩, hdifferent⟩
      obtain ⟨other, hother⟩ := List.mem_iff_getElem?.mp hearlier
      have hne : other ≠ index := by
        rintro rfl
        rw [member] at hother
        cases hother
        exact hdifferent rfl
      refine ⟨_, List.mem_of_getElem? (swarm.act_other hother hne acting), ?_, ?_⟩
      · rw [Process.hear_phase]
        exact hrunning
      · rw [Process.hear_node]
  refine ⟨fun later hlater hrunning => ?_, fun later hlater hleaving => ?_,
    fun later hlater hseeded => ?_, rest.distinct.act member running hip, rest.keyed, rest.ported,
    fun ip => ?_, (act_length swarm index acting).symm ▸ rest.joined⟩
  · obtain ⟨other, hother⟩ := List.mem_iff_getElem?.mp hlater
    obtain ⟨earlier, hearlier, ⟨rfl, rfl⟩ | ⟨hdifferent, rfl⟩⟩ := act_member hother
    · cases hrunning
    · rw [Process.hear_phase] at hrunning
      obtain ⟨hlistener, hold, hempty⟩ :=
        rest.members earlier (List.mem_of_getElem? hearlier) hrunning
      have hconnected := rest.connected member running hearlier hrunning hdifferent
      have hup : earlier.phase ≠ .stopped := fun h => by rw [hrunning] at h; cases h
      have hother : earlier.node.state.ip ≠ process.node.state.ip := fun h =>
        hdifferent (rest.distinct other index earlier process hearlier member hrunning running h)
      have hlisted : (last.erase process.node.state.ip).lookup earlier.node.state.ip =
          last.lookup earlier.node.state.ip := by
        rw [Dict.lookup_erase, if_neg hother]
      have hpending : [] ++ acting.node.sync.pub.map (fun msg => (index, msg)) =
          [(index, notice (address process.node))] := by rw [hpub]; rfl
      rw [Process.hear, if_pos ⟨hup, hconnected⟩, hempty]
      exact ⟨⟨hlistener.attends, hlistener.listening, hlistener.described.view hlisted⟩,
        .waits ⟨hold.version, hold.peers, hold.serves⟩ hconnected hpending⟩
  · obtain ⟨other, hother⟩ := List.mem_iff_getElem?.mp hlater
    obtain ⟨earlier, hearlier, ⟨rfl, rfl⟩ | ⟨-, rfl⟩⟩ := act_member hother
    · exact hinbox
    · rw [Process.hear_phase] at hleaving
      exact absurd hleaving (rest.stays earlier (List.mem_of_getElem? hearlier))
  · obtain ⟨other, hother⟩ := List.mem_iff_getElem?.mp hlater
    obtain ⟨earlier, hearlier, ⟨rfl, rfl⟩ | ⟨-, rfl⟩⟩ := act_member hother
    · exact rest.seeded process hmem hseeded
    · rw [Process.hear_seeded] at hseeded
      exact rest.seeded earlier (List.mem_of_getElem? hearlier) hseeded
  · rw [hruns, AList.mem_erase, rest.listed, and_comm]
    rfl

theorem Process.hear_silent (existing : Process) (publisher : Nat) {source : MqNode}
    (silent : source.sync.pub = []) : existing.hear publisher source = existing := by
  unfold Process.hear
  rw [silent, List.map_nil, List.append_nil]
  split <;> rfl

theorem Retiring.deliver {leaver : Address} (retiring : Retiring top last leaver swarm)
    (member : swarm.processes[index]? = some process) (up : process.phase ≠ .stopped)
    {sender : Nat} {msg : Msg} {rest : List (Nat × Msg)}
    (taken : take process.inbox sender = some (msg, rest)) :
    Retiring top last leaver (swarm.act index (process.receive msg rest)) := by
  have hmem := List.mem_of_getElem? member
  have hentry : (sender, msg) ∈ process.inbox := (mem_of_take taken _).mpr (.inl rfl)
  have hrunning : process.phase = .running := by
    cases hphase : process.phase with
    | running => rfl
    | leaving =>
        rw [retiring.silent process hmem hphase] at hentry
        cases hentry
    | stopped => exact absurd hphase up
  obtain ⟨hplaced, hhears⟩ := retiring.members process hmem hrunning
  cases hhears with
  | done holds empty =>
      rw [empty] at hentry
      cases hentry
  | waits holds connected pending =>
      rename_i publisher
      have hpair : msg = notice leaver ∧ rest = [] := by
        rw [pending, List.mem_singleton, Prod.mk.injEq] at hentry
        obtain ⟨rfl, rfl⟩ := hentry
        simpa [take, pending, eq_comm] using taken
      obtain ⟨rfl, rfl⟩ := hpair
      obtain ⟨after, hrun, hturns, hready, hroutes⟩ := hplaced.attends.parts connected
      have hreceive : process.receive (notice leaver) [] =
          { process with node := after, inbox := [], listening := true } := by
        rw [Process.receive, hrun]
        rfl
      rw [hreceive]
      let acting : Process := { process with node := after, inbox := [], listening := true }
      have hip : acting.node.state.ip = process.node.state.ip := hturns.ip
      have hphase : acting.phase = process.phase := rfl
      have hsilent : after.sync.pub = [] := hturns.attends.sound.flushed
      refine ⟨fun later hlater hlaterRunning => ?_, fun later hlater hleaving => ?_,
        fun later hlater hseeded => ?_, retiring.distinct.act member hrunning hip, retiring.keyed,
        retiring.ported, fun ip => (retiring.listed ip).trans
          (swarm.runs_act member hphase hip ip).symm,
        (act_length swarm index acting).symm ▸ retiring.joined⟩
      · obtain ⟨other, hother⟩ := List.mem_iff_getElem?.mp hlater
        obtain ⟨earlier, hearlier, ⟨rfl, rfl⟩ | ⟨-, rfl⟩⟩ := act_member hother
        · have hserves := holds.serves
          simp only [Process.serves, decide_eq_true_eq, ← hready] at hserves
          rw [flush_self hturns.attends.sound]
          refine ⟨⟨hturns.attends, rfl, hplaced.described.congr hturns.address hroutes⟩,
            .done ⟨?_, ?_, decide_eq_true hserves⟩ rfl⟩
          · exact hturns.version.trans (congrArg (· + 1) holds.version)
          · exact hturns.peers.trans (congrArg (AList.erase leaver.ip) holds.peers)
        · rw [Process.hear_silent _ _ hsilent] at hlaterRunning ⊢
          exact retiring.members earlier (List.mem_of_getElem? hearlier) hlaterRunning
      · obtain ⟨other, hother⟩ := List.mem_iff_getElem?.mp hlater
        obtain ⟨earlier, hearlier, ⟨rfl, rfl⟩ | ⟨-, rfl⟩⟩ := act_member hother
        · rfl
        · rw [Process.hear_silent _ _ hsilent] at hleaving ⊢
          exact retiring.silent earlier (List.mem_of_getElem? hearlier) hleaving
      · obtain ⟨other, hother⟩ := List.mem_iff_getElem?.mp hlater
        obtain ⟨earlier, hearlier, ⟨rfl, rfl⟩ | ⟨-, rfl⟩⟩ := act_member hother
        · exact retiring.seeded process hmem hseeded
        · rw [Process.hear_silent _ _ hsilent] at hseeded
          exact retiring.seeded earlier (List.mem_of_getElem? hearlier) hseeded

theorem Retiring.stops {leaver : Address} (retiring : Retiring top last leaver swarm)
    (member : swarm.processes[index]? = some process) (leaving : process.phase = .leaving) :
    Retiring top last leaver
      { swarm with processes := swarm.processes.set index { process with phase := .stopped } } := by
  have hindex : index < swarm.processes.length := (List.getElem?_eq_some_iff.mp member).1
  have horigin {other : Nat} {later : Process}
      (hlater : (swarm.processes.set index { process with phase := .stopped })[other]? = some later)
      (hup : later.phase ≠ .stopped) : swarm.processes[other]? = some later := by
    by_cases hsame : index = other
    · subst hsame
      rw [List.getElem?_set_self hindex] at hlater
      cases hlater
      exact absurd rfl hup
    · rwa [List.getElem?_set_ne hsame] at hlater
  have hmem {later : Process} (hup : later.phase ≠ .stopped)
      (hlater : later ∈ swarm.processes.set index { process with phase := .stopped }) :
      later ∈ swarm.processes := by
    obtain ⟨other, hother⟩ := List.mem_iff_getElem?.mp hlater
    exact List.mem_of_getElem? (horigin hother hup)
  have hrun {later : Process} (hrunning : later.phase = .running) : later.phase ≠ .stopped :=
    fun h => by rw [hrunning] at h; cases h
  refine ⟨fun later hlater hrunning =>
      retiring.members later (hmem (hrun hrunning) hlater) hrunning,
    fun later hlater hleaving => ?_, fun later hlater hseeded => ?_, ?_, retiring.keyed,
    retiring.ported, fun ip => (retiring.listed ip).trans ⟨?_, ?_⟩, ?_⟩
  · exact retiring.silent later (hmem (fun h => by rw [hleaving] at h; cases h) hlater) hleaving
  · rcases List.mem_or_eq_of_mem_set hlater with hold | rfl
    · exact retiring.seeded later hold hseeded
    · exact retiring.seeded process (List.mem_of_getElem? member) hseeded
  · intro first second later later' hfirst hsecond hrunning hrunning' hip
    exact retiring.distinct first second later later' (horigin hfirst (hrun hrunning))
      (horigin hsecond (hrun hrunning')) hrunning hrunning' hip
  · rintro ⟨earlier, hearlier, hrunning, hip⟩
    obtain ⟨other, hother⟩ := List.mem_iff_getElem?.mp hearlier
    have hne : index ≠ other := by
      rintro rfl
      rw [member] at hother
      cases hother
      rw [hrunning] at leaving
      cases leaving
    exact ⟨earlier, List.mem_of_getElem? ((List.getElem?_set_ne hne).trans hother), hrunning, hip⟩
  · rintro ⟨later, hlater, hrunning, hip⟩
    exact ⟨later, hmem (hrun hrunning) hlater, hrunning, hip⟩
  · exact List.length_set.symm ▸ retiring.joined

inductive Growing (swarm : Swarm) : Prop where
  | sharing {top : Nat} {prev last : PeerMap} (sharing : Sharing top prev last swarm)
  | retiring {top : Nat} {last : PeerMap} {leaver : Address}
      (retiring : Retiring top last leaver swarm)

theorem Growing.rest (growing : Growing swarm) (idle : Idle swarm) :
    ∃ top last, Rest top last swarm := by
  cases growing with
  | sharing sharing => exact ⟨_, _, sharing.rest idle⟩
  | retiring retiring => exact ⟨_, _, retiring.rest idle⟩

theorem Process.serves_running (serves : process.serves = true) : process.phase = .running := by
  simp only [Process.serves, decide_eq_true_eq] at serves
  exact serves.1

theorem Growing.next (growing : Growing swarm) {label : SwarmLabel} {after : Swarm}
    (patient : swarm.Patient label) (step : swarm.next label = some after) : Growing after := by
  cases label with
  | welcome index joiner =>
      obtain ⟨process, hprocess, step⟩ := Option.bind_eq_some_iff.mp step
      obtain ⟨seed, hseed, step⟩ := Option.bind_eq_some_iff.mp step
      obtain ⟨top, last, hrest⟩ := growing.rest patient.1
      split at step
      · rename_i hguard
        cases step
        obtain ⟨later, hsharing⟩ := hrest.welcome hprocess (Process.serves_running hguard.1) hseed
          hguard.2.1 hguard.2.2 patient.2
        exact .sharing hsharing
      · cases step
  | join index =>
      obtain ⟨ticket, hticket, step⟩ := Option.bind_eq_some_iff.mp step
      split at step
      · rename_i number hport
        cases step
        cases growing with
        | sharing sharing => exact .sharing (sharing.starts hticket patient hport)
        | retiring retiring =>
            have hindex : index < swarm.tickets.length := (List.getElem?_eq_some_iff.mp hticket).1
            have hnext : index + 1 = swarm.processes.length := patient
            have hjoined := retiring.joined
            omega
      · cases step
  | onboard index =>
      obtain ⟨process, hprocess, step⟩ := Option.bind_eq_some_iff.mp step
      split at step
      · rename_i hguard
        obtain ⟨hrunning, hseeded, hversion⟩ := hguard
        cases step
        cases growing with
        | sharing sharing => exact .sharing (sharing.asks hprocess hrunning hseeded hversion)
        | retiring retiring =>
            have hmem := List.mem_of_getElem? hprocess
            have hpublished := retiring.seeded process hmem hseeded
            obtain ⟨-, hhears⟩ := retiring.members process hmem hrunning
            cases hhears with
            | waits holds connected pending =>
                have hholds := holds.version
                omega
            | done holds empty =>
                have hholds := holds.version
                omega
      · cases step
  | publishOwn index edit =>
      obtain ⟨process, hprocess, step⟩ := Option.bind_eq_some_iff.mp step
      obtain ⟨state, hstate, step⟩ := Option.bind_eq_some_iff.mp step
      obtain ⟨top, last, hrest⟩ := growing.rest patient
      split at step
      · rename_i hserves
        cases step
        obtain ⟨later, hsharing⟩ :=
          hrest.publish hprocess (Process.serves_running hserves) hstate
        exact .sharing hsharing
      · cases step
  | deliver receiver sender =>
      obtain ⟨process, hprocess, step⟩ := Option.bind_eq_some_iff.mp step
      obtain ⟨⟨msg, rest⟩, htaken, step⟩ := Option.bind_eq_some_iff.mp step
      dsimp only at step
      split at step
      · rename_i hguard
        cases step
        cases growing with
        | sharing sharing =>
            have hmem := List.mem_of_getElem? hprocess
            have hrunning := sharing.running hmem hguard.1
            exact .sharing (sharing.deliver hprocess hrunning htaken).1
        | retiring retiring => exact .retiring (retiring.deliver hprocess hguard.1 htaken)
      · cases step
  | lose receiver sender => cases patient
  | depart index =>
      obtain ⟨process, hprocess, step⟩ := Option.bind_eq_some_iff.mp step
      obtain ⟨top, last, hrest⟩ := growing.rest patient
      split at step
      · rename_i hserves
        cases step
        exact .retiring (hrest.depart hprocess (Process.serves_running hserves))
      · cases step
  | stop index =>
      obtain ⟨process, hprocess, step⟩ := Option.bind_eq_some_iff.mp step
      split at step
      · rename_i hleaving
        cases step
        cases growing with
        | sharing sharing =>
            exact absurd hleaving (sharing.stays process (List.mem_of_getElem? hprocess))
        | retiring retiring => exact .retiring (retiring.stops hprocess hleaving)
      · cases step

theorem Growing.founded (config : Config) : Growing (.founded [config]) := by
  have hlisted (ip : Ip) : ip ∈ (created config).node.sync.peers ↔ ip = config.ip :=
    (Dict.mem_set _ _ _ _).trans (or_iff_left (AList.notMem_empty ip))
  have hattends := created_attends config
  have hsharing : Sharing 0 (created config).node.sync.peers (created config).node.sync.peers
      (.founded [config]) := by
    refine ⟨fun process hmem _ => ?_, fun process hmem => ?_, fun process hmem hseeded => ?_,
      fun first second process other hfirst hsecond _ _ _ => ?_, hattends.sound.keyed,
      hattends.sound.ported, fun ip => ?_, fun ticket hmem => (by cases hmem),
      (by simp [Swarm.founded])⟩
    · rw [List.mem_singleton.mp hmem]
      exact ⟨⟨hattends, rfl, _, Dict.lookup_set_self _ _ _, rfl, rfl⟩, .inl ⟨rfl, rfl, rfl⟩,
        fun entry hentry => by cases hentry⟩
    · rw [List.mem_singleton.mp hmem]
      exact fun h => by cases h
    · rw [List.mem_singleton.mp hmem] at hseeded
      cases hseeded
    · have hless (index : Nat) (member : Process)
          (hmember : (Swarm.founded [config]).processes[index]? = some member) : index = 0 := by
        have hindex := (List.getElem?_eq_some_iff.mp hmember).1
        simpa [Swarm.founded] using hindex
      rw [hless first process hfirst, hless second other hsecond]
    · rw [hlisted]
      constructor
      · rintro rfl
        exact .inl ⟨created config, List.mem_singleton_self _, rfl, rfl⟩
      · rintro (⟨process, hmem, -, hip⟩ | ⟨ticket, hmem, -⟩)
        · rw [List.mem_singleton.mp hmem] at hip
          exact hip.symm
        · cases hmem
  exact .sharing hsharing

/-- One view of the nodes that are up; each is connected to every other one and has it
configured, and nobody else. -/
structure Complete (version : Nat) (peers : PeerMap) (swarm : Swarm) : Prop where
  listed : ∀ ip, ip ∈ peers ↔
    ∃ process ∈ swarm.processes, process.phase ≠ .stopped ∧ process.node.state.ip = ip
  distinct : ∀ (first second : Nat) (process other : Process),
    swarm.processes[first]? = some process → swarm.processes[second]? = some other →
    process.phase ≠ .stopped → other.phase ≠ .stopped → first ≠ second →
    process.node.state.ip ≠ other.node.state.ip
  agrees : ∀ process ∈ swarm.processes, process.phase ≠ .stopped →
    process.listening = true ∧ process.node.sync.version = version ∧
      process.node.sync.peers = peers
  connected : ∀ process ∈ swarm.processes, process.phase ≠ .stopped → ∀ endpoint,
    endpoint ∈ process.node.sync.sub ↔ endpoint ≠ address process.node ∧
      ∃ other ∈ swarm.processes, other.phase ≠ .stopped ∧ address other.node = endpoint
  configured : ∀ process ∈ swarm.processes, process.phase ≠ .stopped → ∀ ip,
    ip ∈ process.node.state.peers ↔ ip ≠ process.node.state.ip ∧
      ∃ other ∈ swarm.processes, other.phase ≠ .stopped ∧ other.node.state.ip = ip

theorem Rest.complete (rest : Rest top last swarm) : Complete top last swarm := by
  have hrunning {process : Process} (hmem : process ∈ swarm.processes)
      (hup : process.phase ≠ .stopped) : process.phase = .running := by
    cases hphase : process.phase with
    | running => rfl
    | leaving => exact absurd hphase (rest.stays process hmem)
    | stopped => exact absurd hphase hup
  have hup {process : Process} (hphase : process.phase = .running) : process.phase ≠ .stopped :=
    fun h => by rw [hphase] at h; cases h
  have hlisted (ip : Ip) : ip ∈ last ↔
      ∃ process ∈ swarm.processes, process.phase ≠ .stopped ∧ process.node.state.ip = ip := by
    rw [rest.listed]
    constructor
    · rintro ⟨process, hmem, hphase, hip⟩
      exact ⟨process, hmem, hup hphase, hip⟩
    · rintro ⟨process, hmem, hphase, hip⟩
      exact ⟨process, hmem, hrunning hmem hphase, hip⟩
  refine ⟨hlisted, ?_, ?_, ?_, ?_⟩
  · intro first second process other hfirst hsecond hphase hphase' hne hip
    exact hne (rest.distinct first second process other hfirst hsecond
      (hrunning (List.mem_of_getElem? hfirst) hphase)
      (hrunning (List.mem_of_getElem? hsecond) hphase') hip)
  · intro process hmem hphase
    obtain ⟨hplaced, holds, -⟩ := rest.members process hmem (hrunning hmem hphase)
    exact ⟨hplaced.listening, holds.version, holds.peers⟩
  · intro process hmem hphase endpoint
    obtain ⟨hplaced, holds, -⟩ := rest.members process hmem (hrunning hmem hphase)
    rw [hplaced.attends.dials.links, holds.peers]
    constructor
    · rintro ⟨hforeign, record, hrecord, hport⟩
      obtain ⟨other, hother, hotherUp, hip⟩ := (hlisted _).mp (Dict.mem_of_lookup hrecord)
      obtain ⟨hseat, -, -⟩ := rest.members other hother (hrunning hother hotherUp)
      obtain ⟨known, hknown, hknownPort⟩ := hseat.described.port
      rw [hip, hrecord] at hknown
      cases hknown
      have hports : other.node.sync.port = endpoint.port :=
        SyncPort.port.inj (hknownPort.symm.trans hport)
      exact ⟨fun h => hforeign (congrArg Address.ip h), other, hother, hotherUp,
        congrArg₂ Address.mk hip hports⟩
    · rintro ⟨hforeign, other, hother, hotherUp, rfl⟩
      obtain ⟨hseat, -, -⟩ := rest.members other hother (hrunning hother hotherUp)
      refine ⟨fun hip => ?_, hseat.described.port⟩
      obtain ⟨index, hindex⟩ := List.mem_iff_getElem?.mp hmem
      obtain ⟨index', hindex'⟩ := List.mem_iff_getElem?.mp hother
      obtain rfl := rest.distinct index index' process other hindex hindex' (hrunning hmem hphase)
        (hrunning hother hotherUp) hip.symm
      rw [hindex] at hindex'
      cases hindex'
      exact hforeign rfl
  · intro process hmem hphase ip
    obtain ⟨hplaced, holds, -⟩ := rest.members process hmem (hrunning hmem hphase)
    rw [hplaced.attends.tracks, holds.peers, hlisted, and_comm]

/-- In every patient run from one founder, whenever the swarm is idle all nodes that are up
hold the same version and map, which lists exactly them, under different addresses, and each
of them is connected to every other one and has it as a peer, and nobody else. -/
theorem mq_mesh_complete {config : Config} {swarm : Swarm}
    (run : Run Swarm.next Swarm.Patient (.founded [config]) swarm) (idle : Idle swarm) :
    ∃ version peers, Complete version peers swarm := by
  have hgrowing : Growing swarm := run.invariant Growing (.founded config)
    (fun _ _ _ _ growing patient step => growing.next patient step)
  obtain ⟨top, last, hrest⟩ := hgrowing.rest idle
  exact ⟨top, last, hrest.complete⟩

/-! Two nodes join one after the other, the second leaves, and another one joins under its
address. -/

instance (swarm : Swarm) : Decidable (Idle swarm) :=
  decidable_of_iff ((∀ process ∈ swarm.processes, process.phase ≠ .stopped →
      process.serves = true ∧ process.inbox = []) ∧
        swarm.tickets.length + 1 = swarm.processes.length)
    ⟨fun ⟨served, joined⟩ => ⟨served, joined⟩, fun idle => ⟨idle.served, idle.joined⟩⟩

instance (swarm : Swarm) : DecidablePred swarm.Patient
  | .welcome _ joiner => inferInstanceAs (Decidable (Idle swarm ∧ joiner.syncPort ≠ 0))
  | .join ticket => inferInstanceAs (Decidable (ticket + 1 = swarm.processes.length))
  | .publishOwn _ _ | .depart _ => inferInstanceAs (Decidable (Idle swarm))
  | .lose _ _ => inferInstanceAs (Decidable False)
  | .onboard _ | .deliver _ _ | .stop _ => inferInstanceAs (Decidable True)

def returningConfig : Config := ⟨"10.0.0.2", "kd", "198.51.100.4", 51820, 5555⟩

def comesBack : List SwarmLabel :=
  [.welcome 0 secondConfig, .join 0, .onboard 1, .deliver 0 1, .deliver 1 0,
    .welcome 1 thirdConfig, .join 1, .onboard 2, .deliver 0 1, .deliver 1 2, .deliver 0 1,
    .deliver 2 1, foundersRoute, .deliver 2 0, .deliver 1 0, .depart 1, .deliver 2 1,
    .deliver 0 1, .stop 1, .welcome 2 returningConfig, .join 2, .onboard 3, .deliver 2 3,
    .deliver 3 2, .deliver 0 2, .deliver 0 2]

theorem mq_mesh_complete_comesBack :
    ∃ swarm : Swarm, Idle swarm ∧
      (swarm.processes.map Process.phase) = [.running, .stopped, .running, .running] ∧
      ∃ version peers, Complete version peers swarm := by
  have hreplay : (replay Swarm.next (fun swarm label => decide (swarm.Patient label))
      (.founded [firstConfig]) comesBack).any (fun swarm =>
        decide (Idle swarm) &&
          swarm.processes.map Process.phase = [.running, .stopped, .running, .running]) = true := by
    decide +kernel
  obtain ⟨swarm, hrun, hfound⟩ := reached_of_replay (fun _ _ h => of_decide_eq_true h) hreplay
  simp only [Bool.and_eq_true, decide_eq_true_eq] at hfound
  exact ⟨swarm, hfound.1, hfound.2, mq_mesh_complete hrun hfound.1⟩

end WgBp.Mq
