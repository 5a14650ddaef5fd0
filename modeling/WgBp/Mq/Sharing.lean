import WgBp.Mq.Dials
import WgBp.Mq.Onboarding

/-! A state on its way through a network that grows patiently: nodes are admitted, publish and
leave only while nothing is under way, so that every message is the latest state or asks a
node that has it. -/
namespace WgBp.Mq

open WgBp.Library WgBp.Library.Procedure WgBp.Library.Mailbox WgBp.Library.Transition WgBp.Model
open WgBp.Gossip (Config Ticket OwnEdit)

structure Idle (swarm : Swarm) : Prop where
  served : ∀ process ∈ swarm.processes, process.phase ≠ .stopped →
    process.serves = true ∧ process.inbox = []
  joined : swarm.tickets.length + 1 = swarm.processes.length

/-- Nodes are admitted, publish and leave while the swarm is idle; joiners give a port and
are started once, and no message is lost. -/
def Swarm.Patient (swarm : Swarm) : SwarmLabel → Prop
  | .welcome _ joiner => Idle swarm ∧ joiner.syncPort ≠ 0
  | .join ticket => ticket + 1 = swarm.processes.length
  | .publishOwn _ _ | .depart _ => Idle swarm
  | .lose _ _ => False
  | .onboard _ | .deliver _ _ | .stop _ => True

def Swarm.unused (swarm : Swarm) : List Ticket := swarm.tickets.drop (swarm.processes.length - 1)

def Swarm.Runs (swarm : Swarm) (ip : Ip) : Prop :=
  ∃ process ∈ swarm.processes, process.phase = .running ∧ process.node.state.ip = ip

def Swarm.Distinct (swarm : Swarm) : Prop :=
  ∀ (first second : Nat) (process other : Process), swarm.processes[first]? = some process →
    swarm.processes[second]? = some other → process.phase = .running → other.phase = .running →
    process.node.state.ip = other.node.state.ip → first = second

variable {swarm : Swarm} {process acting : Process} {index : Nat}

theorem act_member {other : Nat} {later : Process}
    (member : (swarm.act index acting).processes[other]? = some later) :
    ∃ process, swarm.processes[other]? = some process ∧
      (other = index ∧ later = { acting with node := flush acting.node } ∨
        other ≠ index ∧ later = process.hear index acting.node) := by
  rw [Swarm.act, List.getElem?_mapIdx] at member
  obtain ⟨process, hprocess, hlater⟩ := Option.map_eq_some_iff.mp member
  refine ⟨process, hprocess, ?_⟩
  split at hlater
  · rename_i hsame
    exact .inl ⟨hsame, hlater.symm⟩
  · rename_i hdifferent
    exact .inr ⟨hdifferent, hlater.symm⟩

@[simp] theorem Process.hear_seeded (existing : Process) (publisher : Nat) (source : MqNode) :
    (existing.hear publisher source).seeded = existing.seeded := by
  unfold Process.hear
  split <;> rfl

theorem Swarm.Distinct.act (distinct : swarm.Distinct)
    (member : swarm.processes[index]? = some process) (running : process.phase = .running)
    (ip : acting.node.state.ip = process.node.state.ip) : (swarm.act index acting).Distinct := by
  have horigin {other : Nat} {later : Process}
      (hlater : (swarm.act index acting).processes[other]? = some later)
      (hrunning : later.phase = .running) :
      ∃ earlier, swarm.processes[other]? = some earlier ∧ earlier.phase = .running ∧
        earlier.node.state.ip = later.node.state.ip := by
    obtain ⟨earlier, hearlier, ⟨rfl, rfl⟩ | ⟨-, rfl⟩⟩ := act_member hlater
    · rw [member] at hearlier
      cases hearlier
      exact ⟨process, member, running, ip.symm⟩
    · rw [Process.hear_phase] at hrunning
      exact ⟨earlier, hearlier, hrunning, by rw [Process.hear_node]⟩
  intro first second later later' hfirst hsecond hrunning hrunning' hip
  obtain ⟨earlier, hearlier, hup, hsame⟩ := horigin hfirst hrunning
  obtain ⟨earlier', hearlier', hup', hsame'⟩ := horigin hsecond hrunning'
  exact distinct first second earlier earlier' hearlier hearlier' hup hup'
    (hsame.trans (hip.trans hsame'.symm))

theorem Swarm.runs_act (member : swarm.processes[index]? = some process)
    (phase : acting.phase = process.phase) (ip : acting.node.state.ip = process.node.state.ip)
    (address : Ip) : (swarm.act index acting).Runs address ↔ swarm.Runs address := by
  constructor
  · rintro ⟨later, hlater, hrunning, hip⟩
    obtain ⟨other, hother⟩ := List.mem_iff_getElem?.mp hlater
    obtain ⟨earlier, hearlier, ⟨rfl, rfl⟩ | ⟨-, rfl⟩⟩ := act_member hother
    · exact ⟨process, List.mem_of_getElem? member, phase.symm.trans hrunning, ip.symm.trans hip⟩
    · rw [Process.hear_phase] at hrunning
      rw [Process.hear_node] at hip
      exact ⟨earlier, List.mem_of_getElem? hearlier, hrunning, hip⟩
  · rintro ⟨earlier, hearlier, hrunning, hip⟩
    obtain ⟨other, hother⟩ := List.mem_iff_getElem?.mp hearlier
    by_cases hsame : other = index
    · subst hsame
      rw [member] at hother
      cases hother
      exact ⟨_, List.mem_of_getElem? (swarm.act_self member acting), phase.trans hrunning,
        ip.trans hip⟩
    · refine ⟨_, List.mem_of_getElem? (swarm.act_other hother hsame acting), ?_, ?_⟩
      · rw [Process.hear_phase]
        exact hrunning
      · rw [Process.hear_node]
        exact hip

structure Holds (top : Nat) (last : PeerMap) (process : Process) : Prop where
  version : process.node.sync.version = top
  peers : process.node.sync.peers = last
  serves : process.serves = true

/-- A node that is to receive the latest state: one that serves has it in its mailbox, a
joiner has yet to ask for it. `prev` is the view before. -/
structure Lags (top : Nat) (prev last : PeerMap) (process : Process) : Prop where
  version : process.node.sync.version < top
  known : ∀ ip ∈ process.node.sync.peers, ip ≠ process.node.state.ip → ip ∈ prev
  within : Within process.node.sync.peers last
  waits : process.serves = true ∧ process.inbox ≠ [] ∧
      (process.seeded = true → 0 < process.node.sync.version) ∨
    process.serves = false ∧ process.node.sync.version = 0 ∧ process.node.state.ip ∉ prev ∧
      ∃ ip ∈ process.node.sync.peers, ip ≠ process.node.state.ip

def Describes (view : PeerMap) (node : MqNode) : Prop :=
  ∃ record, view.lookup node.state.ip = some record ∧
    record.syncPort = .port node.sync.port ∧ record.allowedIps = node.state.allowedIps

structure Placed (last : PeerMap) (process : Process) : Prop where
  attends : Attends process.node
  listening : process.listening = true
  described : Describes last process.node

/-- Messages are the latest state, or requests for it to a node that has it. -/
structure Shares (top : Nat) (prev last : PeerMap) (process : Process) : Prop where
  placed : Placed last process
  stage : Holds top last process ∨ Lags top prev last process
  mail : ∀ entry ∈ process.inbox, entry.2.sender ≠ address process.node ∧
    (entry.2.body = .stateUpdate top last ∨
      entry.2.body = .onboardNotice ∧ Holds top last process)

structure Awaited (top : Nat) (prev last : PeerMap) (ticket : Ticket) : Prop where
  fine : ticket.Fine
  own : Describes last (created ticket.config).node
  seed : ∃ record, last.lookup ticket.bootstrap.ip = some record ∧
    record.syncPort = ticket.seed.syncPort
  known : ticket.bootstrap.ip ∈ prev
  stranger : ticket.config.ip ∉ prev
  published : 0 < top

structure Sharing (top : Nat) (prev last : PeerMap) (swarm : Swarm) : Prop where
  members : ∀ process ∈ swarm.processes, process.phase = .running → Shares top prev last process
  stays : ∀ process ∈ swarm.processes, process.phase ≠ .leaving
  seeded : ∀ process ∈ swarm.processes, process.seeded = true → 0 < top
  distinct : swarm.Distinct
  keyed : Keyed last
  ported : Ported last
  listed : ∀ ip, ip ∈ last ↔
    swarm.Runs ip ∨ ∃ ticket ∈ swarm.unused, ticket.config.ip = ip
  tickets : ∀ ticket ∈ swarm.unused,
    Awaited top prev last ticket ∧ ¬swarm.Runs ticket.config.ip
  started : swarm.tickets.length ≤ swarm.processes.length ∧
    swarm.processes.length ≤ swarm.tickets.length + 1

def Spreads (top : Nat) (prev last : PeerMap) (node : MqNode) (pub : List Msg) : Prop :=
  ∀ msg ∈ pub, msg.sender = address node ∧ (msg.body = .stateUpdate top last ∨
    msg.body = .onboardNotice ∧ node.state.ip ∉ prev)

variable {top : Nat} {prev last : PeerMap}

theorem Describes.port {view : PeerMap} {node : MqNode} (describes : Describes view node) :
    ∃ record, view.lookup node.state.ip = some record ∧
      record.syncPort = .port node.sync.port := by
  obtain ⟨record, hrecord, hport, -⟩ := describes
  exact ⟨record, hrecord, hport⟩

theorem Describes.congr {view : PeerMap} {node after : MqNode} (describes : Describes view node)
    (located : address after = address node)
    (routes : after.state.allowedIps = node.state.allowedIps) : Describes view after := by
  have hip : after.state.ip = node.state.ip := congrArg Address.ip located
  have hport : after.sync.port = node.sync.port := congrArg Address.port located
  unfold Describes
  rw [hip, hport, routes]
  exact describes

theorem Describes.view {view later : PeerMap} {node : MqNode} (describes : Describes view node)
    (same : later.lookup node.state.ip = view.lookup node.state.ip) : Describes later node := by
  unfold Describes
  rw [same]
  exact describes

theorem Shares.hear (shares : Shares top prev last process) {publisher : Nat} {source : MqNode}
    (spreads : Spreads top prev last source source.sync.pub) :
    Shares top prev last (process.hear publisher source) := by
  unfold Process.hear
  split
  · rename_i hhears
    obtain ⟨hforeign, record, hrecord, -⟩ :=
      (shares.placed.attends.dials.links (address source)).mp hhears.2
    have hother : address source ≠ address process.node := fun h =>
      hforeign (congrArg Address.ip h)
    refine ⟨⟨shares.placed.attends, shares.placed.listening, shares.placed.described⟩, ?_, ?_⟩
    · rcases shares.stage with holds | lags
      · exact .inl ⟨holds.version, holds.peers, holds.serves⟩
      · refine .inr ⟨lags.version, lags.known, lags.within, ?_⟩
        rcases lags.waits with ⟨hserves, hinbox, hseeded⟩ | hnew
        · exact .inl ⟨hserves, List.append_ne_nil_of_left_ne_nil hinbox _, hseeded⟩
        · exact .inr hnew
    · intro entry hentry
      rcases List.mem_append.mp hentry with hold | hnew
      · obtain ⟨hsender, hbody⟩ := shares.mail entry hold
        refine ⟨hsender, hbody.imp_right fun hnotice => ⟨hnotice.1, ?_⟩⟩
        exact ⟨hnotice.2.version, hnotice.2.peers, hnotice.2.serves⟩
      · obtain ⟨msg, hmsg, rfl⟩ := List.mem_map.mp hnew
        obtain ⟨hsender, hbody⟩ := spreads msg hmsg
        refine ⟨hsender ▸ hother, hbody.imp_right fun hnotice => ⟨hnotice.1, ?_⟩⟩
        -- a node that lags lists nobody who could still ask
        rcases shares.stage with holds | lags
        · exact ⟨holds.version, holds.peers, holds.serves⟩
        · exact absurd (lags.known _ (Dict.mem_of_lookup hrecord) hforeign) hnotice.2
  · exact shares

theorem Sharing.act (sharing : Sharing top prev last swarm)
    (member : swarm.processes[index]? = some process) (running : process.phase = .running)
    (phase : acting.phase = process.phase) (seeded : acting.seeded = process.seeded)
    (ip : acting.node.state.ip = process.node.state.ip)
    (spreads : Spreads top prev last acting.node acting.node.sync.pub)
    (shares : Shares top prev last { acting with node := flush acting.node }) :
    Sharing top prev last (swarm.act index acting) := by
  have hruns := swarm.runs_act member phase ip
  have hlength : (swarm.act index acting).processes.length = swarm.processes.length :=
    act_length _ _ _
  have hunused : (swarm.act index acting).unused = swarm.unused := by
    rw [Swarm.unused, hlength]
    rfl
  have hmem := List.mem_of_getElem? member
  refine ⟨fun later hlater hrunning => ?_, fun later hlater => ?_, fun later hlater hseeded => ?_,
    sharing.distinct.act member running ip, sharing.keyed, sharing.ported, ?_, ?_, ?_⟩
  · obtain ⟨other, hother⟩ := List.mem_iff_getElem?.mp hlater
    obtain ⟨earlier, hearlier, ⟨rfl, rfl⟩ | ⟨-, rfl⟩⟩ := act_member hother
    · exact shares
    · rw [Process.hear_phase] at hrunning
      exact (sharing.members earlier (List.mem_of_getElem? hearlier) hrunning).hear spreads
  · obtain ⟨other, hother⟩ := List.mem_iff_getElem?.mp hlater
    obtain ⟨earlier, hearlier, ⟨rfl, rfl⟩ | ⟨-, rfl⟩⟩ := act_member hother
    · exact phase ▸ sharing.stays process hmem
    · rw [Process.hear_phase]
      exact sharing.stays earlier (List.mem_of_getElem? hearlier)
  · obtain ⟨other, hother⟩ := List.mem_iff_getElem?.mp hlater
    obtain ⟨earlier, hearlier, ⟨rfl, rfl⟩ | ⟨-, rfl⟩⟩ := act_member hother
    · exact sharing.seeded process hmem (seeded.symm.trans hseeded)
    · rw [Process.hear_seeded] at hseeded
      exact sharing.seeded earlier (List.mem_of_getElem? hearlier) hseeded
  · intro address
    rw [hruns, hunused]
    exact sharing.listed address
  · rw [hunused]
    intro ticket hticket
    rw [hruns]
    exact sharing.tickets ticket hticket
  · rw [hlength]
    exact sharing.started

theorem spreads_silent {node : MqNode} {pub : List Msg} (silent : pub = []) :
    Spreads top prev last node pub := by
  intro msg hmsg
  rw [silent] at hmsg
  cases hmsg

theorem Holds.moved (holds : Holds top last process) (inbox : List (Nat × Msg))
    (listening : Bool) : Holds top last { process with inbox, listening } :=
  ⟨holds.version, holds.peers, holds.serves⟩

theorem Shares.receives (shares : Shares top prev last process) (keyed : Keyed last)
    (ported : Ported last) (running : process.phase = .running) {sender : Nat} {msg : Msg}
    {rest : List (Nat × Msg)} (taken : take process.inbox sender = some (msg, rest)) :
    (process.receive msg rest).node.state.ip = process.node.state.ip ∧
      Spreads top prev last (process.receive msg rest).node
        (process.receive msg rest).node.sync.pub ∧
      Shares top prev last { process.receive msg rest with
        node := flush (process.receive msg rest).node } ∧
      Holds top last (process.receive msg rest) := by
  have hmem := mem_of_take taken
  have hattends := shares.placed.attends
  have hsound := hattends.sound
  obtain ⟨hsender, hbody⟩ : msg.sender ≠ address process.node ∧
      (msg.body = .stateUpdate top last ∨ msg.body = .onboardNotice ∧ Holds top last process) :=
    shares.mail _ ((hmem _).mpr (.inl rfl))
  have hshares {node : MqNode} (attends : Attends node)
      (located : address node = address process.node)
      (routes : node.state.allowedIps = process.node.state.allowedIps)
      (holds : Holds top last { process with node, inbox := rest, listening := true }) :
      Shares top prev last { process with node, inbox := rest, listening := true } := by
    refine ⟨⟨attends, rfl, shares.placed.described.congr located routes⟩, .inl holds,
      fun entry hentry => ?_⟩
    obtain ⟨hother, hkind⟩ := shares.mail entry ((hmem entry).mpr (.inr hentry))
    rw [located]
    exact ⟨hother, hkind.imp_right fun hask => ⟨hask.1, holds⟩⟩
  unfold Process.receive
  rcases hbody with hupdate | ⟨hnotice, holds⟩
  · rcases shares.stage with holds | lags
    · have hholds := holds.moved rest true
      rw [run_equal hsender hupdate holds.version.symm]
      refine ⟨rfl, spreads_silent hsound.flushed, ?_, hholds⟩
      dsimp only [final, returned]
      rw [flush_self hsound]
      exact hshares hattends rfl rfl hholds
    · obtain ⟨after, hrun, hturns, hready, hroutes⟩ :=
        hattends.adopts hsender hupdate lags.version keyed ported lags.within
      have hserves : Process.serves { process with node := after, inbox := rest, listening := true }
          = true := by
        simp only [Process.serves, decide_eq_true_eq, running, hready, Bool.or_eq_true, true_and]
        rcases lags.waits with ⟨hserves, -, -⟩ | ⟨-, hversion, -, -⟩
        · simp only [Process.serves, decide_eq_true_eq] at hserves
          exact hserves.2.imp_right .inl
        · exact .inr (.inr hversion)
      have hholds :
          Holds top last { process with node := after, inbox := rest, listening := true } :=
        ⟨hturns.version, hturns.peers, hserves⟩
      rw [hrun]
      refine ⟨hturns.ip, spreads_silent hturns.attends.sound.flushed, ?_, hholds⟩
      dsimp only [final, returned]
      rw [flush_self hturns.attends.sound]
      exact hshares hturns.attends hturns.address hroutes hholds
  · have hrun : (listenForUpdates msg).run process.node = .ok () (publishState process.node) := by
      simp [listenForUpdates, hsender, hnotice]
    have hholds := holds.moved rest true
    rw [hrun]
    refine ⟨rfl, fun answer hanswer => ?_, ?_, ⟨holds.version, holds.peers, holds.serves⟩⟩
    · have hanswer : answer ∈ (publishState process.node).sync.pub := hanswer
      rw [publishState_pub hsound, List.mem_singleton, holds.version, holds.peers] at hanswer
      rw [hanswer]
      exact ⟨rfl, .inl rfl⟩
    · dsimp only [final, returned]
      rw [flush_publishState hsound]
      exact hshares hattends rfl rfl hholds

theorem Sharing.deliver (sharing : Sharing top prev last swarm)
    (member : swarm.processes[index]? = some process) (running : process.phase = .running)
    {sender : Nat} {msg : Msg} {rest : List (Nat × Msg)}
    (taken : take process.inbox sender = some (msg, rest)) :
    Sharing top prev last (swarm.act index (process.receive msg rest)) ∧
      Holds top last (process.receive msg rest) := by
  obtain ⟨hip, hspreads, hshares, holds⟩ := (sharing.members process (List.mem_of_getElem? member)
    running).receives sharing.keyed sharing.ported running taken
  exact ⟨sharing.act member running rfl rfl hip hspreads hshares, holds⟩

theorem Sharing.running (sharing : Sharing top prev last swarm) (member : process ∈ swarm.processes)
    (up : process.phase ≠ .stopped) : process.phase = .running := by
  cases hphase : process.phase with
  | running => rfl
  | leaving => exact absurd hphase (sharing.stays process member)
  | stopped => exact absurd hphase up

theorem Sharing.asks (sharing : Sharing top prev last swarm)
    (member : swarm.processes[index]? = some process) (running : process.phase = .running)
    (seeded : process.seeded = true) (initial : process.node.sync.version = 0) :
    Sharing top prev last
      (swarm.act index { process with node := handOver process.node .onboardNotice }) := by
  have hmem := List.mem_of_getElem? member
  have hshares := sharing.members process hmem running
  have hsound := hshares.placed.attends.sound
  have hstranger : process.node.state.ip ∉ prev := by
    rcases hshares.stage with holds | lags
    · have hpublished := sharing.seeded process hmem seeded
      have hversion := holds.version
      omega
    · rcases lags.waits with ⟨-, -, hpublished⟩ | ⟨-, -, hstranger, -⟩
      · have hversion := hpublished seeded
        omega
      · exact hstranger
  refine sharing.act member running rfl rfl rfl (fun msg hmsg => ?_) ?_
  · simp only [handOver, hsound.flushed, List.nil_append, List.mem_singleton] at hmsg
    rw [hmsg]
    exact ⟨rfl, .inr ⟨rfl, hstranger⟩⟩
  · have hflush : flush (handOver process.node .onboardNotice) = process.node := flush_self hsound
    dsimp only
    rw [hflush]
    exact hshares

theorem Awaited.shares {ticket : Ticket} (awaited : Awaited top prev last ticket) {number : Nat}
    (port : ticket.seed.syncPort = .port number) :
    Shares top prev last (joined ticket number) := by
  have hsame := ticket.bootstrap.addedTo_same ticket.config.state
  have hip : (joined ticket number).node.state.ip = ticket.config.ip := hsame.ip
  have hlocated : address (joined ticket number).node = address (created ticket.config).node :=
    congrArg₂ Address.mk hip (connected_connects _ _).port
  have hversion : (joined ticket number).node.sync.version = 0 := (connected_connects _ _).version
  have hseed : (joined ticket number).node.sync.peers.lookup ticket.seed.virtualIp =
      some ticket.seed := by rw [joined_lookup, if_pos rfl]
  have hother : ticket.seed.virtualIp ≠ (joined ticket number).node.state.ip := by
    rw [hip, awaited.fine.seed]
    exact awaited.fine.foreign
  refine ⟨⟨joined_attends awaited.fine port, rfl, awaited.own.congr hlocated hsame.allowedIps⟩,
    .inr ⟨hversion ▸ awaited.published, fun ip hlisted hother => ?_, fun ip record hrecord => ?_,
      .inr ⟨rfl, hversion, hip ▸ awaited.stranger, _, Dict.mem_of_lookup hseed, hother⟩⟩,
    fun entry hentry => by cases hentry⟩
  · obtain ⟨record, hrecord⟩ := Dict.mem_iff_lookup.mp hlisted
    rw [joined_lookup] at hrecord
    split at hrecord
    · rename_i hseed
      rw [hseed, awaited.fine.seed]
      exact awaited.known
    · split at hrecord
      · rename_i hown
        exact absurd (hown.trans hip.symm) hother
      · cases hrecord
  · rw [joined_lookup] at hrecord
    split at hrecord
    · rename_i hseed
      cases hrecord
      rw [hseed, awaited.fine.seed]
      exact awaited.seed
    · split at hrecord
      · rename_i hown
        cases hrecord
        rw [hown]
        exact awaited.own.port
      · cases hrecord

theorem concat_member {processes : List Process} {joiner : Process}
    (member : (processes ++ [joiner])[index]? = some process) :
    processes[index]? = some process ∨ index = processes.length ∧ process = joiner := by
  rcases Nat.lt_trichotomy index processes.length with hless | rfl | hgreater
  · rw [List.getElem?_append_left hless] at member
    exact .inl member
  · rw [List.getElem?_concat_length] at member
    cases member
    exact .inr ⟨rfl, rfl⟩
  · have hlength : (processes ++ [joiner]).length ≤ index := by
      rw [List.length_append]
      exact hgreater
    rw [List.getElem?_eq_none hlength] at member
    cases member

theorem Swarm.Distinct.concat (distinct : swarm.Distinct) {joiner : Process}
    (vacant : ¬swarm.Runs joiner.node.state.ip) :
    Swarm.Distinct { swarm with processes := swarm.processes ++ [joiner] } := by
  intro first second process other hfirst hsecond hrunning hrunning' hip
  rcases concat_member hfirst with hold | ⟨rfl, rfl⟩
  · rcases concat_member hsecond with hold' | ⟨rfl, rfl⟩
    · exact distinct first second process other hold hold' hrunning hrunning' hip
    · exact absurd ⟨process, List.mem_of_getElem? hold, hrunning, hip⟩ vacant
  · rcases concat_member hsecond with hold' | ⟨rfl, rfl⟩
    · exact absurd ⟨other, List.mem_of_getElem? hold', hrunning', hip.symm⟩ vacant
    · rfl

theorem Swarm.runs_concat {joiner : Process} (running : joiner.phase = .running) (ip : Ip) :
    Swarm.Runs { swarm with processes := swarm.processes ++ [joiner] } ip ↔
      swarm.Runs ip ∨ joiner.node.state.ip = ip := by
  constructor
  · rintro ⟨process, hprocess, hrunning, hip⟩
    rcases List.mem_append.mp hprocess with hold | hnew
    · exact .inl ⟨process, hold, hrunning, hip⟩
    · rw [List.mem_singleton.mp hnew] at hip
      exact .inr hip
  · rintro (⟨process, hprocess, hfacts⟩ | hip)
    · exact ⟨process, List.mem_append_left _ hprocess, hfacts⟩
    · exact ⟨joiner, List.mem_append_right _ (List.mem_singleton_self _), running, hip⟩

theorem Sharing.starts (sharing : Sharing top prev last swarm) {ticket : Ticket} {number : Nat}
    (issued : swarm.tickets[index]? = some ticket) (next : index + 1 = swarm.processes.length)
    (port : ticket.seed.syncPort = .port number) :
    Sharing top prev last
      { swarm with processes := swarm.processes ++ [joined ticket number] } := by
  obtain ⟨hindex, hticket⟩ := List.getElem?_eq_some_iff.mp issued
  have hcount := sharing.started
  have hrest : swarm.tickets.drop (index + 1) = [] := List.drop_eq_nil_of_le (by omega)
  have hunused : swarm.unused = [ticket] := by
    have hdrop : swarm.processes.length - 1 = index := by omega
    rw [Swarm.unused, hdrop, List.drop_eq_getElem_cons hindex, hrest, hticket]
  have hnone : Swarm.unused { swarm with processes := swarm.processes ++ [joined ticket number] }
      = [] := by
    simp only [Swarm.unused, List.length_append, List.length_singleton, Nat.add_sub_cancel]
    rw [← next, hrest]
  obtain ⟨hawaited, hvacant⟩ := sharing.tickets ticket (by simp [hunused])
  have hip : (joined ticket number).node.state.ip = ticket.config.ip :=
    (ticket.bootstrap.addedTo_same ticket.config.state).ip
  refine ⟨fun member hmember hrunning => ?_, fun member hmember => ?_,
    fun member hmember hseeded => ?_, sharing.distinct.concat (hip ▸ hvacant), sharing.keyed,
    sharing.ported, fun ip => ?_, ?_, ?_⟩
  · rcases List.mem_append.mp hmember with hold | hnew
    · exact sharing.members member hold hrunning
    · rw [List.mem_singleton.mp hnew]
      exact hawaited.shares port
  · rcases List.mem_append.mp hmember with hold | hnew
    · exact sharing.stays member hold
    · rw [List.mem_singleton.mp hnew]
      exact fun h => by cases h
  · rcases List.mem_append.mp hmember with hold | hnew
    · exact sharing.seeded member hold hseeded
    · exact hawaited.published
  · rw [sharing.listed ip, Swarm.runs_concat rfl, hunused, hnone, hip]
    simp
  · rw [hnone]
    intro ticket hmem
    cases hmem
  · simp only [List.length_append, List.length_singleton]
    omega

end WgBp.Mq
