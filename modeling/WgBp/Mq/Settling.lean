import WgBp.Mq.Growth

/-! Whatever is under way in a network that grows patiently can be finished: who was admitted
is started, asks and is answered, messages are handled, and whoever leaves stops. -/
namespace WgBp.Mq

open WgBp.Library WgBp.Library.Cascade WgBp.Library.Procedure WgBp.Library.Mailbox
open WgBp.Library.Transition WgBp.Model
open WgBp.Gossip (Config Ticket OwnEdit)

def SwarmLabel.finishes : SwarmLabel → Bool
  | .join _ | .onboard _ | .deliver _ _ | .stop _ => true
  | _ => false

def Swarm.Finishing (swarm : Swarm) (label : SwarmLabel) : Prop :=
  swarm.Patient label ∧ label.finishes = true

def SwarmLabel.drains : SwarmLabel → Bool
  | .deliver _ _ | .stop _ => true
  | _ => false

variable {swarm : Swarm} {process acting joiner guide : Process} {index : Nat}
variable {top size count : Nat} {prev last : PeerMap}

theorem SwarmLabel.finishing_of_drains {label : SwarmLabel} (drains : label.drains = true)
    (swarm : Swarm) : swarm.Finishing label := by
  cases label <;> first | exact ⟨trivial, rfl⟩ | cases drains

theorem SwarmLabel.settles_of_drains {label : SwarmLabel} (drains : label.drains = true) :
    label.settles = true := by
  cases label <;> first | rfl | cases drains

theorem Flushed.drained (flushed : Flushed swarm) (inv : Swarm → Prop) (start : inv swarm)
    (kept : ∀ state label after, inv state → label.drains = true →
      Swarm.next state label = some after → inv after) :
    ∃ calm, Run Swarm.next Swarm.Finishing swarm calm ∧ inv calm ∧ Flushed calm ∧
      ∀ label, label.drains = true → calm.next label = none := by
  obtain ⟨labels, calm, hreplayed, hrest⟩ := exists_at_rest
    (fun _ (label : SwarmLabel) => label.drains)
    (Paced swarm.processes.length swarm.top) (Swarm.effort swarm.processes.length swarm.top)
    (fun _ _ _ hpaced hdrains hstep =>
      hpaced.next (SwarmLabel.settles_of_drains hdrains) hstep) flushed.paced
  have hdrain : Run Swarm.next (fun _ label => label.drains = true) swarm calm :=
    run_of_replay (fun _ _ h => h) hreplayed
  have hfinish : Run Swarm.next Swarm.Finishing swarm calm :=
    run_of_replay (fun state _ h => SwarmLabel.finishing_of_drains h state) hreplayed
  refine ⟨calm, hfinish, ?_, ?_, hrest⟩
  · exact hdrain.invariant inv start fun _ _ _ _ hinv hdrains hstep => kept _ _ _ hinv hdrains hstep
  · exact hdrain.invariant Flushed flushed fun _ _ _ _ hbefore _ hstep => hbefore.next hstep

theorem Swarm.next_deliver (member : swarm.processes[index]? = some process)
    (up : process.phase ≠ .stopped) (listening : process.listening = true) {sender : Nat}
    {msg : Msg} {rest : List (Nat × Msg)} (taken : take process.inbox sender = some (msg, rest)) :
    swarm.next (.deliver index sender) = some (swarm.act index (process.receive msg rest)) := by
  simp [Swarm.next, member, taken, up, listening]

theorem Swarm.run_deliver (member : swarm.processes[index]? = some process)
    (up : process.phase ≠ .stopped) (listening : process.listening = true) {sender : Nat}
    {msg : Msg} {rest : List (Nat × Msg)} (taken : take process.inbox sender = some (msg, rest)) :
    Run Swarm.next Swarm.Finishing swarm (swarm.act index (process.receive msg rest)) := by
  refine Run.single ?_ (Swarm.next_deliver member up listening taken)
  exact ⟨trivial, rfl⟩

@[simp] theorem take_single (sender : Nat) (msg : Msg) :
    take [(sender, msg)] sender = some (msg, []) := by
  simp [take]

theorem inbox_of_drained (drained : ∀ label, label.drains = true → swarm.next label = none)
    (member : process ∈ swarm.processes) (up : process.phase ≠ .stopped)
    (listening : process.listening = true) : process.inbox = [] := by
  obtain ⟨receiver, hreceiver⟩ := List.mem_iff_getElem?.mp member
  cases hinbox : process.inbox with
  | nil => rfl
  | cons entry rest =>
      have htaken : take process.inbox entry.1 = some (entry.2, rest) := by
        simp [hinbox, take]
      have hnone := drained (.deliver receiver entry.1) rfl
      rw [Swarm.next_deliver hreceiver up listening htaken] at hnone
      cases hnone

/-- Every admission has been used, and the first `count` processes serve while they run. -/
structure Closing (top : Nat) (prev last : PeerMap) (size count : Nat) (swarm : Swarm) : Prop where
  sharing : Sharing top prev last swarm
  flushed : Flushed swarm
  joined : swarm.tickets.length + 1 = size
  size : swarm.processes.length = size
  served : ∀ index < count, ∀ process, swarm.processes[index]? = some process →
    process.phase = .running → process.serves = true

theorem Closing.act (closing : Closing top prev last size count swarm)
    (member : swarm.processes[index]? = some process) (phase : acting.phase = process.phase)
    (serves : process.serves = true → acting.serves = true)
    (sharing : Sharing top prev last (swarm.act index acting)) :
    Closing top prev last size count (swarm.act index acting) := by
  refine ⟨sharing, closing.flushed.act _ _, closing.joined,
    (act_length _ _ _).trans closing.size, fun other hless later hlater hrunning => ?_⟩
  obtain ⟨earlier, hearlier, ⟨rfl, rfl⟩ | ⟨-, rfl⟩⟩ := act_member hlater
  · rw [member] at hearlier
    cases hearlier
    exact serves (closing.served _ hless process member (phase.symm.trans hrunning))
  · rw [Process.hear_phase] at hrunning
    have hserves := closing.served _ hless earlier hearlier hrunning
    unfold Process.hear
    split
    · exact hserves
    · exact hserves

theorem Closing.deliver (closing : Closing top prev last size count swarm)
    (member : swarm.processes[index]? = some process) (running : process.phase = .running)
    {sender : Nat} {msg : Msg} {rest : List (Nat × Msg)}
    (taken : take process.inbox sender = some (msg, rest)) :
    Closing top prev last size count (swarm.act index (process.receive msg rest)) := by
  obtain ⟨hsharing, holds⟩ := closing.sharing.deliver member running taken
  exact closing.act member rfl (fun _ => holds.serves) hsharing

theorem Closing.next (closing : Closing top prev last size count swarm) {label : SwarmLabel}
    {after : Swarm} (drains : label.drains = true) (step : swarm.next label = some after) :
    Closing top prev last size count after := by
  cases label with
  | deliver receiver sender =>
      obtain ⟨process, hprocess, step⟩ := Option.bind_eq_some_iff.mp step
      obtain ⟨⟨msg, rest⟩, htaken, step⟩ := Option.bind_eq_some_iff.mp step
      dsimp only at step
      split at step
      · rename_i hguard
        cases step
        have hrunning := closing.sharing.running (List.mem_of_getElem? hprocess) hguard.1
        exact closing.deliver hprocess hrunning htaken
      · cases step
  | stop index =>
      obtain ⟨process, hprocess, step⟩ := Option.bind_eq_some_iff.mp step
      split at step
      · rename_i hleaving
        exact absurd hleaving (closing.sharing.stays _ (List.mem_of_getElem? hprocess))
      · cases step
  | welcome | join | onboard | publishOwn | lose | depart => cases drains

theorem Closing.drained (closing : Closing top prev last size count swarm) :
    ∃ calm, Run Swarm.next Swarm.Finishing swarm calm ∧ Closing top prev last size count calm ∧
      ∀ process ∈ calm.processes, process.phase = .running → process.inbox = [] := by
  obtain ⟨calm, hrun, hclosing, -, hrest⟩ := closing.flushed.drained
    (Closing top prev last size count) closing fun _ _ _ hbefore hdrains hstep =>
      hbefore.next hdrains hstep
  refine ⟨calm, hrun, hclosing, fun process hmem hrunning => ?_⟩
  have hup : process.phase ≠ .stopped := fun h => by rw [hrunning] at h; cases h
  exact inbox_of_drained hrest hmem hup (hclosing.sharing.members _ hmem hrunning).placed.listening

structure Seated (top : Nat) (last : PeerMap) (joiner guide : Process) : Prop where
  running : guide.phase = .running
  listening : guide.listening = true
  sound : Sound guide.node
  holds : Holds top last guide
  reaches : address joiner.node ∈ guide.node.sync.sub
  reached : address guide.node ∈ joiner.node.sync.sub

theorem Seated.asked (seated : Seated top last joiner guide) {inbox : List (Nat × Msg)} :
    Seated top last joiner { guide with inbox } :=
  ⟨seated.running, seated.listening, seated.sound, seated.holds.moved _ _, seated.reaches,
    seated.reached⟩

theorem Sharing.finds (sharing : Sharing top prev last swarm) (used : swarm.unused = [])
    (calm : ∀ process ∈ swarm.processes, process.phase = .running → process.inbox = [])
    (member : swarm.processes[index]? = some joiner) (running : joiner.phase = .running)
    (waits : joiner.serves = false) :
    joiner.node.sync.version = 0 ∧ ∃ seat guide, swarm.processes[seat]? = some guide ∧
      seat ≠ index ∧ Seated top last joiner guide := by
  have hmem := List.mem_of_getElem? member
  have hjoiner := sharing.members joiner hmem running
  obtain ⟨lags, hversion, ip, hlisted, hother⟩ : Lags top prev last joiner ∧
      joiner.node.sync.version = 0 ∧
      ∃ ip ∈ joiner.node.sync.peers, ip ≠ joiner.node.state.ip := by
    rcases hjoiner.stage with holds | lags
    · rw [holds.serves] at waits
      cases waits
    · rcases lags.waits with ⟨hserves, -⟩ | ⟨-, hversion, -, hseed⟩
      · rw [hserves] at waits
        cases waits
      · exact ⟨lags, hversion, hseed⟩
  obtain ⟨record, hrecord⟩ := Dict.mem_iff_lookup.mp hlisted
  obtain ⟨later, hlater, hsame⟩ := lags.within _ _ hrecord
  -- the one the joiner knows has been listed before, so it is up and has nothing to handle
  obtain ⟨guide, hguide, hup, rfl⟩ : swarm.Runs ip := by
    rcases (sharing.listed ip).mp (Dict.mem_of_lookup hlater) with hruns | ⟨ticket, hticket, -⟩
    · exact hruns
    · rw [used] at hticket
      cases hticket
  obtain ⟨seat, hseat⟩ := List.mem_iff_getElem?.mp hguide
  have hshares := sharing.members guide hguide hup
  have holds : Holds top last guide := by
    rcases hshares.stage with holds | behind
    · exact holds
    · rcases behind.waits with ⟨-, hpending, -⟩ | ⟨-, -, hstranger, -⟩
      · exact absurd (calm guide hguide hup) hpending
      · exact absurd (lags.known _ hlisted hother) hstranger
  refine ⟨hversion, seat, guide, hseat, ?_, hup, hshares.placed.listening,
    hshares.placed.attends.sound, holds, ?_, ?_⟩
  · rintro rfl
    rw [member] at hseat
    cases hseat
    exact hother rfl
  · refine (hshares.placed.attends.dials.links _).mpr ⟨hother.symm, ?_⟩
    rw [holds.peers]
    exact hjoiner.placed.described.port
  · obtain ⟨own, hown, hport⟩ := hshares.placed.described.port
    rw [hlater] at hown
    cases hown
    exact (hjoiner.placed.attends.dials.links _).mpr
      ⟨hother, record, hrecord, hsame.symm.trans hport⟩

theorem Process.hear_single {existing : Process} {source : MqNode} {msg : Msg}
    (up : existing.phase ≠ .stopped) (subscribed : address source ∈ existing.node.sync.sub)
    (empty : existing.inbox = []) (published : source.sync.pub = [msg]) (publisher : Nat) :
    existing.hear publisher source = { existing with inbox := [(publisher, msg)] } := by
  rw [Process.hear, if_pos ⟨up, subscribed⟩, empty, published]
  rfl

theorem Seated.answers (seated : Seated top last joiner guide) {own : Address}
    (foreign : own ≠ address guide.node) (rest : List (Nat × Msg)) :
    (guide.receive (request own) rest).node.sync.pub =
        [update (address guide.node) guide.node.sync.version guide.node.sync.peers] ∧
      address (guide.receive (request own) rest).node = address guide.node := by
  have hrun : (listenForUpdates (request own)).run guide.node =
      .ok () (publishState guide.node) := by
    simp [listenForUpdates, request, foreign]
  rw [Process.receive, hrun]
  exact ⟨publishState_pub seated.sound, rfl⟩

theorem Closing.asks (closing : Closing top prev last size count swarm)
    (member : swarm.processes[index]? = some joiner) (running : joiner.phase = .running)
    (seeded : joiner.seeded = true) (initial : joiner.node.sync.version = 0) {seat : Nat}
    (seated : Seated top last joiner guide) (hears : swarm.processes[seat]? = some guide)
    (different : seat ≠ index) (empty : guide.inbox = []) :
    ∃ after, Run Swarm.next Swarm.Finishing swarm after ∧
      Closing top prev last size count after ∧ after.processes[index]? = some joiner ∧
      after.processes[seat]? =
        some { guide with inbox := [(index, request (address joiner.node))] } := by
  have hsound := (closing.sharing.members joiner (List.mem_of_getElem? member)
    running).placed.attends.sound
  have hup : guide.phase ≠ .stopped := fun h => by rw [seated.running] at h; cases h
  let asking : Process := { joiner with node := handOver joiner.node .onboardNotice }
  have hpub : asking.node.sync.pub = [request (address joiner.node)] := by
    simp [asking, handOver, hsound.flushed, request]
  have hreaches : address asking.node ∈ guide.node.sync.sub := seated.reaches
  have hflushed : flush asking.node = joiner.node := flush_self hsound
  have hstep : swarm.next (.onboard index) = some (swarm.act index asking) := by
    simp [Swarm.next, member, running, seeded, initial, asking]
  refine ⟨swarm.act index asking, Run.single ?_ hstep,
    closing.act member rfl id (closing.sharing.asks member running seeded initial), ?_, ?_⟩
  · exact ⟨trivial, rfl⟩
  · rw [swarm.act_self member, hflushed]
  · rw [swarm.act_other hears different, Process.hear_single hup hreaches empty hpub]

theorem Closing.answers (closing : Closing top prev last size count swarm)
    (member : swarm.processes[index]? = some joiner) (running : joiner.phase = .running)
    (empty : joiner.inbox = []) {seat : Nat} (seated : Seated top last joiner guide)
    (hears : swarm.processes[seat]? = some guide) (different : seat ≠ index)
    (asked : guide.inbox = [(index, request (address joiner.node))]) :
    ∃ after, Run Swarm.next Swarm.Finishing swarm after ∧
      Closing top prev last size count after ∧
      ∃ later, after.processes[index]? = some later ∧ later.serves = true := by
  have hplaced := (closing.sharing.members joiner (List.mem_of_getElem? member) running).placed
  have hforeign : address joiner.node ≠ address guide.node := fun h =>
    ((hplaced.attends.dials.links _).mp seated.reached).1 (congrArg Address.ip h.symm)
  have hup : joiner.phase ≠ .stopped := fun h => by rw [running] at h; cases h
  have hguideUp : guide.phase ≠ .stopped := fun h => by rw [seated.running] at h; cases h
  have htaken : take guide.inbox index = some (request (address joiner.node), []) :=
    asked ▸ take_single _ _
  let answering := guide.receive (request (address joiner.node)) []
  obtain ⟨hpub, haddress⟩ := seated.answers hforeign []
  have hreached : address answering.node ∈ joiner.node.sync.sub := haddress ▸ seated.reached
  have hanswers := closing.deliver hears seated.running htaken
  have hstep := Swarm.run_deliver hears hguideUp seated.listening htaken
  have hjoiner := Swarm.act_other member different.symm answering
  rw [Process.hear_single hup hreached empty hpub] at hjoiner
  have hadopt := Swarm.run_deliver hjoiner hup hplaced.listening (take_single _ _)
  have holds := (hanswers.sharing.deliver hjoiner running (take_single _ _)).2
  exact ⟨_, hstep.trans hadopt, hanswers.deliver hjoiner running (take_single _ _), _,
    Swarm.act_self hjoiner _, holds.serves⟩

theorem Closing.serves (closing : Closing top prev last size count swarm)
    (calm : ∀ process ∈ swarm.processes, process.phase = .running → process.inbox = [])
    (member : swarm.processes[index]? = some joiner) (running : joiner.phase = .running)
    (waits : joiner.serves = false) :
    ∃ after, Run Swarm.next Swarm.Finishing swarm after ∧
      Closing top prev last size count after ∧
      ∃ later, after.processes[index]? = some later ∧ later.serves = true := by
  have hused : swarm.unused = [] := List.drop_eq_nil_of_le (by
    have hjoined := closing.joined
    have hsize := closing.size
    omega)
  obtain ⟨hversion, seat, guide, hguide, hne, seated⟩ :=
    closing.sharing.finds hused calm member running waits
  have hseeded : joiner.seeded = true := by
    simp only [Process.serves, running, true_and, decide_eq_false_iff_not, not_or] at waits
    simpa using waits.1
  obtain ⟨mid, hask, hclosing, hjoiner, hasked⟩ := closing.asks member running hseeded hversion
    seated hguide hne (calm guide (List.mem_of_getElem? hguide) seated.running)
  obtain ⟨after, hanswer, hserves⟩ := hclosing.answers hjoiner running
    (calm joiner (List.mem_of_getElem? member) running) seated.asked hasked hne rfl
  exact ⟨after, hask.trans hanswer, hserves⟩

theorem Closing.proceeds (closing : Closing top prev last size 0 swarm) (count : Nat) :
    ∃ after, Run Swarm.next Swarm.Finishing swarm after ∧
      Closing top prev last size count after := by
  induction count with
  | zero => exact ⟨swarm, .refl swarm, closing⟩
  | succ count ih =>
      obtain ⟨mid, hrun, hmid⟩ := ih
      obtain ⟨calm, hdrain, hclosing, hempty⟩ := hmid.drained
      have hextend {after : Swarm} (hafter : Closing top prev last size count after)
          (served : ∀ process, after.processes[count]? = some process →
            process.phase = .running → process.serves = true) :
          Closing top prev last size (count + 1) after := by
        refine ⟨hafter.sharing, hafter.flushed, hafter.joined, hafter.size, fun index hless => ?_⟩
        rcases Nat.lt_succ_iff_lt_or_eq.mp hless with hbefore | rfl
        · exact hafter.served index hbefore
        · exact served
      by_cases hserved : ∀ process, calm.processes[count]? = some process →
          process.phase = .running → process.serves = true
      · exact ⟨calm, hrun.trans hdrain, hextend hclosing hserved⟩
      · push Not at hserved
        obtain ⟨joiner, hjoiner, hrunning, hwaits⟩ := hserved
        obtain ⟨after, hanswer, hafter, later, hlater, hserves⟩ :=
          hclosing.serves hempty hjoiner hrunning (Bool.eq_false_iff.mpr hwaits)
        refine ⟨after, (hrun.trans hdrain).trans hanswer,
          hextend hafter fun process hprocess _ => ?_⟩
        rw [hlater] at hprocess
        cases hprocess
        exact hserves

theorem Closing.settles (closing : Closing top prev last size 0 swarm) :
    ∃ after, Run Swarm.next Swarm.Finishing swarm after ∧ Sharing top prev last after ∧
      Idle after := by
  obtain ⟨mid, hrun, hmid⟩ := closing.proceeds size
  obtain ⟨calm, hdrain, hclosing, hempty⟩ := hmid.drained
  refine ⟨calm, hrun.trans hdrain, hclosing.sharing, fun process hmem hup => ?_,
    hclosing.joined.trans hclosing.size.symm⟩
  have hrunning := hclosing.sharing.running hmem hup
  obtain ⟨index, hindex⟩ := List.mem_iff_getElem?.mp hmem
  have hless : index < size := hclosing.size ▸ (List.getElem?_eq_some_iff.mp hindex).1
  exact ⟨hclosing.served index hless process hindex hrunning, hempty process hmem hrunning⟩

theorem Sharing.begins (sharing : Sharing top prev last swarm) (flushed : Flushed swarm)
    (populated : 0 < swarm.processes.length) :
    ∃ after size, Run Swarm.next Swarm.Finishing swarm after ∧
      Closing top prev last size 0 after := by
  have hstarted := sharing.started
  by_cases hjoined : swarm.tickets.length + 1 = swarm.processes.length
  · exact ⟨swarm, _, .refl swarm, sharing, flushed, hjoined, rfl, fun _ hless => (by cases hless)⟩
  · let index := swarm.processes.length - 1
    have hindex : index < swarm.tickets.length := by omega
    have hnext : index + 1 = swarm.processes.length := by omega
    have hticket := List.getElem?_eq_getElem hindex
    have hunused : swarm.tickets[index] ∈ swarm.unused := by
      rw [Swarm.unused, List.drop_eq_getElem_cons hindex]
      exact List.mem_cons_self
    obtain ⟨record, hrecord, hsame⟩ := (sharing.tickets _ hunused).1.seed
    obtain ⟨number, hnumber⟩ := sharing.ported _ _ hrecord
    have hport : swarm.tickets[index].seed.syncPort = .port number := hsame.symm.trans hnumber
    have hstep : swarm.next (.join index) = some { swarm with
        processes := swarm.processes ++ [joined swarm.tickets[index] number] } := by
      simp [Swarm.next, hticket, hport]
    refine ⟨_, _, Run.single ?_ hstep, sharing.starts hticket hnext hport,
      flushed.next hstep, ?_, rfl, fun _ hless => (by cases hless)⟩
    · exact ⟨hnext, rfl⟩
    · simp only [List.length_append, List.length_singleton]
      omega

theorem Retiring.next {leaver : Address} (retiring : Retiring top last leaver swarm)
    {label : SwarmLabel} {after : Swarm} (drains : label.drains = true)
    (step : swarm.next label = some after) : Retiring top last leaver after := by
  cases label with
  | deliver receiver sender =>
      obtain ⟨process, hprocess, step⟩ := Option.bind_eq_some_iff.mp step
      obtain ⟨⟨msg, rest⟩, htaken, step⟩ := Option.bind_eq_some_iff.mp step
      dsimp only at step
      split at step
      · rename_i hguard
        cases step
        exact retiring.deliver hprocess hguard.1 htaken
      · cases step
  | stop index =>
      obtain ⟨process, hprocess, step⟩ := Option.bind_eq_some_iff.mp step
      split at step
      · rename_i hleaving
        cases step
        exact retiring.stops hprocess hleaving
      · cases step
  | welcome | join | onboard | publishOwn | lose | depart => cases drains

theorem Retiring.settles {leaver : Address} (retiring : Retiring top last leaver swarm)
    (flushed : Flushed swarm) :
    ∃ after, Run Swarm.next Swarm.Finishing swarm after ∧ Retiring top last leaver after ∧
      Idle after := by
  obtain ⟨calm, hrun, hretiring, -, hrest⟩ := flushed.drained (Retiring top last leaver) retiring
    fun _ _ _ hbefore hdrains hstep => hbefore.next hdrains hstep
  refine ⟨calm, hrun, hretiring, fun process hmem hup => ?_, hretiring.joined⟩
  cases hphase : process.phase with
  | running =>
      obtain ⟨hplaced, hhears⟩ := hretiring.members process hmem hphase
      have hinbox := inbox_of_drained hrest hmem hup hplaced.listening
      cases hhears with
      | waits holds connected pending => exact ⟨holds.serves, hinbox⟩
      | done holds empty => exact ⟨holds.serves, empty⟩
  | leaving =>
      obtain ⟨index, hindex⟩ := List.mem_iff_getElem?.mp hmem
      have hnone := hrest (.stop index) rfl
      simp [Swarm.next, hindex, hphase] at hnone
  | stopped => exact absurd hphase hup

def Swarm.Expected (swarm : Swarm) (ip : Ip) : Prop :=
  swarm.Runs ip ∨ ∃ ticket ∈ swarm.unused, ticket.config.ip = ip

theorem Growing.settles (growing : Growing swarm) (flushed : Flushed swarm)
    (populated : 0 < swarm.processes.length) :
    ∃ after version peers, Run Swarm.next Swarm.Finishing swarm after ∧ Idle after ∧
      Rest version peers after ∧ ∀ ip, ip ∈ peers ↔ swarm.Expected ip := by
  cases growing with
  | sharing sharing =>
      obtain ⟨mid, size, hbegins, hclosing⟩ := sharing.begins flushed populated
      obtain ⟨after, hsettles, hsharing, hidle⟩ := hclosing.settles
      exact ⟨after, _, _, hbegins.trans hsettles, hidle, hsharing.rest hidle, sharing.listed⟩
  | retiring retiring =>
      obtain ⟨after, hsettles, hretiring, hidle⟩ := retiring.settles flushed
      have hused : swarm.unused = [] :=
        List.drop_eq_nil_of_le (by have hjoined := retiring.joined; omega)
      refine ⟨after, _, _, hsettles, hidle, hretiring.rest hidle, fun ip => ?_⟩
      rw [retiring.listed ip, Swarm.Expected, hused]
      simp

theorem populated_next {label : SwarmLabel} {after : Swarm}
    (populated : 0 < swarm.processes.length) (step : swarm.next label = some after) :
    0 < after.processes.length := by
  obtain ⟨later, hlater, -⟩ := (Swarm.stepped_of_next step).member
    (List.getElem?_eq_getElem populated)
  exact (List.getElem?_eq_some_iff.mp hlater).1

/-- Wherever a patient run from one founder has led, what is under way can be finished: some
run of starts, requests, deliveries and stops leads to an idle swarm, where exactly those are
up that run now or were admitted, with one view and connected to each other. -/
theorem mq_growth_settles {config : Config} {swarm : Swarm}
    (run : Run Swarm.next Swarm.Patient (.founded [config]) swarm) :
    ∃ after version peers, Run Swarm.next Swarm.Finishing swarm after ∧ Idle after ∧
      Complete version peers after ∧ ∀ ip, ip ∈ peers ↔ swarm.Expected ip := by
  have hgrowing : Growing swarm := run.invariant Growing (.founded config)
    (fun _ _ _ _ growing patient step => growing.next patient step)
  have hflushed : Flushed swarm := by
    refine run.invariant Flushed ?_ fun _ _ _ _ hbefore _ hstep => hbefore.next hstep
    intro process hprocess
    rw [List.mem_singleton.mp hprocess]
    rfl
  have hpopulated : 0 < swarm.processes.length :=
    run.invariant (fun swarm => 0 < swarm.processes.length) Nat.zero_lt_one
      (fun _ _ _ _ hbefore _ hstep => populated_next hbefore hstep)
  obtain ⟨after, version, peers, hsettles, hidle, hrest, hlisted⟩ :=
    hgrowing.settles hflushed hpopulated
  exact ⟨after, version, peers, hsettles, hidle, hrest.complete, hlisted⟩

theorem mq_growth_settles_admitted :
    ∃ swarm : Swarm, (swarm.processes.map fun process => process.inbox.length) = [1, 0] ∧
      (swarm.unused.map fun ticket => ticket.config) = [thirdConfig] ∧
      ∃ after version peers, Run Swarm.next Swarm.Finishing swarm after ∧ Idle after ∧
        Complete version peers after ∧ ∀ ip, ip ∈ peers ↔ swarm.Expected ip := by
  have hreplay : (replay Swarm.next (fun swarm label => decide (swarm.Patient label))
      (.founded [firstConfig]) (comesBack.take 6)).any (fun swarm =>
        (swarm.processes.map fun process => process.inbox.length) = [1, 0] &&
          (swarm.unused.map fun ticket => ticket.config) = [thirdConfig]) = true := by
    decide +kernel
  obtain ⟨swarm, hrun, hfound⟩ := reached_of_replay (fun _ _ h => of_decide_eq_true h) hreplay
  simp only [Bool.and_eq_true, decide_eq_true_eq] at hfound
  exact ⟨swarm, hfound.1, hfound.2, mq_growth_settles hrun⟩

end WgBp.Mq
