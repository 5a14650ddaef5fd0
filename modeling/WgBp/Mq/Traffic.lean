import Mathlib.Tactic.Ring
import WgBp.Library.Cascade
import WgBp.Mq.Response
import WgBp.Mq.Survival

/-! Traffic dies out. A node answers only what is older than its own state or asks for
it, and answers with its state; so every answer is newer than what it answers, and no
version is ever above the ones around by more than the departures still to be counted. -/
namespace WgBp.Mq

open WgBp.Library WgBp.Library.Procedure WgBp.Library.Mailbox WgBp.Library.Transition
open WgBp.Library.Cascade WgBp.Model
open WgBp.Gossip (Config Ticket OwnEdit)

inductive Process.Acts (index : Nat) (process : Process) : SwarmLabel → Process → Prop where
  | admits {joiner : Config} (serves : process.serves = true)
      (new : joiner.ip ∉ process.node.state.peers) (foreign : joiner.ip ≠ process.node.state.ip) :
      Acts index process (.welcome index joiner)
        { process with node := admitted process.node joiner }
  | asks : Acts index process (.onboard index)
      { process with node := handOver process.node .onboardNotice }
  | edits {edit : OwnEdit} {state : State} (edited : edit.apply process.node.state = some state)
      (serves : process.serves = true) :
      Acts index process (.publishOwn index edit)
        { process with node := publishChange { process.node with state } state.ownChange }
  | hears {sender : Nat} {msg : Msg} {rest : List (Nat × Msg)}
      (taken : take process.inbox sender = some (msg, rest))
      (listening : process.listening = true) :
      Acts index process (.deliver index sender) (process.receive msg rest)
  | departs (serves : process.serves = true) :
      Acts index process (.depart index)
        { process with node := publishLastMessage process.node, phase := .leaving }

def Process.Issues (index : Nat) (process : Process) (label : SwarmLabel) (ticket : Ticket) :
    Prop :=
  label = .welcome index ticket.config ∧ ticket.bootstrap = interfaceOf process.node ∧
    process.node.sync.peers.lookup process.node.state.ip = some ticket.seed

/-- Every step: a process acts, one is started, or one loses a message or stops. -/
inductive Swarm.Stepped (swarm : Swarm) (label : SwarmLabel) : Swarm → Prop where
  | acts {index : Nat} {process acting : Process} {tickets : List Ticket}
      (member : swarm.processes[index]? = some process)
      (does : process.Acts index label acting)
      (issued : ∀ ticket ∈ tickets, ticket ∈ swarm.tickets ∨ process.Issues index label ticket) :
      Stepped swarm label { swarm.act index acting with tickets }
  | starts {index number : Nat} {ticket : Ticket} (isJoin : label = .join index)
      (issued : ticket ∈ swarm.tickets) (port : ticket.seed.syncPort = .port number) :
      Stepped swarm label { swarm with processes := swarm.processes ++ [joined ticket number] }
  | loses {index sender : Nat} {process : Process} {msg : Msg} {rest : List (Nat × Msg)}
      (member : swarm.processes[index]? = some process)
      (taken : take process.inbox sender = some (msg, rest))
      (isLose : label = .lose index sender) :
      Stepped swarm label
        { swarm with processes := swarm.processes.set index { process with inbox := rest } }
  | stops {index : Nat} {process : Process} (member : swarm.processes[index]? = some process)
      (leaving : process.phase = .leaving) :
      Stepped swarm label
        { swarm with processes := swarm.processes.set index { process with phase := .stopped } }

theorem Swarm.stepped_of_next {swarm after : Swarm} {label : SwarmLabel}
    (step : swarm.next label = some after) : swarm.Stepped label after := by
  cases label with
  | welcome index joiner =>
      obtain ⟨process, hprocess, step⟩ := Option.bind_eq_some_iff.mp step
      obtain ⟨seed, hseed, step⟩ := Option.bind_eq_some_iff.mp step
      split at step
      · rename_i hguard
        cases step
        refine .acts hprocess (.admits hguard.1 hguard.2.1 hguard.2.2) ?_
        intro ticket hticket
        rcases List.mem_append.mp hticket with hold | hnew
        · exact .inl hold
        · rw [List.mem_singleton.mp hnew]
          exact .inr ⟨rfl, rfl, hseed⟩
      · cases step
  | join ticket =>
      obtain ⟨issued, hissued, step⟩ := Option.bind_eq_some_iff.mp step
      split at step
      · rename_i number hport
        cases step
        exact .starts rfl (List.mem_of_getElem? hissued) hport
      · cases step
  | onboard index =>
      obtain ⟨process, hprocess, step⟩ := Option.bind_eq_some_iff.mp step
      split at step
      · cases step
        exact .acts hprocess .asks fun _ h => .inl h
      · cases step
  | publishOwn index edit =>
      obtain ⟨process, hprocess, step⟩ := Option.bind_eq_some_iff.mp step
      obtain ⟨state, hstate, step⟩ := Option.bind_eq_some_iff.mp step
      split at step
      · rename_i hserves
        cases step
        exact .acts hprocess (.edits hstate hserves) fun _ h => .inl h
      · cases step
  | deliver receiver sender =>
      obtain ⟨process, hprocess, step⟩ := Option.bind_eq_some_iff.mp step
      obtain ⟨⟨msg, rest⟩, htaken, step⟩ := Option.bind_eq_some_iff.mp step
      dsimp only at step
      split at step
      · rename_i hguard
        cases step
        exact .acts hprocess (.hears htaken hguard.2) fun _ h => .inl h
      · cases step
  | lose receiver sender =>
      obtain ⟨process, hprocess, step⟩ := Option.bind_eq_some_iff.mp step
      obtain ⟨⟨msg, rest⟩, htaken, step⟩ := Option.bind_eq_some_iff.mp step
      cases step
      exact .loses hprocess htaken rfl
  | depart index =>
      obtain ⟨process, hprocess, step⟩ := Option.bind_eq_some_iff.mp step
      split at step
      · rename_i hserves
        cases step
        exact .acts hprocess (.departs hserves) fun _ h => .inl h
      · cases step
  | stop index =>
      obtain ⟨process, hprocess, step⟩ := Option.bind_eq_some_iff.mp step
      split at step
      · rename_i hleaving
        cases step
        exact .stops hprocess hleaving
      · cases step

/-- The longest chain of answers that a message can set off. -/
def Msg.rank (top : Nat) (msg : Msg) : Nat :=
  match msg.body with
  | .stateUpdate version _ => top - version
  | .departureNotice _ => 0
  | .onboardNotice => top + 1

theorem rank_asking {msg : Msg} (asks : msg.announcesDeparture = false) {top version : Nat}
    (le : version ≤ top) (older : ∀ other, msg.carried = some other → other < version) :
    top - version < msg.rank top := by
  cases hbody : msg.body with
  | stateUpdate other peers =>
      have holder := older other (by simp [Msg.carried, hbody])
      simp only [Msg.rank, hbody]
      omega
  | departureNotice virtualIp => simp [Msg.announcesDeparture, hbody] at asks
  | onboardNotice =>
      simp only [Msg.rank, hbody]
      omega

structure Answers (top : Nat) (node : MqNode) (msg : Msg) (after : MqNode) : Prop where
  single : after.sync.pub.length ≤ 1
  states : ∀ answer ∈ after.sync.pub, answer.announcesDeparture = false ∧
    answer.carried = some node.sync.version ∧ answer.rank top < msg.rank top
  version : after.sync.version = node.sync.version ∨
    msg.carried = some after.sync.version ∨
    msg.announcesDeparture = true ∧ after.sync.version = node.sync.version + 1

theorem answers {node : MqNode} (flushed : node.sync.pub = []) (msg : Msg) {top : Nat}
    (le : node.sync.version ≤ top) :
    Answers top node msg (final ((listenForUpdates msg).run node)) := by
  have hsilent {after : MqNode} (hpub : after.sync.pub = node.sync.pub) :
      after.sync.pub = [] := hpub.trans flushed
  cases responds node msg with
  | ignores counted =>
      have hpub := hsilent counted.2
      exact ⟨by simp [hpub], by simp [hpub], .inl counted.1⟩
  | adopts carried newer counted =>
      have hpub := hsilent counted.2
      exact ⟨by simp [hpub], by simp [hpub], .inr (.inl (counted.1.symm ▸ carried))⟩
  | counts notice counted =>
      have hpub := hsilent counted.2
      exact ⟨by simp [hpub], by simp [hpub], .inr (.inr ⟨notice, counted.1⟩)⟩
  | replies asks older published =>
      rw [published]
      have hpub : (publishState node).sync.pub =
          [update (address node) node.sync.version node.sync.peers] := by
        simp [publishState, handOver, flushed, update]
      refine ⟨by simp [hpub], ?_, .inl rfl⟩
      intro answer hanswer
      rw [hpub, List.mem_singleton] at hanswer
      subst hanswer
      exact ⟨rfl, rfl, rank_asking asks le older⟩

def Process.mail (process : Process) : List Msg := process.inbox.map Prod.snd

def Process.load (fan top : Nat) (process : Process) : Nat :=
  Cascade.load fan (process.mail.map (Msg.rank top))

def Process.notices (process : Process) : Nat := process.mail.countP Msg.announcesDeparture

def Process.versions (process : Process) : List Nat :=
  process.node.sync.version :: process.mail.filterMap Msg.carried

def Process.isIn (phase : Phase) (process : Process) : Nat :=
  if process.phase = phase then 1 else 0

def Swarm.total (swarm : Swarm) (count : Process → Nat) : Nat :=
  ∑ index ∈ Finset.range swarm.processes.length, (swarm.processes[index]?).elim 0 count

def Swarm.rises (swarm : Swarm) : Nat :=
  swarm.total Process.notices + swarm.processes.length * swarm.total (Process.isIn .running)

def Swarm.top (swarm : Swarm) : Nat :=
  (swarm.processes.flatMap Process.versions).max?.getD 0 + swarm.rises

def Swarm.effort (fan top : Nat) (swarm : Swarm) : Nat :=
  swarm.total (Process.load fan top) + (fan + 1) * swarm.total (Process.isIn .running) +
    swarm.total (Process.isIn .leaving)

/-- A bound on what is left to do once nobody joins, asks to be onboarded or publishes. -/
def Swarm.traffic (swarm : Swarm) : Nat := swarm.effort swarm.processes.length swarm.top

variable {swarm : Swarm} {process : Process} {index : Nat}

@[simp] theorem act_length (swarm : Swarm) (index : Nat) (acting : Process) :
    (swarm.act index acting).processes.length = swarm.processes.length := by
  simp [Swarm.act]

theorem total_act_le (member : swarm.processes[index]? = some process) (acting : Process)
    (count : Process → Nat) (extra : Nat)
    (flat : count { acting with node := flush acting.node } = count acting)
    (hears : ∀ other ∈ swarm.processes,
      count (other.hear index acting.node) ≤ count other + extra) :
    (swarm.act index acting).total count + count process + extra ≤
      swarm.total count + count acting + swarm.processes.length * extra := by
  have hmem : index ∈ Finset.range swarm.processes.length :=
    Finset.mem_range.mpr (List.getElem?_eq_some_iff.mp member).1
  have hstep := sum_step_le (fun other => (swarm.processes[other]?).elim 0 count)
    (fun other => ((swarm.act index acting).processes[other]?).elim 0 count) hmem extra
    (by
      intro other hother hne
      have hlookup : (swarm.act index acting).processes[other]? =
          (swarm.processes[other]?).map fun existing => existing.hear index acting.node := by
        simp [Swarm.act, hne]
      rw [hlookup]
      cases hfound : swarm.processes[other]? with
      | none => simp
      | some existing => exact hears existing (List.mem_of_getElem? hfound))
  have hself : (swarm.act index acting).processes[index]? =
      some { acting with node := flush acting.node } := by
    simp [Swarm.act, member]
  rw [Finset.card_range] at hstep
  unfold Swarm.total
  rw [act_length]
  simpa [hself, member, flat] using hstep

theorem total_set (member : swarm.processes[index]? = some process) (changed : Process)
    (count : Process → Nat) :
    Swarm.total { swarm with processes := swarm.processes.set index changed } count +
      count process ≤ swarm.total count + count changed := by
  obtain ⟨hindex, hprocess⟩ := List.getElem?_eq_some_iff.mp member
  have hstep := sum_step_le (fun other => (swarm.processes[other]?).elim 0 count)
    (fun other => ((swarm.processes.set index changed)[other]?).elim 0 count)
    (Finset.mem_range.mpr hindex) 0
    (by
      intro other _ hne
      rw [List.getElem?_set_ne hne.symm]
      exact Nat.le_refl _)
  unfold Swarm.total
  simpa [hprocess, hindex] using hstep

@[simp] theorem Process.hear_phase (existing : Process) (publisher : Nat) (source : MqNode) :
    (existing.hear publisher source).phase = existing.phase := by
  unfold Process.hear
  split <;> rfl

@[simp] theorem Process.hear_node (existing : Process) (publisher : Nat) (source : MqNode) :
    (existing.hear publisher source).node = existing.node := by
  unfold Process.hear
  split <;> rfl

theorem Process.hear_mail (existing : Process) (publisher : Nat) (source : MqNode) :
    ∃ heard, (existing.hear publisher source).mail = existing.mail ++ heard ∧
      (heard = [] ∨ heard = source.sync.pub) := by
  unfold Process.hear
  split
  · refine ⟨source.sync.pub, ?_, .inr rfl⟩
    simp [Process.mail, Function.comp_def]
  · exact ⟨[], by simp, .inl rfl⟩

@[simp] theorem Process.isIn_hear (phase : Phase) (existing : Process) (publisher : Nat)
    (source : MqNode) : (existing.hear publisher source).isIn phase = existing.isIn phase := by
  unfold Process.isIn
  rw [Process.hear_phase]

theorem mail_taken {inbox rest : List (Nat × Msg)} {sender : Nat} {msg : Msg}
    (taken : take inbox sender = some (msg, rest)) :
    (inbox.map Prod.snd).Perm (msg :: rest.map Prod.snd) := by
  obtain ⟨earlier, later, hinbox, hrest, -⟩ := take_split taken
  rw [hinbox, hrest, List.map_append, List.map_append, List.map_cons]
  exact List.perm_middle

structure Paced (fan top : Nat) (swarm : Swarm) : Prop where
  size : swarm.processes.length = fan
  flushed : ∀ process ∈ swarm.processes, process.node.sync.pub = []
  below : ∀ process ∈ swarm.processes, ∀ version ∈ process.versions, version + swarm.rises ≤ top

variable {fan top : Nat}

theorem Paced.node_le (paced : Paced fan top swarm)
    (member : swarm.processes[index]? = some process) :
    process.node.sync.version + swarm.rises ≤ top :=
  paced.below process (List.mem_of_getElem? member) _ (by simp [Process.versions])

theorem Paced.hear_versions (paced : Paced fan top swarm) {existing : Process}
    (mem : existing ∈ swarm.processes) {publisher : Nat} {source : MqNode}
    (states : ∀ msg ∈ source.sync.pub, ∀ version, msg.carried = some version →
      version + swarm.rises ≤ top) :
    ∀ version ∈ (existing.hear publisher source).versions, version + swarm.rises ≤ top := by
  obtain ⟨heard, hmail, hheard⟩ := existing.hear_mail publisher source
  intro version hversion
  rw [Process.versions, Process.hear_node, hmail, List.filterMap_append, ← List.cons_append,
    List.mem_append] at hversion
  rcases hversion with hold | hnew
  · exact paced.below existing mem version hold
  · obtain ⟨msg, hmsg, hcarried⟩ := List.mem_filterMap.mp hnew
    rcases hheard with rfl | rfl
    · cases hmsg
    · exact states msg hmsg version hcarried

theorem Paced.act (paced : Paced fan top swarm) {acting : Process}
    (rises : (swarm.act index acting).rises ≤ swarm.rises)
    (own : ∀ version ∈ acting.versions, version + (swarm.act index acting).rises ≤ top)
    (states : ∀ msg ∈ acting.node.sync.pub, ∀ version, msg.carried = some version →
      version + swarm.rises ≤ top) :
    Paced fan top (swarm.act index acting) := by
  refine ⟨(act_length _ _ _).trans paced.size, ?_, ?_⟩
  · intro member hmember
    obtain ⟨other, hother, rfl⟩ := List.mem_mapIdx.mp hmember
    split
    · rfl
    · rw [Process.hear_node]
      exact paced.flushed _ (List.getElem_mem hother)
  · intro member hmember version hversion
    obtain ⟨other, hother, rfl⟩ := List.mem_mapIdx.mp hmember
    split at hversion
    · exact own version hversion
    · have hle := paced.hear_versions (List.getElem_mem hother) states version hversion
      omega

theorem total_act_phase (member : swarm.processes[index]? = some process) (acting : Process)
    (same : acting.phase = process.phase) (phase : Phase) :
    (swarm.act index acting).total (Process.isIn phase) ≤ swarm.total (Process.isIn phase) := by
  have hle := total_act_le member acting (Process.isIn phase) 0 rfl
    (fun other _ => (other.isIn_hear phase _ _).le)
  have hsame : acting.isIn phase = process.isIn phase := by
    simp [Process.isIn, same]
  omega

theorem notices_hear {source : MqNode} {extra : Nat}
    (few : source.sync.pub.countP Msg.announcesDeparture ≤ extra) (existing : Process)
    (publisher : Nat) :
    (existing.hear publisher source).notices ≤ existing.notices + extra := by
  obtain ⟨heard, hmail, hheard⟩ := existing.hear_mail publisher source
  unfold Process.notices
  rw [hmail, List.countP_append]
  rcases hheard with rfl | rfl
  · simp
  · omega

theorem Answers.load_hear {node after : MqNode} {msg : Msg} (answers : Answers top node msg after)
    (existing : Process) (publisher fan : Nat) :
    (existing.hear publisher after).load fan top ≤
      existing.load fan top + share fan (msg.rank top) := by
  obtain ⟨heard, hmail, hheard⟩ := existing.hear_mail publisher after
  have hhears : Hears (msg.rank top) (existing.mail.map (Msg.rank top))
      ((existing.hear publisher after).mail.map (Msg.rank top)) (heard.map (Msg.rank top)) := by
    refine ⟨by rw [hmail, List.map_append], ?_, ?_⟩
    · rcases hheard with rfl | rfl
      · simp
      · simpa using answers.single
    · intro rank hrank
      obtain ⟨answer, hanswer, rfl⟩ := List.mem_map.mp hrank
      rcases hheard with rfl | rfl
      · cases hanswer
      · exact (answers.states answer hanswer).2.2
  exact hhears.load_le fan

theorem Paced.deliver (paced : Paced fan top swarm) {receiver sender : Nat} {msg : Msg}
    {rest : List (Nat × Msg)} (member : swarm.processes[receiver]? = some process)
    (taken : take process.inbox sender = some (msg, rest)) :
    Paced fan top (swarm.act receiver (process.receive msg rest)) ∧
      (swarm.act receiver (process.receive msg rest)).effort fan top < swarm.effort fan top := by
  have hmem := List.mem_of_getElem? member
  have hnode := paced.node_le member
  have hanswers : Answers top process.node msg (process.receive msg rest).node :=
    answers (paced.flushed process hmem) msg (by omega)
  have hperm : process.mail.Perm (msg :: rest.map Prod.snd) := mail_taken taken
  have hrunning := total_act_phase member (process.receive msg rest) rfl .running
  have hleaving := total_act_phase member (process.receive msg rest) rfl .leaving
  have hnotices := total_act_le member (process.receive msg rest) Process.notices 0
    rfl (fun other _ => notices_hear (by
      refine (List.countP_eq_zero.mpr ?_).le
      intro answer hanswer
      simp [(hanswers.states answer hanswer).1]) other _)
  have hcounted : process.notices =
      (if msg.announcesDeparture then 1 else 0) + (rest.map Prod.snd).countP
        Msg.announcesDeparture := by
    unfold Process.notices
    rw [hperm.countP_eq, List.countP_cons]
    split <;> omega
  have hkept : (process.receive msg rest).notices =
      (rest.map Prod.snd).countP Msg.announcesDeparture := rfl
  have hrises : (swarm.act receiver (process.receive msg rest)).rises +
      (if msg.announcesDeparture then 1 else 0) ≤ swarm.rises := by
    have hproduct := Nat.mul_le_mul_left swarm.processes.length hrunning
    unfold Swarm.rises
    rw [act_length]
    omega
  constructor
  · refine paced.act (by omega) ?_ ?_
    · intro version hversion
      have hcases : version = (process.receive msg rest).node.sync.version ∨
          version ∈ process.versions := by
        rcases List.mem_cons.mp hversion with hown | hmail
        · exact .inl hown
        · obtain ⟨other, hother, hcarried⟩ := List.mem_filterMap.mp hmail
          refine .inr (List.mem_cons_of_mem _ (List.mem_filterMap.mpr ⟨other, ?_, hcarried⟩))
          exact hperm.mem_iff.mpr (List.mem_cons_of_mem _ hother)
      rcases hcases with rfl | hold
      · rcases hanswers.version with hsame | hcarried | ⟨hnotice, hnext⟩
        · omega
        · have hle := paced.below process hmem _ (List.mem_cons_of_mem _
            (List.mem_filterMap.mpr ⟨msg, hperm.mem_iff.mpr (by simp), hcarried⟩))
          omega
        · rw [if_pos hnotice] at hrises
          omega
      · have hle := paced.below process hmem version hold
        omega
    · intro answer hanswer version hcarried
      rw [(hanswers.states answer hanswer).2.1, Option.some.injEq] at hcarried
      omega
  · have hload := total_act_le member (process.receive msg rest) (Process.load fan top)
      (share fan (msg.rank top)) rfl (fun other _ => hanswers.load_hear other receiver fan)
    have hloaded : process.load fan top =
        weight fan (msg.rank top) + Cascade.load fan ((rest.map Prod.snd).map (Msg.rank top)) := by
      unfold Process.load
      rw [load_perm fan (hperm.map (Msg.rank top)), List.map_cons, load_cons]
    have hleft : (process.receive msg rest).load fan top =
        Cascade.load fan ((rest.map Prod.snd).map (Msg.rank top)) := rfl
    have hshare := share_lt fan (msg.rank top)
    have hproduct := Nat.mul_le_mul_left (fan + 1) hrunning
    rw [paced.size] at hload
    unfold Swarm.effort
    omega

theorem Paced.depart (paced : Paced fan top swarm)
    (member : swarm.processes[index]? = some process) (running : process.phase = .running) :
    let leaving := { process with node := publishLastMessage process.node, phase := .leaving }
    Paced fan top (swarm.act index leaving) ∧
      (swarm.act index leaving).effort fan top < swarm.effort fan top := by
  intro leaving
  have hmem := List.mem_of_getElem? member
  have hpub : leaving.node.sync.pub =
      [⟨address process.node, .departureNotice process.node.state.ip⟩] := by
    simp [leaving, publishLastMessage, handOver, paced.flushed process hmem]
  have hnotices := total_act_le member leaving Process.notices 1 rfl
    (fun other _ => notices_hear (by simp [hpub, Msg.announcesDeparture]) other _)
  have hload := total_act_le member leaving (Process.load fan top) 1 rfl (by
    intro other _
    obtain ⟨heard, hmail, hheard⟩ := other.hear_mail index leaving.node
    unfold Process.load
    rw [hmail, List.map_append, load_append]
    rcases hheard with rfl | rfl
    · simp
    · simp [hpub, Msg.rank, weight])
  have hrunning := total_act_le member leaving (Process.isIn .running) 0 rfl
    (fun other _ => (other.isIn_hear _ _ _).le)
  have hleaving := total_act_le member leaving (Process.isIn .leaving) 0 rfl
    (fun other _ => (other.isIn_hear _ _ _).le)
  have hwasRunning : process.isIn .running = 1 := by simp [Process.isIn, running]
  have hnotRunning : leaving.isIn .running = 0 := rfl
  have hisLeaving : leaving.isIn .leaving = 1 := rfl
  have hsameNotices : leaving.notices = process.notices := rfl
  have hsameLoad : leaving.load fan top = process.load fan top := rfl
  rw [paced.size] at hnotices hload hrunning hleaving
  have hfewer : (swarm.act index leaving).total (Process.isIn .running) + 1 ≤
      swarm.total (Process.isIn .running) := by
    omega
  have hproduct := Nat.mul_le_mul_left fan hfewer
  rw [Nat.mul_add, Nat.mul_one] at hproduct
  constructor
  · have hrises : (swarm.act index leaving).rises ≤ swarm.rises := by
      unfold Swarm.rises
      rw [act_length, paced.size]
      omega
    refine paced.act hrises ?_ ?_
    · intro version hversion
      have hle := paced.below process hmem version hversion
      omega
    · intro msg hmsg version hcarried
      rw [hpub, List.mem_singleton] at hmsg
      subst hmsg
      cases hcarried
  · unfold Swarm.effort
    rw [Nat.add_mul, Nat.add_mul, Nat.one_mul, Nat.one_mul]
    omega

theorem Paced.set (paced : Paced fan top swarm) {changed : Process}
    (member : swarm.processes[index]? = some process) (same : changed.node = process.node)
    (mail : changed.mail.Sublist process.mail)
    (phase : changed.isIn .running ≤ process.isIn .running)
    (less : changed.load fan top + changed.isIn .leaving <
      process.load fan top + process.isIn .leaving) :
    Paced fan top { swarm with processes := swarm.processes.set index changed } ∧
      Swarm.effort fan top { swarm with processes := swarm.processes.set index changed } <
        swarm.effort fan top := by
  have hmem := List.mem_of_getElem? member
  have hnotices := total_set member changed Process.notices
  have hfewer : changed.notices ≤ process.notices := mail.countP_le
  have hrunning := total_set member changed (Process.isIn .running)
  have hload := total_set member changed (Process.load fan top)
  have hleaving := total_set member changed (Process.isIn .leaving)
  have hstill : Swarm.total { swarm with processes := swarm.processes.set index changed }
      (Process.isIn .running) ≤ swarm.total (Process.isIn .running) := by
    omega
  have hrises : Swarm.rises { swarm with processes := swarm.processes.set index changed } ≤
      swarm.rises := by
    have hproduct := Nat.mul_le_mul_left swarm.processes.length hstill
    unfold Swarm.rises
    rw [List.length_set]
    omega
  refine ⟨⟨by rw [List.length_set, paced.size], ?_, ?_⟩, ?_⟩
  · intro other hother
    rcases List.mem_or_eq_of_mem_set hother with hold | rfl
    · exact paced.flushed other hold
    · rw [same]
      exact paced.flushed process hmem
  · intro other hother version hversion
    have hknown : ∃ known ∈ swarm.processes, version ∈ known.versions := by
      rcases List.mem_or_eq_of_mem_set hother with hold | rfl
      · exact ⟨other, hold, hversion⟩
      · refine ⟨process, hmem, ?_⟩
        unfold Process.versions at hversion ⊢
        rw [same] at hversion
        exact ((mail.filterMap Msg.carried).cons_cons _).subset hversion
    obtain ⟨known, hknown, hversion⟩ := hknown
    have hle := paced.below known hknown version hversion
    omega
  · have hproduct := Nat.mul_le_mul_left (fan + 1) hstill
    unfold Swarm.effort
    omega

/-- Nobody joins, asks to be onboarded or publishes a change any more. -/
def SwarmLabel.settles : SwarmLabel → Bool
  | .deliver _ _ => true
  | .lose _ _ => true
  | .depart _ => true
  | .stop _ => true
  | _ => false

def SwarmLabel.delivers : SwarmLabel → Bool
  | .deliver _ _ => true
  | _ => false

theorem SwarmLabel.settles_of_delivers {label : SwarmLabel} (delivers : label.delivers = true) :
    label.settles = true := by
  cases label <;> first | rfl | cases delivers

theorem Process.load_taken {sender : Nat} {msg : Msg} {rest : List (Nat × Msg)}
    (taken : take process.inbox sender = some (msg, rest)) (fan top : Nat) :
    Process.load fan top { process with inbox := rest } < process.load fan top := by
  have hperm : process.mail.Perm (msg :: rest.map Prod.snd) := mail_taken taken
  have hpositive := weight_pos fan (msg.rank top)
  unfold Process.load
  rw [load_perm fan (hperm.map (Msg.rank top)), List.map_cons, load_cons]
  exact Nat.lt_add_of_pos_left hpositive

theorem Process.mail_lost {sender : Nat} {msg : Msg} {rest : List (Nat × Msg)}
    (taken : take process.inbox sender = some (msg, rest)) :
    Process.mail { process with inbox := rest } |>.Sublist process.mail := by
  obtain ⟨earlier, later, hinbox, hrest, -⟩ := take_split taken
  have hsub : rest.Sublist process.inbox := by
    rw [hinbox, hrest]
    exact (List.Sublist.refl earlier).append (List.sublist_cons_self _ later)
  exact hsub.map Prod.snd

theorem Paced.next (paced : Paced fan top swarm) {label : SwarmLabel} {after : Swarm}
    (settles : label.settles = true) (step : swarm.next label = some after) :
    Paced fan top after ∧ after.effort fan top < swarm.effort fan top := by
  cases Swarm.stepped_of_next step with
  | acts member does issued =>
      cases does with
      | admits | asks | edits => cases settles
      | hears taken listening =>
          obtain ⟨hpaced, hless⟩ := paced.deliver member taken
          exact ⟨⟨hpaced.size, hpaced.flushed, hpaced.below⟩, hless⟩
      | departs serves =>
          simp only [Process.serves, decide_eq_true_eq] at serves
          obtain ⟨hpaced, hless⟩ := paced.depart member serves.1
          exact ⟨⟨hpaced.size, hpaced.flushed, hpaced.below⟩, hless⟩
  | starts isJoin issued port =>
      subst isJoin
      cases settles
  | loses member taken isLose =>
      have hlower := Process.load_taken taken fan top
      exact paced.set member rfl (Process.mail_lost taken) (Nat.le_refl _)
        (Nat.add_lt_add_right hlower _)
  | stops member leaving =>
      rename_i index process
      have hwas : process.isIn .leaving = 1 := by simp [Process.isIn, leaving]
      refine paced.set member rfl (List.Sublist.refl _) (Nat.zero_le _) ?_
      rw [hwas]
      exact Nat.lt_succ_self _

def Flushed (swarm : Swarm) : Prop := ∀ process ∈ swarm.processes, process.node.sync.pub = []

theorem Flushed.act (flushed : Flushed swarm) (index : Nat) (acting : Process) :
    Flushed (swarm.act index acting) := by
  intro member hmember
  obtain ⟨other, hother, rfl⟩ := List.mem_mapIdx.mp hmember
  split
  · rfl
  · rw [Process.hear_node]
    exact flushed _ (List.getElem_mem hother)

theorem Flushed.set (flushed : Flushed swarm) (member : swarm.processes[index]? = some process)
    {changed : Process} (same : changed.node = process.node) :
    Flushed { swarm with processes := swarm.processes.set index changed } := by
  intro other hother
  rcases List.mem_or_eq_of_mem_set hother with hold | rfl
  · exact flushed other hold
  · rw [same]
    exact flushed process (List.mem_of_getElem? member)

@[simp] theorem joined_flushed (ticket : Gossip.Ticket) (number : Nat) :
    (joined ticket number).node.sync.pub = [] := (connected_connects _ _).pub

theorem Flushed.next (flushed : Flushed swarm) {label : SwarmLabel} {after : Swarm}
    (step : swarm.next label = some after) : Flushed after := by
  cases Swarm.stepped_of_next step with
  | acts member does issued => exact flushed.act _ _
  | starts isJoin issued port =>
      intro member hmember
      rcases List.mem_append.mp hmember with hold | hnew
      · exact flushed member hold
      · rw [List.mem_singleton.mp hnew]
        exact joined_flushed _ _
  | loses member taken isLose => exact flushed.set member rfl
  | stops member leaving => exact flushed.set member rfl

theorem Flushed.paced (flushed : Flushed swarm) :
    Paced swarm.processes.length swarm.top swarm where
  size := rfl
  flushed := flushed
  below := by
    intro process hprocess version hversion
    have hmem : version ∈ swarm.processes.flatMap Process.versions :=
      List.mem_flatMap.mpr ⟨process, hprocess, hversion⟩
    exact Nat.add_le_add_right (List.le_max?_getD_of_mem hmem) _

/-- Whatever came before: once nobody joins, asks or publishes, only so many steps are
left in any order, and deliveries alone lead to a swarm without unhandled messages. -/
theorem mq_traffic_dies_out {configs : List Gossip.Config} {swarm : Swarm}
    (run : Run Swarm.next always (.founded configs) swarm) :
    (∀ labels last, replay Swarm.next (fun _ label => label.settles) swarm labels = some last →
      labels.length ≤ swarm.traffic) ∧
    ∃ labels last, replay Swarm.next (fun _ label => label.delivers) swarm labels = some last ∧
      ∀ process ∈ last.processes, process.phase ≠ .stopped → process.listening = true →
        process.inbox = [] := by
  have hflushed : Flushed swarm := by
    refine run.invariant Flushed ?_ fun _ _ _ _ hbefore _ hstep => hbefore.next hstep
    intro process hprocess
    obtain ⟨config, -, rfl⟩ := List.mem_map.mp hprocess
    rfl
  constructor
  · intro labels last hreplayed
    have hlength := length_le_of_replay (Paced swarm.processes.length swarm.top)
      (Swarm.effort swarm.processes.length swarm.top)
      (fun _ _ _ hpaced hsettles hstep => hpaced.next hsettles hstep) hflushed.paced hreplayed
    exact (Nat.le_add_right _ _).trans hlength
  · obtain ⟨labels, last, hreplayed, hrest⟩ := exists_at_rest
      (fun _ (label : SwarmLabel) => label.delivers)
      (Paced swarm.processes.length swarm.top) (Swarm.effort swarm.processes.length swarm.top)
      (fun _ _ _ hpaced hdelivers hstep =>
        hpaced.next (SwarmLabel.settles_of_delivers hdelivers) hstep) hflushed.paced
    refine ⟨labels, last, hreplayed, ?_⟩
    intro process hprocess hup hlistening
    obtain ⟨receiver, hreceiver⟩ := List.mem_iff_getElem?.mp hprocess
    cases hinbox : process.inbox with
    | nil => rfl
    | cons entry rest =>
        have hnone := hrest (.deliver receiver entry.1) rfl
        simp [Swarm.next, hreceiver, hinbox, take, hup, hlistening] at hnone

theorem mq_traffic_dies_out_onboarding :
    ∃ swarm : Swarm, (swarm.processes.map fun process => process.inbox.length) = [1, 0] ∧
      (∀ labels last, replay Swarm.next (fun _ label => label.settles) swarm labels = some last →
        labels.length ≤ 735) ∧
      ∃ labels last, replay Swarm.next (fun _ label => label.delivers) swarm labels = some last ∧
        ∀ process ∈ last.processes, process.phase ≠ .stopped → process.listening = true →
          process.inbox = [] := by
  have hreplay : (replay Swarm.next (fun _ _ => true) (.founded [firstConfig])
      [.welcome 0 secondConfig, .join 0, .onboard 1]).any (fun swarm =>
        (swarm.processes.map fun process => process.inbox.length) = [1, 0] &&
          swarm.traffic = 735) = true := by
    decide +kernel
  obtain ⟨swarm, hrun, hfound⟩ := reached_of_replay (fun _ _ _ => trivial) hreplay
  simp only [Bool.and_eq_true, decide_eq_true_eq] at hfound
  obtain ⟨hbound, hrest⟩ := mq_traffic_dies_out hrun
  rw [hfound.2] at hbound
  exact ⟨swarm, hfound.1, hbound, hrest⟩

end WgBp.Mq
