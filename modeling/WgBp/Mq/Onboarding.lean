import WgBp.Mq.Traffic

/-! Onboarding of a joiner: from its request to the state that makes it ready, under
every interleaving with whatever else the swarm does meanwhile. -/
namespace WgBp.Mq

open WgBp.Library WgBp.Library.Procedure WgBp.Library.Mailbox WgBp.Library.Transition WgBp.Model
open WgBp.Gossip (Config Ticket OwnEdit)

def Onboard (node : MqNode) : Prop := node.sync.ready = true ∧ 1 ≤ node.sync.version

theorem blind_onboard : Blind Onboard := ⟨fun _ _ h => h, fun _ _ h => h⟩

theorem keeps_listenForUpdates_onboard (msg : Msg) : Keeps Onboard (listenForUpdates msg) := by
  refine blind_onboard.keeps_listenForUpdates msg ?_ (fun _ _ h => h)
    (fun _ h => ⟨h.1, Nat.le_succ_of_le h.2⟩) fun _ h => h
  intro node version peers hbody hpositive honboard
  exact ⟨by simp [honboard.1], hpositive⟩

theorem onboard_publishChange {node : MqNode} (onboard : Onboard node) (change : Change) :
    Onboard (publishChange node change) := by
  unfold publishChange
  cases portGiven change with
  | none => exact ⟨onboard.1, Nat.le_succ_of_le onboard.2⟩
  | some number =>
      simp only [MessageQueueSync.subscribed, MessageQueueSync.connected]
      split <;> exact ⟨onboard.1, Nat.le_succ_of_le onboard.2⟩

/-- A joiner before its initial synchronization: subscribed to its seed, with no notice
of a departure on its way to it. -/
structure Seeks (guideAt : Address) (joiner : Process) : Prop where
  running : joiner.phase = .running
  seeded : joiner.seeded = true
  waiting : joiner.node.sync.ready = false
  initial : joiner.node.sync.version = 0
  connected : guideAt ∈ joiner.node.sync.sub
  calm : ∀ entry ∈ joiner.inbox, entry.2.announcesDeparture = false

structure Guides (guideAt : Address) (guide : Process) : Prop where
  running : guide.phase = .running
  located : address guide.node = guideAt
  published : 1 ≤ guide.node.sync.version

def request (own : Address) : Msg := ⟨own, .onboardNotice⟩

inductive Underway (joinerIndex guideIndex : Nat) (own guideAt : Address)
    (joiner guide : Process) : Prop where
  | asking (entry : (joinerIndex, request own) ∈ guide.inbox)
  | answering {version : Nat} {peers : PeerMap}
      (entry : (guideIndex, update guideAt version peers) ∈ joiner.inbox)
      (published : 1 ≤ version)

/-- A joiner and the node it waits for; once it has asked, the request or an answer is
on its way. -/
structure Waits (joinerIndex guideIndex : Nat) (own guideAt : Address) (asked : Prop)
    (joiner guide : Process) : Prop where
  located : address joiner.node = own
  seeks : Seeks guideAt joiner
  guides : Guides guideAt guide
  underway : asked → Underway joinerIndex guideIndex own guideAt joiner guide

def Handshake (joinerIndex guideIndex : Nat) (own guideAt : Address) (asked : Prop)
    (swarm : Swarm) : Prop :=
  ∃ joiner, swarm.processes[joinerIndex]? = some joiner ∧
    (Onboard joiner.node ∨ ∃ guide, swarm.processes[guideIndex]? = some guide ∧
      Waits joinerIndex guideIndex own guideAt asked joiner guide)

variable {swarm : Swarm} {joiner guide process acting : Process} {own guideAt : Address}
  {joinerIndex guideIndex index : Nat} {asked : Prop}

@[simp] theorem Swarm.act_self (member : swarm.processes[index]? = some process)
    (acting : Process) :
    (swarm.act index acting).processes[index]? =
      some { acting with node := flush acting.node } := by
  simp [Swarm.act, member]

@[simp] theorem Swarm.act_other (member : swarm.processes[index]? = some process) {other : Nat}
    (ne : index ≠ other) (acting : Process) :
    (swarm.act other acting).processes[index]? = some (process.hear other acting.node) := by
  simp [Swarm.act, member, ne]

/-- What the joiner publishes, and `State`, do not matter. -/
theorem Seeks.congr (seeks : Seeks guideAt joiner) {changed : Process}
    (phase : changed.phase = joiner.phase) (seeded : changed.seeded = joiner.seeded)
    (sync : ∃ pub, changed.node.sync = { joiner.node.sync with pub })
    (inbox : ∀ entry ∈ changed.inbox, entry.2.announcesDeparture = false) :
    Seeks guideAt changed := by
  obtain ⟨pub, hsync⟩ := sync
  refine ⟨phase.trans seeks.running, seeded.trans seeks.seeded, ?_, ?_, ?_, inbox⟩
  · rw [hsync]
    exact seeks.waiting
  · rw [hsync]
    exact seeks.initial
  · rw [hsync]
    exact seeks.connected

theorem Seeks.hear (seeks : Seeks guideAt joiner) (publisher : Nat) {source : MqNode}
    (quiet : address source ∈ joiner.node.sync.sub →
      ∀ msg ∈ source.sync.pub, msg.announcesDeparture = false) :
    Seeks guideAt (joiner.hear publisher source) := by
  unfold Process.hear
  split
  · rename_i hhears
    refine seeks.congr rfl rfl ⟨_, rfl⟩ fun entry hentry => ?_
    rcases List.mem_append.mp hentry with hold | hnew
    · exact seeks.calm entry hold
    · obtain ⟨msg, hmsg, rfl⟩ := List.mem_map.mp hnew
      exact quiet hhears.2 msg hmsg
  · exact seeks

theorem Guides.hear (guides : Guides guideAt guide) (publisher : Nat) (source : MqNode) :
    Guides guideAt (guide.hear publisher source) := by
  unfold Process.hear
  split
  · exact ⟨guides.running, guides.located, guides.published⟩
  · exact guides

theorem hear_inbox (existing : Process) (publisher : Nat) (source : MqNode)
    {entry : Nat × Msg} (member : entry ∈ existing.inbox) :
    entry ∈ (existing.hear publisher source).inbox := by
  unfold Process.hear
  split
  · exact List.mem_append_left _ member
  · exact member

theorem hear_published {existing : Process} {source : MqNode} (up : existing.phase ≠ .stopped)
    (subscribed : address source ∈ existing.node.sync.sub) {msg : Msg}
    (published : msg ∈ source.sync.pub) (publisher : Nat) :
    (publisher, msg) ∈ (existing.hear publisher source).inbox := by
  rw [Process.hear, if_pos ⟨up, subscribed⟩]
  exact List.mem_append_right _ (List.mem_map.mpr ⟨msg, published, rfl⟩)

theorem Underway.mono {joiner' guide' : Process}
    (underway : Underway joinerIndex guideIndex own guideAt joiner guide)
    (asking : (joinerIndex, request own) ∈ guide.inbox →
      (joinerIndex, request own) ∈ guide'.inbox)
    (answering : ∀ entry ∈ joiner.inbox, entry.1 = guideIndex → entry ∈ joiner'.inbox) :
    Underway joinerIndex guideIndex own guideAt joiner' guide' := by
  cases underway with
  | asking entry => exact .asking (asking entry)
  | answering entry published => exact .answering (answering _ entry rfl) published

theorem publishChange_moves (node : MqNode) (change : Change) :
    address (publishChange node change) = address node ∧
      (publishChange node change).sync.version = node.sync.version + 1 ∧
      ∀ msg ∈ (publishChange node change).sync.pub,
        msg ∈ node.sync.pub ∨ msg.announcesDeparture = false := by
  obtain ⟨hport, hversion, -, hpub, -⟩ := subscribed_connects { node.sync with
    peers := node.sync.peers.set change.virtualIp (publishedRecord node change) }
      change.virtualIp (portGiven change)
  refine ⟨congrArg (Address.mk node.state.ip) hport, congrArg (· + 1) hversion, ?_⟩
  intro msg hmsg
  rcases List.mem_append.mp hmsg with hold | hnew
  · exact .inl (hpub ▸ hold)
  · rw [List.mem_singleton.mp hnew]
    exact .inr rfl

namespace Process.Acts

variable {label : SwarmLabel}

theorem located (does : process.Acts index label acting) (fine : process.Fine)
    (member : swarm.processes[index]? = some process) (timely : swarm.timely label = true) :
    address acting.node = address process.node := by
  cases does with
  | admits serves new foreign =>
      rename_i joiner
      have hsame := joiner.addedTo_same process.node.state
      refine (publishChange_moves _ _).1.trans ?_
      simp [address, hsame.ip]
  | asks => rfl
  | edits edited serves =>
      obtain ⟨allowedIps, rfl⟩ := OwnEdit.apply_spec edited
      exact (publishChange_moves _ _).1
  | hears taken listening =>
      have hexpected := by simpa [Swarm.timely, member, taken] using timely
      obtain ⟨after, hrun, -, haddress⟩ := handles fine.sound (fine.rest taken).1 hexpected
      rw [Process.receive, hrun]
      exact haddress
  | departs serves => rfl

theorem grows (does : process.Acts index label acting) :
    process.node.sync.version ≤ acting.node.sync.version := by
  cases does with
  | admits serves new foreign =>
      rename_i joiner
      have hmoves := publishChange_moves
        { process.node with state := joiner.addedTo process.node.state } joiner.change
      exact (Nat.le_succ _).trans hmoves.2.1.ge
  | asks => exact Nat.le_refl _
  | edits edited serves =>
      rename_i edit state
      have hmoves := publishChange_moves { process.node with state } state.ownChange
      exact (Nat.le_succ _).trans hmoves.2.1.ge
  | hears taken listening =>
      rename_i sender msg rest
      cases responds process.node msg with
      | ignores counted => exact counted.1.ge
      | adopts carried newer counted => exact newer.le.trans counted.1.ge
      | counts notice counted => exact (Nat.le_succ _).trans counted.1.ge
      | replies asks older published => exact (congrArg (·.sync.version) published).ge
  | departs serves => exact Nat.le_refl _

theorem calm (does : process.Acts index label acting) (flushed : process.node.sync.pub = [])
    (stays : label ≠ .depart index) :
    acting.phase = process.phase ∧
      ∀ msg ∈ acting.node.sync.pub, msg.announcesDeparture = false := by
  have hquiet {msg : Msg} (hmsg : msg ∈ process.node.sync.pub) :
      msg.announcesDeparture = false := by
    rw [flushed] at hmsg
    cases hmsg
  cases does with
  | admits serves new foreign =>
      refine ⟨rfl, fun msg hmsg => ?_⟩
      exact ((publishChange_moves _ _).2.2 msg hmsg).elim hquiet id
  | asks =>
      refine ⟨rfl, fun msg hmsg => ?_⟩
      rcases List.mem_append.mp hmsg with hold | hnew
      · exact hquiet hold
      · rw [List.mem_singleton.mp hnew]
        rfl
  | edits edited serves =>
      refine ⟨rfl, fun msg hmsg => ?_⟩
      exact ((publishChange_moves _ _).2.2 msg hmsg).elim hquiet id
  | hears taken listening =>
      rename_i sender msg rest
      refine ⟨rfl, fun answer hanswer => ?_⟩
      have hanswers : Answers process.node.sync.version process.node msg
          (final ((listenForUpdates msg).run process.node)) := answers flushed msg (Nat.le_refl _)
      exact (hanswers.states answer hanswer).1
  | departs serves => exact absurd rfl stays

theorem onboard (does : process.Acts index label acting) (onboard : Onboard process.node) :
    Onboard acting.node := by
  cases does with
  | admits serves new foreign =>
      rename_i joiner
      exact onboard_publishChange (blind_onboard.state _ (joiner.addedTo _) onboard) _
  | asks => exact onboard
  | edits edited serves =>
      rename_i edit state
      exact onboard_publishChange (blind_onboard.state _ state onboard) _
  | hears taken listening => exact keeps_listenForUpdates_onboard _ _ onboard
  | departs serves => exact onboard

end Process.Acts

/-- A process before and after a step of the swarm: it has acted, or kept its node. -/
theorem Swarm.Stepped.member {label : SwarmLabel} {after : Swarm}
    (stepped : swarm.Stepped label after) (member : swarm.processes[index]? = some process) :
    ∃ later, after.processes[index]? = some later ∧ (later.node = process.node ∨
      ∃ acting, process.Acts index label acting ∧ later.node = flush acting.node) := by
  cases stepped with
  | acts hmember does issued =>
      rename_i other existing moved tickets
      by_cases hsame : index = other
      · subst hsame
        rw [member] at hmember
        cases hmember
        exact ⟨_, swarm.act_self member moved, .inr ⟨moved, does, rfl⟩⟩
      · exact ⟨_, swarm.act_other member hsame moved, .inl (Process.hear_node _ _ _)⟩
  | starts isJoin issued port =>
      refine ⟨process, ?_, .inl rfl⟩
      rw [List.getElem?_append_left (List.getElem?_eq_some_iff.mp member).1, member]
  | loses hmember taken isLose =>
      rename_i other sender existing msg rest
      by_cases hsame : other = index
      · subst hsame
        rw [member] at hmember
        cases hmember
        obtain ⟨hindex, -⟩ := List.getElem?_eq_some_iff.mp member
        exact ⟨_, List.getElem?_set_self hindex, .inl rfl⟩
      · exact ⟨process, by rw [List.getElem?_set_ne hsame, member], .inl rfl⟩
  | stops hmember leaving =>
      rename_i other existing
      by_cases hsame : other = index
      · subst hsame
        rw [member] at hmember
        cases hmember
        obtain ⟨hindex, -⟩ := List.getElem?_eq_some_iff.mp member
        exact ⟨_, List.getElem?_set_self hindex, .inl rfl⟩
      · exact ⟨process, by rw [List.getElem?_set_ne hsame, member], .inl rfl⟩

/-- Joiners give a port and departure notices are handled in time; no message between the
two is lost, and no node leaves whose notice the joiner would get before it is ready. -/
def Swarm.helps (swarm : Swarm) (joinerIndex guideIndex : Nat) : SwarmLabel → Bool
  | .lose receiver sender =>
    ¬(receiver = guideIndex ∧ sender = joinerIndex) ∧
      ¬(receiver = joinerIndex ∧ sender = guideIndex)
  | .depart index =>
    match swarm.processes[joinerIndex]?, swarm.processes[index]? with
    | some joiner, some leaver =>
      joiner.node.sync.ready = true ∨ address leaver.node ∉ joiner.node.sync.sub
    | _, _ => true
  | label => swarm.timely label

theorem timely_of_helps {label : SwarmLabel}
    (helps : swarm.helps joinerIndex guideIndex label = true) : swarm.timely label = true := by
  cases label <;> first | exact helps | rfl

theorem run_adopts {node : MqNode} {msg : Msg} {version : Nat} {peers : PeerMap}
    (other : msg.sender ≠ address node) (body : msg.body = .stateUpdate version peers)
    (initial : node.sync.version = 0) (published : 1 ≤ version) :
    Onboard (final ((listenForUpdates msg).run node)) := by
  have hnewer : node.sync.version < version := by omega
  simp only [listenForUpdates, EStateM.run_bind, EStateM.run_get, other, body, hnewer, if_false,
    if_true, EStateM.run_modify]
  exact blind_onboard.keeps_checkForChanges _ ⟨by simp [initial], published⟩

/-- The joiner handles a message: any published state makes it ready, from whomever it
is, and nothing else changes what it waits for. -/
theorem Seeks.receive (seeks : Seeks guideAt joiner) (located : address joiner.node = own)
    (apart : guideAt ≠ own) {sender : Nat} {msg : Msg} {rest : List (Nat × Msg)}
    (taken : take joiner.inbox sender = some (msg, rest)) :
    Onboard (joiner.receive msg rest).node ∨
      Seeks guideAt (joiner.receive msg rest) ∧
        ∀ version peers, msg = update guideAt version peers → version = 0 := by
  have hstays {after : MqNode} (run : (listenForUpdates msg).run joiner.node = .ok () after)
      (hsync : ∃ pub, after.sync = { joiner.node.sync with pub }) :
      Seeks guideAt (joiner.receive msg rest) := by
    have hnode : (joiner.receive msg rest).node = after := by
      simp [Process.receive, run]
    exact seeks.congr rfl rfl (hnode ▸ hsync) fun entry hentry =>
      seeks.calm entry ((mem_of_take taken _).mpr (.inr hentry))
  by_cases hself : msg.sender = address joiner.node
  · have hrun : (listenForUpdates msg).run joiner.node = .ok () joiner.node := by
      simp [listenForUpdates, hself]
    refine .inr ⟨hstays hrun ⟨_, rfl⟩, ?_⟩
    rintro version peers rfl
    exact absurd (hself.trans located) apart
  · cases hbody : msg.body with
    | stateUpdate version peers =>
        rcases Nat.eq_zero_or_pos version with hzero | hpublished
        · have hrun := run_equal hself hbody (hzero.trans seeks.initial.symm)
          refine .inr ⟨hstays hrun ⟨_, rfl⟩, ?_⟩
          rintro other map rfl
          cases hbody
          exact hzero
        · exact .inl (run_adopts hself hbody seeks.initial hpublished)
    | departureNotice virtualIp =>
        have hcalm := seeks.calm (sender, msg) ((mem_of_take taken _).mpr (.inl rfl))
        simp [Msg.announcesDeparture, hbody] at hcalm
    | onboardNotice =>
        have hrun : (listenForUpdates msg).run joiner.node = .ok () (publishState joiner.node) := by
          simp [listenForUpdates, hself, hbody]
        refine .inr ⟨hstays hrun ⟨_, rfl⟩, ?_⟩
        rintro version peers rfl
        cases hbody

variable {label : SwarmLabel}

theorem Waits.other_acts (waits : Waits joinerIndex guideIndex own guideAt asked joiner guide)
    (quiet : address acting.node ∈ joiner.node.sync.sub →
      ∀ msg ∈ acting.node.sync.pub, msg.announcesDeparture = false) :
    Waits joinerIndex guideIndex own guideAt asked (joiner.hear index acting.node)
      (guide.hear index acting.node) where
  located := by
    rw [Process.hear_node]
    exact waits.located
  seeks := waits.seeks.hear index quiet
  guides := waits.guides.hear index acting.node
  underway := fun hasked => (waits.underway hasked).mono (hear_inbox _ _ _)
    fun _ hentry _ => hear_inbox _ _ _ hentry

theorem Waits.guide_acts (waits : Waits joinerIndex guideIndex own guideAt asked joiner guide)
    (apart : guideAt ≠ own) (does : guide.Acts guideIndex label acting)
    (located : address acting.node = address guide.node) (flushed : guide.node.sync.pub = [])
    (stays : label ≠ .depart guideIndex) :
    Waits joinerIndex guideIndex own guideAt asked (joiner.hear guideIndex acting.node)
      { acting with node := flush acting.node } where
  located := by
    rw [Process.hear_node]
    exact waits.located
  seeks := waits.seeks.hear guideIndex fun _ => (does.calm flushed stays).2
  guides := ⟨(does.calm flushed stays).1.trans waits.guides.running,
    located.trans waits.guides.located, waits.guides.published.trans does.grows⟩
  underway := by
    intro hasked
    cases waits.underway hasked with
    | answering entry published => exact .answering (hear_inbox _ _ _ entry) published
    | asking entry =>
        cases does with
        | hears taken listening =>
            rename_i sender msg rest
            rcases (mem_of_take taken _).mp entry with hfirst | hrest
            · have hmsg : msg = request own := (Prod.mk.inj hfirst).2.symm
              have hother : own ≠ address guide.node := by
                rw [waits.guides.located]
                exact apart.symm
              have hnode : (guide.receive msg rest).node = publishState guide.node := by
                have hrun : (listenForUpdates (request own)).run guide.node =
                    .ok () (publishState guide.node) := by
                  simp [listenForUpdates, request, hother]
                simp [Process.receive, hmsg, hrun]
              have hup : joiner.phase ≠ .stopped := by
                rw [waits.seeks.running]
                decide
              have hsubscribed : address (guide.receive msg rest).node ∈ joiner.node.sync.sub := by
                rw [located, waits.guides.located]
                exact waits.seeks.connected
              have hanswer : update guideAt guide.node.sync.version guide.node.sync.peers ∈
                  (guide.receive msg rest).node.sync.pub := by
                rw [hnode, ← waits.guides.located]
                exact List.mem_append_right _ (List.mem_singleton.mpr rfl)
              exact .answering (hear_published hup hsubscribed hanswer _) waits.guides.published
            · exact .asking hrest
        | admits serves new foreign => exact .asking entry
        | asks => exact .asking entry
        | edits edited serves => exact .asking entry
        | departs serves => exact .asking entry

theorem Waits.joiner_acts (waits : Waits joinerIndex guideIndex own guideAt asked joiner guide)
    (apart : guideAt ≠ own) (does : joiner.Acts joinerIndex label acting)
    (located : address acting.node = address joiner.node) :
    Onboard acting.node ∨ Waits joinerIndex guideIndex own guideAt asked
      { acting with node := flush acting.node } (guide.hear joinerIndex acting.node) := by
  have hidle : joiner.serves = false := by
    simp [Process.serves, waits.seeks.seeded, waits.seeks.waiting]
  have hguides := waits.guides.hear joinerIndex acting.node
  have hasking : (joinerIndex, request own) ∈ guide.inbox →
      (joinerIndex, request own) ∈ (guide.hear joinerIndex acting.node).inbox :=
    hear_inbox _ _ _
  cases does with
  | admits serves new foreign => exact absurd serves (by simp [hidle])
  | edits edited serves => exact absurd serves (by simp [hidle])
  | departs serves => exact absurd serves (by simp [hidle])
  | asks =>
      refine .inr ⟨waits.located, ?_, hguides, fun hasked => ?_⟩
      · exact waits.seeks.congr rfl rfl ⟨_, rfl⟩ waits.seeks.calm
      · exact (waits.underway hasked).mono hasking fun _ hentry _ => hentry
  | hears taken listening =>
      rename_i sender msg rest
      rcases waits.seeks.receive waits.located apart taken with honboard | ⟨hseeks, hzero⟩
      · exact .inl honboard
      · refine .inr ⟨located.trans waits.located, ?_, hguides, fun hasked => ?_⟩
        · exact hseeks.congr rfl rfl ⟨_, rfl⟩ hseeks.calm
        · cases waits.underway hasked with
          | asking entry => exact .asking (hasking entry)
          | answering entry published =>
              rcases (mem_of_take taken _).mp entry with hfirst | hrest
              · have hnone := hzero _ _ (Prod.mk.inj hfirst).2.symm
                omega
              · exact .answering hrest published

theorem Waits.acts (waits : Waits joinerIndex guideIndex own guideAt asked joiner guide)
    (healthy : Healthy swarm) (distinct : joinerIndex ≠ guideIndex) (apart : guideAt ≠ own)
    (joinerMember : swarm.processes[joinerIndex]? = some joiner)
    (guideMember : swarm.processes[guideIndex]? = some guide)
    (helps : swarm.helps joinerIndex guideIndex label = true)
    (member : swarm.processes[index]? = some process) (does : process.Acts index label acting)
    (tickets : List Ticket) :
    Handshake joinerIndex guideIndex own guideAt asked
      { swarm.act index acting with tickets } := by
  have hfine := healthy.member member
  have hlocated := does.located hfine member (timely_of_helps helps)
  by_cases hself : joinerIndex = index
  · subst hself
    rw [joinerMember] at member
    cases member
    refine ⟨_, swarm.act_self joinerMember acting, ?_⟩
    rcases waits.joiner_acts apart does hlocated with honboard | hwaits
    · exact .inl honboard
    · exact .inr ⟨_, swarm.act_other guideMember distinct.symm acting, hwaits⟩
  · refine ⟨_, swarm.act_other joinerMember hself acting, .inr ?_⟩
    have hleaver (leaves : label = .depart index) :
        address process.node ∉ joiner.node.sync.sub := by
      subst leaves
      simpa [Swarm.helps, joinerMember, member, waits.seeks.waiting] using helps
    by_cases hguides : guideIndex = index
    · subst hguides
      rw [guideMember] at member
      cases member
      refine ⟨_, swarm.act_self guideMember acting,
        waits.guide_acts apart does hlocated hfine.sound.flushed ?_⟩
      intro hleaves
      exact hleaver hleaves (waits.guides.located ▸ waits.seeks.connected)
    · refine ⟨_, swarm.act_other guideMember hguides acting, waits.other_acts ?_⟩
      intro hheard
      refine (does.calm hfine.sound.flushed fun hleaves => ?_).2
      exact hleaver hleaves (hlocated ▸ hheard)

theorem Waits.loses (waits : Waits joinerIndex guideIndex own guideAt asked joiner guide)
    (distinct : joinerIndex ≠ guideIndex)
    (joinerMember : swarm.processes[joinerIndex]? = some joiner)
    (guideMember : swarm.processes[guideIndex]? = some guide) {sender : Nat} {msg : Msg}
    {rest : List (Nat × Msg)} (member : swarm.processes[index]? = some process)
    (taken : take process.inbox sender = some (msg, rest))
    (helps : swarm.helps joinerIndex guideIndex (.lose index sender) = true) :
    Handshake joinerIndex guideIndex own guideAt asked
      { swarm with processes := swarm.processes.set index { process with inbox := rest } } := by
  have hkept {entry : Nat × Msg} (hentry : entry ∈ process.inbox) (hother : entry.1 ≠ sender) :
      entry ∈ rest :=
    ((mem_of_take taken entry).mp hentry).resolve_left fun heq => hother (congrArg Prod.fst heq)
  simp only [Swarm.helps, decide_eq_true_eq, not_and] at helps
  obtain ⟨hrequest, hanswer⟩ := helps
  by_cases hself : index = joinerIndex
  · subst hself
    rw [joinerMember] at member
    cases member
    refine ⟨_, List.getElem?_set_self (List.getElem?_eq_some_iff.mp joinerMember).1, .inr
      ⟨guide, by rw [List.getElem?_set_ne distinct, guideMember], waits.located, ?_,
        waits.guides, ?_⟩⟩
    · exact waits.seeks.congr rfl rfl ⟨_, rfl⟩ fun entry hentry =>
        waits.seeks.calm entry ((mem_of_take taken entry).mpr (.inr hentry))
    · exact fun hasked => (waits.underway hasked).mono id fun entry hentry hguide =>
        hkept hentry fun heq => hanswer rfl (heq.symm.trans hguide)
  · refine ⟨joiner, by rw [List.getElem?_set_ne hself, joinerMember], .inr ?_⟩
    by_cases hguides : index = guideIndex
    · subst hguides
      rw [guideMember] at member
      cases member
      refine ⟨_, List.getElem?_set_self (List.getElem?_eq_some_iff.mp guideMember).1,
        waits.located, waits.seeks, ?_, ?_⟩
      · exact ⟨waits.guides.running, waits.guides.located, waits.guides.published⟩
      · exact fun hasked => (waits.underway hasked).mono
          (fun hentry => hkept hentry fun heq => hrequest rfl heq.symm)
          fun entry hentry _ => hentry
    · exact ⟨guide, by rw [List.getElem?_set_ne hguides, guideMember], waits⟩

theorem Handshake.next {after : Swarm} (healthy : Healthy swarm)
    (distinct : joinerIndex ≠ guideIndex) (apart : guideAt ≠ own)
    (shaking : Handshake joinerIndex guideIndex own guideAt asked swarm)
    (helps : swarm.helps joinerIndex guideIndex label = true)
    (step : swarm.next label = some after) :
    Handshake joinerIndex guideIndex own guideAt asked after := by
  obtain ⟨joiner, hjoiner, honboard | ⟨guide, hguide, hwaits⟩⟩ := shaking
  · obtain ⟨later, hlater, hsame | ⟨acting, hdoes, hsame⟩⟩ :=
      (Swarm.stepped_of_next step).member hjoiner
    · exact ⟨later, hlater, .inl (hsame ▸ honboard)⟩
    · have hacting : Onboard (flush acting.node) := hdoes.onboard honboard
      exact ⟨later, hlater, .inl (hsame ▸ hacting)⟩
  · cases Swarm.stepped_of_next step with
    | acts member does issued =>
        exact hwaits.acts healthy distinct apart hjoiner hguide helps member does _
    | starts isJoin issued port =>
        refine ⟨joiner, ?_, .inr ⟨guide, ?_, hwaits⟩⟩
        · rw [List.getElem?_append_left (List.getElem?_eq_some_iff.mp hjoiner).1, hjoiner]
        · rw [List.getElem?_append_left (List.getElem?_eq_some_iff.mp hguide).1, hguide]
    | loses member taken isLose =>
        subst isLose
        exact hwaits.loses distinct hjoiner hguide member taken helps
    | stops member leaving =>
        rename_i index process
        have hself : index ≠ joinerIndex := by
          rintro rfl
          rw [hjoiner] at member
          cases member
          simp [hwaits.seeks.running] at leaving
        have hguides : index ≠ guideIndex := by
          rintro rfl
          rw [hguide] at member
          cases member
          simp [hwaits.guides.running] at leaving
        exact ⟨joiner, by rw [List.getElem?_set_ne hself, hjoiner], .inr
          ⟨guide, by rw [List.getElem?_set_ne hguides, hguide], hwaits⟩⟩

theorem Handshake.asks {after : Swarm} (distinct : joinerIndex ≠ guideIndex)
    (shaking : Handshake joinerIndex guideIndex own guideAt False swarm)
    (subscribed : ∀ guide, swarm.processes[guideIndex]? = some guide →
      own ∈ guide.node.sync.sub)
    (step : swarm.next (.onboard joinerIndex) = some after) :
    Handshake joinerIndex guideIndex own guideAt True after := by
  obtain ⟨joiner, hjoiner, hshaking⟩ := shaking
  obtain ⟨process, hprocess, step⟩ := Option.bind_eq_some_iff.mp step
  rw [hjoiner] at hprocess
  cases hprocess
  split at step
  · cases step
    refine ⟨_, swarm.act_self hjoiner _, hshaking.imp id ?_⟩
    rintro ⟨guide, hguide, hwaits⟩
    refine ⟨_, swarm.act_other hguide distinct.symm _, hwaits.located, ?_,
      hwaits.guides.hear _ _, fun _ => .asking ?_⟩
    · exact hwaits.seeks.congr rfl rfl ⟨_, rfl⟩ hwaits.seeks.calm
    · have hup : guide.phase ≠ .stopped := by
        rw [hwaits.guides.running]
        decide
      have hlocated : address (handOver joiner.node .onboardNotice) = own := hwaits.located
      have hsubscribed : address (handOver joiner.node .onboardNotice) ∈ guide.node.sync.sub := by
        rw [hlocated]
        exact subscribed guide hguide
      have hrequest : request own ∈ (handOver joiner.node .onboardNotice).sync.pub := by
        rw [request, ← hwaits.located]
        exact List.mem_append_right _ (List.mem_singleton.mpr rfl)
      exact hear_published hup hsubscribed hrequest _
  · cases step

def home (issued : Ticket) : Address := ⟨issued.config.ip, issued.config.syncPort⟩

theorem Handshake.starts {after : Swarm} {ticketIndex number : Nat} {issued : Ticket}
    (ticket : swarm.tickets[ticketIndex]? = some issued)
    (port : issued.seed.syncPort = .port number)
    (guideMember : swarm.processes[guideIndex]? = some guide)
    (guides : Guides ⟨issued.seed.virtualIp, number⟩ guide)
    (step : swarm.next (.join ticketIndex) = some after) :
    Handshake swarm.processes.length guideIndex (home issued) ⟨issued.seed.virtualIp, number⟩
      False after := by
  obtain ⟨found, hfound, step⟩ := Option.bind_eq_some_iff.mp step
  rw [ticket] at hfound
  cases hfound
  rw [port] at step
  cases step
  refine ⟨joined issued number, by simp, .inr ⟨guide, ?_, ?_, ?_, guides, False.elim⟩⟩
  · rw [List.getElem?_append_left (List.getElem?_eq_some_iff.mp guideMember).1, guideMember]
  · have hsame := issued.bootstrap.addedTo_same issued.config.state
    exact congrArg₂ Address.mk hsame.ip (connected_connects _ _).port
  · refine ⟨rfl, rfl, rfl, rfl, ?_, fun entry hentry => by cases hentry⟩
    simp [joined, Process.start, MessageQueueSync.seeded, MessageQueueSync.connected,
      MessageQueueSync.new]

theorem deliverable (member : swarm.processes[index]? = some process)
    (running : process.phase = .running) (listening : process.listening = true)
    {entry : Nat × Msg} (unhandled : entry ∈ process.inbox) :
    swarm.next (.deliver index entry.1) ≠ none := by
  have htaken : (take process.inbox entry.1).isSome = true := by
    simp only [take, Option.isSome_map, List.find?_isSome]
    exact ⟨entry, unhandled, by simp⟩
  obtain ⟨⟨msg, rest⟩, htaken⟩ := Option.isSome_iff_exists.mp htaken
  simp [Swarm.next, member, htaken, running, listening]

/-- While no message between the two gets lost and no node leaves that the joiner listens
to, a joiner that has asked its seed is ready with a published state, or its request or
such a state is on its way; once all is handled, it is ready. -/
theorem mq_onboards {configs : List Config} {admitting started asking asked last : Swarm}
    {issued : Ticket} {guide : Process} {ticketIndex guideIndex number : Nat}
    (setup : Run Swarm.next (fun swarm label => swarm.timely label = true) (.founded configs)
      admitting)
    (ticket : admitting.tickets[ticketIndex]? = some issued)
    (port : issued.seed.syncPort = .port number)
    (member : admitting.processes[guideIndex]? = some guide)
    (guides : Guides ⟨issued.seed.virtualIp, number⟩ guide)
    (joins : admitting.next (.join ticketIndex) = some started)
    (prepares : Run Swarm.next (fun swarm label =>
      swarm.helps admitting.processes.length guideIndex label = true) started asking)
    (subscribed : ∀ guide, asking.processes[guideIndex]? = some guide →
      home issued ∈ guide.node.sync.sub)
    (asks : asking.next (.onboard admitting.processes.length) = some asked)
    (run : Run Swarm.next (fun swarm label =>
      swarm.helps admitting.processes.length guideIndex label = true) asked last) :
    ∃ joiner, last.processes[admitting.processes.length]? = some joiner ∧
      (Onboard joiner.node ∨ ∃ guide, last.processes[guideIndex]? = some guide ∧
        Underway admitting.processes.length guideIndex (home issued)
          ⟨issued.seed.virtualIp, number⟩ joiner guide) ∧
      ((∀ receiver sender, last.next (.deliver receiver sender) = none) →
        Onboard joiner.node) := by
  have hdistinct : admitting.processes.length ≠ guideIndex :=
    (List.getElem?_eq_some_iff.mp member).1.ne'
  have hadmitting : Healthy admitting := setup.invariant Healthy (.founded configs)
    fun _ _ _ _ hbefore htimely hstep => hbefore.next htimely hstep
  have hstays {first reached : Swarm} (healthy : Healthy first)
      (run : Run Swarm.next (fun swarm label =>
        swarm.helps admitting.processes.length guideIndex label = true) first reached) :
      Healthy reached :=
    run.invariant Healthy healthy fun _ _ _ _ hbefore hhelps hstep =>
      hbefore.next (timely_of_helps hhelps) hstep
  have hapart : (⟨issued.seed.virtualIp, number⟩ : Address) ≠ home issued := by
    have hfine := hadmitting.tickets issued (List.mem_of_getElem? ticket)
    intro heq
    exact hfine.foreign (hfine.seed ▸ congrArg Address.ip heq)
  have hstarted : Healthy started := hadmitting.next rfl joins
  have hasking : Healthy asking := hstays hstarted prepares
  have hasked : Healthy asked := hasking.next rfl asks
  have hlast : Healthy last := hstays hasked run
  have hkeeps (waited : Prop) {first reached : Swarm} (healthy : Healthy first)
      (shaking : Handshake admitting.processes.length guideIndex (home issued)
        ⟨issued.seed.virtualIp, number⟩ waited first)
      (run : Run Swarm.next (fun swarm label =>
        swarm.helps admitting.processes.length guideIndex label = true) first reached) :
      Handshake admitting.processes.length guideIndex (home issued)
        ⟨issued.seed.virtualIp, number⟩ waited reached :=
    run.invariant _ shaking fun _ _ _ hrun hshaking hhelps hstep =>
      hshaking.next (hstays healthy hrun) hdistinct hapart hhelps hstep
  have hbegun := Handshake.starts ticket port member guides joins
  have hrequested := (hkeeps False hstarted hbegun prepares).asks hdistinct subscribed asks
  obtain ⟨joiner, hjoiner, hshaking⟩ := hkeeps True hasked hrequested run
  refine ⟨joiner, hjoiner, ?_, ?_⟩
  · exact hshaking.imp id fun ⟨guide, hguide, hwaits⟩ => ⟨guide, hguide, hwaits.underway trivial⟩
  · intro rests
    rcases hshaking with honboard | ⟨guide, hguide, hwaits⟩
    · exact honboard
    · have hlistens {index : Nat} {process : Process}
          (hprocess : last.processes[index]? = some process) := (hlast.member hprocess).listening
      cases hwaits.underway trivial with
      | asking entry =>
          exact absurd (rests _ _)
            (deliverable hguide hwaits.guides.running (hlistens hguide) entry)
      | answering entry published =>
          exact absurd (rests _ _)
            (deliverable hjoiner hwaits.seeks.running (hlistens hjoiner) entry)

theorem mq_onboards_answered :
    ∃ last : Swarm, (last.processes.map fun process => process.node.sync.version) = [1, 0] ∧
      ∃ joiner, last.processes[1]? = some joiner ∧
        (Onboard joiner.node ∨ ∃ guide, last.processes[0]? = some guide ∧
          Underway 1 0 ⟨"10.0.0.2", 5555⟩ ⟨"10.0.0.1", 5555⟩ joiner guide) ∧
        ((∀ receiver sender, last.next (.deliver receiver sender) = none) →
          Onboard joiner.node) := by
  have hreplay : (replay Swarm.next Swarm.timely (.founded [firstConfig])
      [.welcome 0 secondConfig]).any (fun admitting =>
        admitting.tickets[0]?.any fun issued => admitting.processes[0]?.any fun guide =>
          (admitting.next (.join 0)).any fun started => (started.next (.onboard 1)).any fun asked =>
            (replay Swarm.next (fun swarm label => swarm.helps 1 0 label) asked
              [.deliver 0 1]).any fun last =>
                admitting.processes.length = 1 ∧
                  (issued.seed.virtualIp = "10.0.0.1" ∧ issued.seed.syncPort = .port 5555 ∧
                    home issued = ⟨"10.0.0.2", 5555⟩) ∧
                  (guide.phase = .running ∧ address guide.node = ⟨"10.0.0.1", 5555⟩ ∧
                    1 ≤ guide.node.sync.version) ∧
                  (started.processes[0]?.all fun guide => home issued ∈ guide.node.sync.sub) ∧
                  (last.processes.map fun process => process.node.sync.version) = [1, 0]) =
        true := by
    decide +kernel
  obtain ⟨admitting, hsetup, hfound⟩ := reached_of_replay (fun _ _ h => h) hreplay
  obtain ⟨issued, hissued, hfound⟩ := (Option.any_eq_true _ _).mp hfound
  obtain ⟨guide, hguide, hfound⟩ := (Option.any_eq_true _ _).mp hfound
  obtain ⟨started, hjoins, hfound⟩ := (Option.any_eq_true _ _).mp hfound
  obtain ⟨asked, hasks, hfound⟩ := (Option.any_eq_true _ _).mp hfound
  obtain ⟨last, hrun, hfound⟩ := (Option.any_eq_true _ _).mp hfound
  obtain ⟨hone, ⟨hip, hport, hhome⟩, ⟨hrunning, hlocated, hpublished⟩, hsubscribed, hversions⟩ :=
    of_decide_eq_true hfound
  have honboards := mq_onboards hsetup hissued hport hguide
    ⟨hrunning, hip ▸ hlocated, hpublished⟩ hjoins (.refl started)
    (fun guide hmember =>
      of_decide_eq_true ((Option.all_eq_true _ _).mp hsubscribed guide hmember))
    (hone ▸ hasks) (hone ▸ run_of_replay (fun _ _ h => h) hrun)
  rw [hone, hip, hhome] at honboards
  exact ⟨last, hversions, honboards⟩

end WgBp.Mq
