import WgBp.Mq.Publications

/-! Departures: a settled network starts to part when a node leaves, each
remaining node takes the notices in an order of its own, and when all are
handled the network is settled again. -/
namespace WgBp.Mq

open WgBp.Library WgBp.Library.Procedure WgBp.Library.Mailbox WgBp.Library.Transition
open WgBp.Library.Versioned WgBp.Model

variable {n : Nat} {home : Fin n → Address} {network : Network n} {index other : Fin n}
  {member : Member n} {top : Nat} {last : PeerMap} {left : List (Fin n)}

theorem behind_last {leaver : Fin n} (behind : Behind home top last leaver member []) :
    CaughtUp home top last [leaver] member [] [leaver] := by
  have htop : member.node.sync.version = top := by simpa using behind.catches
  refine ⟨.refl _, by simpa using behind.inbox, by simpa using htop, behind.node.same htop, ?_⟩
  intro other hother
  rw [List.mem_singleton] at hother
  exact hother ▸ behind.subscribed

private theorem updates_of_mail (settled : Settled home top last network)
    (live : (network other).live = true) (lastWord : LastWord network index)
    (different : other ≠ index) : ∃ states : List (Nat × PeerMap),
      (network other).inbox =
        states.map (fun pair => (index, update (home index) pair.1 pair.2)) ∧
      ∀ pair ∈ states, (network other).node.sync.version ≤ pair.1 ∧ Keyed pair.2 ∧
        Ported pair.2 ∧ Capped top last pair := by
  have hentries : ∀ entry ∈ (network other).inbox, ∃ pair : Nat × PeerMap,
      entry = (index, update (home index) pair.1 pair.2) ∧
      (network other).node.sync.version ≤ pair.1 ∧ Keyed pair.2 ∧ Ported pair.2 ∧
        Capped top last pair := by
    intro entry hentry
    obtain ⟨_, pair, hcarries, hcapped⟩ := settled.mail other live entry hentry
    have hcarried : entry.2.carried = some pair.1 := by rw [hcarries.msg]; rfl
    obtain ⟨hsender, hnewer⟩ := lastWord other different live entry hentry _ hcarried
    have hmsg := hcarries.msg
    rw [hsender] at hmsg
    exact ⟨pair, Prod.ext hsender hmsg, hnewer, hcarries.keyed, hcarries.ported, hcapped⟩
  generalize (network other).inbox = inbox at hentries
  induction inbox with
  | nil => exact ⟨[], rfl, by simp⟩
  | cons entry rest ih =>
      obtain ⟨pair, hentry, hgood⟩ := hentries entry (by simp)
      obtain ⟨states, hrest, hstates⟩ := ih fun entry h => hentries entry (by simp [h])
      refine ⟨pair :: states, by rw [hentry, hrest]; rfl, ?_⟩
      intro other hother
      rcases List.mem_cons.mp hother with rfl | hother
      · exact hgood
      · exact hstates other hother

theorem exit_pub (serves : Serves home network) (live : (network index).live = true) :
    (network index).exit.node.sync.pub = [notice (home index)] := by
  obtain ⟨hserving, hflushed⟩ := serves index live
  simp [Member.exit, publishLastMessage, handOver, hflushed, notice, ← hserving.located, address]

theorem Serves.exit (serves : Serves home network) (live : (network index).live = true) :
    Serves home (act network index (network index).exit) :=
  serves.stays live fun h => by simp [Member.exit] at h

theorem exit_heard (serves : Serves home network) (live : (network index).live = true)
    (alive : (act network index (network index).exit other).live = true) :
    other ≠ index ∧ (network other).live = true ∧
      (act network index (network index).exit other).node = (network other).node ∧
      (act network index (network index).exit other).inbox =
        (network other).inbox ++ [(index, notice (home index))] := by
  have hne : other ≠ index := by
    rintro rfl
    simp [Member.exit] at alive
  have hlive := live_of_act live alive
  have hlocated : address (network index).exit.node = home index :=
    (serves index live).1.located
  refine ⟨hne, hlive, ?_, ?_⟩
  · rw [act_ne network _ hne, hear_node]
  · rw [act_ne network _ hne, serves.heard live hlocated hne hlive, exit_pub serves live]
    rfl

theorem Settled.exit (settled : Settled home top last network)
    (live : (network index).live = true) (lastWord : LastWord network index) :
    Parting home top last [index] (act network index (network index).exit) := by
  refine ⟨settled.serves.exit live, ?_, List.nodup_singleton index, ?_, ?_⟩
  · intro leaver hleaver
    rw [List.mem_singleton.mp hleaver, act_self]
    rfl
  · rintro other (hlive | hleft)
    · exact settled.listed other (live_of_act live hlive)
    · rw [List.mem_singleton.mp hleft]
      exact settled.listed index live
  · intro other halive
    obtain ⟨hne, hlive, hnode, hinbox⟩ := exit_heard settled.serves live halive
    obtain ⟨states, hstates, hgood⟩ := updates_of_mail settled hlive lastWord hne
    have horder := settled.order other hlive
    rw [hstates, InOrder, List.pairwise_map] at horder
    refine .behind states ⟨by rw [hinbox, hstates], ?_, fun pair h => (hgood pair h).2.1,
      fun pair h => (hgood pair h).2.2.1, fun pair h => (hgood pair h).2.2.2, ?_, ?_, ?_, ?_⟩
    · rw [hnode]
      exact fun pair h => (hgood pair h).1
    · exact horder.imp fun hbefore => hbefore rfl
    · rw [Member.pair, hnode]
      exact settled.nodes other hlive
    · rw [hnode]
      rcases settled.catches other hlive with htop | ⟨entry, hentry, peers, hmsg⟩
      · exact .inl htop
      · rw [hstates] at hentry
        obtain ⟨pair, hpair, rfl⟩ := List.mem_map.mp hentry
        refine .inr ⟨pair, hpair, ?_⟩
        simp only [update, Msg.mk.injEq, Body.stateUpdate.injEq, true_and] at hmsg
        exact hmsg.1
    · rw [hnode]
      exact (settled.serves other hlive).1.subscribed index hne.symm live

theorem Parting.ne_of_mem (parting : Parting home top last left network)
    (live : (network index).live = true) {leaver : Fin n} (mem : leaver ∈ left) :
    leaver ≠ index := by
  rintro rfl
  have hgone := parting.gone leaver mem
  rw [live] at hgone
  cases hgone

theorem Parting.foreign (parting : Parting home top last left network)
    (distinct : ∀ first second, (home first).ip = (home second).ip → first = second)
    (live : (network index).live = true) {leaver : Fin n} (mem : leaver ∈ left) :
    home leaver ≠ address (network index).node := by
  rw [(parting.serves index live).1.located]
  exact fun heq => parting.ne_of_mem live mem (distinct _ _ (congrArg Address.ip heq))

theorem Parting.stays (parting : Parting home top last left network)
    (live : (network index).live = true) (serving : Serving home network index member)
    (silent : member.node.sync.pub = []) (parts : Parts home top last member left) :
    Parting home top last left (act network index member) := by
  have hother (other : Fin n) (hne : other ≠ index) :
      act network index member other = network other := by
    rw [act_ne network member hne, hear_silent _ _ silent]
  have hflush : flush member.node = member.node := by simp [flush, ← silent]
  refine ⟨parting.serves.stays live fun _ => serving, ?_, parting.nodup, ?_, ?_⟩
  · intro leaver hleaver
    rw [hother leaver (parting.ne_of_mem live hleaver)]
    exact parting.gone leaver hleaver
  · rintro other (hlive | hleft)
    · exact parting.listed other (.inl (live_of_act live hlive))
    · exact parting.listed other (.inr hleft)
  · intro other hlive
    by_cases hne : other = index
    · subst hne
      rw [act_self, hflush]
      exact parts
    · have hwas := live_of_act live hlive
      rw [hother other hne]
      exact parting.parts other hwas

theorem CaughtUp.taken {handled pending : List (Fin n)}
    (caught : CaughtUp home top last left member handled pending) {sender : Fin n} {msg : Msg}
    {rest : List (Fin n × Msg)} (taken : take member.inbox sender = some (msg, rest)) :
    msg = notice (home sender) ∧ ∃ earlier later, pending = earlier ++ sender :: later ∧
      rest = (earlier ++ later).map fun leaver => (leaver, notice (home leaver)) := by
  obtain ⟨before, after, hinbox, hrest, -⟩ := take_split taken
  rw [caught.inbox] at hinbox
  obtain ⟨earlier, others, hpending, hearlier, hothers⟩ := List.map_eq_append_iff.mp hinbox
  obtain ⟨first, later, hfirst, hpair, hlater⟩ := List.map_eq_cons_iff.mp hothers
  have hsender : first = sender := congrArg Prod.fst hpair
  have hmsg : notice (home first) = msg := congrArg Prod.snd hpair
  subst hsender
  refine ⟨hmsg.symm, earlier, later, by rw [hpending, hfirst], ?_⟩
  rw [hrest, ← hearlier, ← hlater, List.map_append]

theorem CaughtUp.fresh {handled earlier later : List (Fin n)} {sender : Fin n}
    (caught : CaughtUp home top last left member handled (earlier ++ sender :: later))
    (nodup : left.Nodup) : sender ∉ handled ∧ sender ∉ earlier ++ later := by
  have hnodup := caught.perm.nodup_iff.mpr nodup
  rw [List.nodup_append] at hnodup
  obtain ⟨-, hright, hdisjoint⟩ := hnodup
  have hmoved : (sender :: (earlier ++ later)).Nodup := (List.perm_middle.nodup_iff).mp hright
  exact ⟨fun h => hdisjoint sender h sender (by simp) rfl, (List.nodup_cons.mp hmoved).1⟩

theorem CaughtUp.rest {handled earlier later : List (Fin n)} {sender : Fin n}
    (caught : CaughtUp home top last left member handled (earlier ++ sender :: later))
    (nodup : left.Nodup) {after : Member n}
    (inbox : after.inbox = (earlier ++ later).map fun leaver => (leaver, notice (home leaver)))
    (version : after.node.sync.version = member.node.sync.version + 1)
    (peers : after.node.sync.peers = member.node.sync.peers.erase (home sender).ip)
    (sub : ∀ leaver, leaver ≠ sender → home leaver ∈ member.node.sync.sub →
      home leaver ∈ after.node.sync.sub) :
    CaughtUp home top last left after (handled ++ [sender]) (earlier ++ later) := by
  refine ⟨?_, inbox, ?_, ?_, ?_⟩
  · rw [List.append_assoc, List.singleton_append]
    exact .trans (List.Perm.append_left handled List.perm_middle.symm) caught.perm
  · rw [version, caught.version, List.length_append, List.length_singleton]
    omega
  · rw [peers, caught.peers, List.map_append, List.map_singleton, Dict.eraseAll_concat]
  · intro leaver hleaver
    refine sub leaver ?_ (caught.subscribed leaver ?_)
    · rintro rfl
      exact (caught.fresh nodup).2 hleaver
    · rcases List.mem_append.mp hleaver with h | h <;> simp [h]

private theorem Parting.handled (parting : Parting home top last left network)
    (distinct : ∀ first second, (home first).ip = (home second).ip → first = second)
    (live : (network index).live = true) {handled pending : List (Fin n)}
    (caught : CaughtUp home top last left (network index) handled pending) {sender : Fin n}
    {msg : Msg} {rest : List (Fin n × Msg)}
    (taken : take (network index).inbox sender = some (msg, rest)) :
    Parting home top last left (act network index ((network index).receive msg rest)) := by
  have hsound := parting.serves.sound live
  obtain ⟨hserving, -⟩ := parting.serves index live
  obtain ⟨rfl, earlier, later, rfl, hrest⟩ := caught.taken taken
  have hleft : sender ∈ left := caught.perm.subset (by simp)
  have hother : (notice (home sender)).sender ≠ address (network index).node :=
    parting.foreign distinct live hleft
  have hsubscribed : (notice (home sender)).sender ∈ (network index).node.sync.sub :=
    caught.subscribed sender (by simp)
  have hlisted : (home sender).ip ∈ (network index).node.sync.peers := by
    rw [caught.peers, Dict.mem_eraseAll]
    refine ⟨?_, parting.listed sender (.inr hleft)⟩
    intro hmem
    obtain ⟨leaver, hleaver, heq⟩ := List.mem_map.mp hmem
    exact (caught.fresh parting.nodup).1 (distinct _ _ heq ▸ hleaver)
  obtain ⟨after, hrun, hbecomes⟩ := run_departure hsound hother rfl hlisted hsubscribed
  have hkept (leaver : Fin n) (hdiffer : leaver ≠ sender)
      (hmem : home leaver ∈ (network index).node.sync.sub) :
      home leaver ∈ (network index).node.sync.sub.erase (home sender) := by
    refine (List.mem_erase_of_ne ?_).mpr hmem
    exact fun heq => hdiffer (distinct _ _ (congrArg Address.ip heq))
  rw [receive_ok hrun]
  refine parting.stays live ?_ hbecomes.sound.flushed (.caughtUp (handled ++ [sender])
    (earlier ++ later) (caught.rest parting.nodup hrest hbecomes.version hbecomes.peers
      fun leaver hdiffer hmem => hbecomes.sub _ (hkept leaver hdiffer hmem)))
  refine parting.serves.becomes live (by rwa [flush_self hbecomes.sound]) rfl ?_
  intro third hthird hlive
  exact hkept third (parting.ne_of_mem hlive hleft).symm (hserving.subscribed third hthird hlive)

theorem Behind.taken {leaver : Fin n} {state : Nat × PeerMap} {states : List (Nat × PeerMap)}
    (behind : Behind home top last leaver member (state :: states)) {sender : Fin n} {msg : Msg}
    {rest : List (Fin n × Msg)} (taken : take member.inbox sender = some (msg, rest)) :
    sender = leaver ∧ msg = update (home leaver) state.1 state.2 ∧
      rest = (states.map fun pair => (leaver, update (home leaver) pair.1 pair.2)) ++
        [(leaver, notice (home leaver))] := by
  obtain ⟨before, after, hinbox, hrest, hbefore⟩ := take_split taken
  have hall : ∀ entry ∈ member.inbox, entry.1 = leaver := by
    intro entry hentry
    rw [behind.inbox] at hentry
    rcases List.mem_append.mp hentry with h | h
    · obtain ⟨pair, -, rfl⟩ := List.mem_map.mp h
      rfl
    · rw [List.mem_singleton.mp h]
  have hsender : sender = leaver := hall (sender, msg) (by simp [hinbox])
  have hnone : before = [] := by
    refine List.eq_nil_iff_forall_not_mem.mpr ?_
    intro entry hentry
    exact hbefore entry hentry ((hall entry (by simp [hinbox, hentry])).trans hsender.symm)
  rw [behind.inbox, hnone, List.map_cons, List.nil_append, List.cons_append] at hinbox
  obtain ⟨hhead, htail⟩ := List.cons_eq_cons.mp hinbox
  exact ⟨hsender, (congrArg Prod.snd hhead).symm, by rw [hrest, hnone, List.nil_append, htail]⟩

theorem Behind.rest {leaver : Fin n} {state : Nat × PeerMap} {states : List (Nat × PeerMap)}
    (behind : Behind home top last leaver member (state :: states)) {after : Member n}
    (inbox : after.inbox = (states.map fun pair => (leaver, update (home leaver) pair.1 pair.2)) ++
      [(leaver, notice (home leaver))])
    (version : after.node.sync.version = state.1)
    (peers : state.1 = top → after.node.sync.peers = last)
    (sub : ∀ endpoint ∈ member.node.sync.sub, endpoint ∈ after.node.sync.sub) :
    Behind home top last leaver after states := by
  have horder := List.pairwise_cons.mp behind.order
  have hcapped := behind.capped state (by simp)
  refine ⟨inbox, ?_, fun pair h => behind.keyed pair (by simp [h]),
    fun pair h => behind.ported pair (by simp [h]), fun pair h => behind.capped pair (by simp [h]),
    horder.2, ⟨?_, ?_⟩, ?_, sub _ behind.subscribed⟩
  · intro pair hpair
    exact version ▸ horder.1 pair hpair
  · exact version.le.trans hcapped.le
  · exact fun htop => peers (version ▸ htop)
  · rcases behind.catches with htop | ⟨pair, hpair, htop⟩
    · have hnewer := behind.newer state (by simp)
      have hle := hcapped.le
      exact .inl (by omega)
    · rcases List.mem_cons.mp hpair with rfl | hpair
      · exact .inl (version.trans htop)
      · exact .inr ⟨pair, hpair, htop⟩

private theorem Parting.followed {leaver : Fin n} (parting : Parting home top last [leaver] network)
    (distinct : ∀ first second, (home first).ip = (home second).ip → first = second)
    (live : (network index).live = true) {state : Nat × PeerMap} {states : List (Nat × PeerMap)}
    (behind : Behind home top last leaver (network index) (state :: states)) {sender : Fin n}
    {msg : Msg} {rest : List (Fin n × Msg)}
    (taken : take (network index).inbox sender = some (msg, rest)) :
    Parting home top last [leaver] (act network index ((network index).receive msg rest)) := by
  have hsound := parting.serves.sound live
  obtain ⟨hserving, -⟩ := parting.serves index live
  obtain ⟨-, hmsg, hrest⟩ := behind.taken taken
  have hbody : msg.body = .stateUpdate state.1 state.2 := by rw [hmsg]; rfl
  have hother : msg.sender ≠ address (network index).node := by
    rw [hmsg]
    exact parting.foreign distinct live (by simp)
  rcases Nat.lt_or_eq_of_le (behind.newer state (by simp)) with hlt | heq
  · obtain ⟨after, hrun, hbecomes⟩ := run_newer hsound hother hbody hlt
      (behind.keyed state (by simp)) (behind.ported state (by simp))
    rw [receive_ok hrun]
    refine parting.stays live (parting.serves.becomes live (by rwa [flush_self hbecomes.sound]) rfl
      hserving.subscribed) hbecomes.sound.flushed (.behind states (behind.rest hrest
      hbecomes.version ?_ hbecomes.sub))
    intro htop
    dsimp only
    rw [hbecomes.peers]
    exact (behind.capped state (by simp)).same htop
  · have hrun := run_equal hother hbody heq.symm
    rw [receive_ok hrun]
    refine parting.stays live (parting.serves.becomes live (.same hsound (flush_self hsound)) rfl
      hserving.subscribed) hsound.flushed (.behind states (behind.rest hrest heq ?_
      fun _ h => h))
    intro htop
    exact behind.node.same (heq.trans htop)

theorem Parting.deliver (parting : Parting home top last left network)
    (distinct : ∀ first second, (home first).ip = (home second).ip → first = second)
    (live : (network index).live = true) {sender : Fin n} {msg : Msg}
    {rest : List (Fin n × Msg)} (taken : take (network index).inbox sender = some (msg, rest)) :
    Parting home top last left (act network index ((network index).receive msg rest)) := by
  cases parting.parts index live with
  | caughtUp handled pending caught => exact parting.handled distinct live caught taken
  | behind states behind =>
      cases states with
      | nil => exact parting.handled distinct live (behind_last behind) taken
      | cons state states => exact parting.followed distinct live behind taken

theorem Parting.addPeer (parting : Parting home top last left network)
    (live : (network index).live = true) (change : Change) :
    Parting home top last left (act network index ((network index).addPeer change)) := by
  refine parting.stays live (parting.serves.addPeer live change) (parting.serves index live).2 ?_
  cases parting.parts index live with
  | caughtUp handled pending caught =>
      exact .caughtUp handled pending ⟨caught.perm, caught.inbox, caught.version, caught.peers,
        caught.subscribed⟩
  | behind states behind =>
      exact .behind states ⟨behind.inbox, behind.newer, behind.keyed, behind.ported, behind.capped,
        behind.order, behind.node, behind.catches, behind.subscribed⟩

/-- When another node has the last word, no state of an earlier leaver is under way. -/
private theorem Parting.overtaken (parting : Parting home top last left network)
    (stayed : index ∉ left) (lastWord : LastWord network index) (different : other ≠ index)
    (live : (network other).live = true) : ∃ handled pending,
      CaughtUp home top last left (network other) handled pending := by
  cases parting.parts other live with
  | caughtUp handled pending caught => exact ⟨handled, pending, caught⟩
  | behind states behind =>
      cases states with
      | nil => exact ⟨_, _, behind_last behind⟩
      | cons state states =>
          rename_i leaver
          have hentry : (leaver, update (home leaver) state.1 state.2) ∈
              (network other).inbox := by simp [behind.inbox]
          have hsame := (lastWord other different live _ hentry state.1 rfl).1
          exact absurd hsame fun heq => stayed (by simp [← heq])

theorem Parting.exit (parting : Parting home top last left network)
    (live : (network index).live = true) (lastWord : LastWord network index) :
    Parting home top last (left ++ [index]) (act network index (network index).exit) := by
  have hfresh : index ∉ left := by
    intro hmem
    rw [parting.gone index hmem] at live
    cases live
  have hself : (act network index (network index).exit index).live = false := by
    rw [act_self]
    rfl
  refine ⟨parting.serves.exit live, ?_, ?_, ?_, ?_⟩
  · intro leaver hleaver
    rcases List.mem_append.mp hleaver with h | h
    · have hne : leaver ≠ index := fun heq => hfresh (heq ▸ h)
      rw [act_ne network _ hne, hear_live]
      exact parting.gone leaver h
    · rw [List.mem_singleton.mp h]
      exact hself
  · rw [List.nodup_append]
    refine ⟨parting.nodup, List.nodup_singleton index, ?_⟩
    intro leaver hleaver other hother
    rw [List.mem_singleton.mp hother]
    exact fun heq => hfresh (heq ▸ hleaver)
  · rintro other (hlive | hleft)
    · exact parting.listed other (.inl (live_of_act live hlive))
    · rcases List.mem_append.mp hleft with h | h
      · exact parting.listed other (.inr h)
      · exact parting.listed other (.inl (List.mem_singleton.mp h ▸ live))
  · intro other halive
    obtain ⟨hne, hlive, hnode, hinbox⟩ := exit_heard parting.serves live halive
    have hsubscribed := (parting.serves other hlive).1.subscribed index hne.symm live
    obtain ⟨handled, pending, caught⟩ := parting.overtaken hfresh lastWord hne hlive
    refine .caughtUp handled (pending ++ [index]) ⟨?_, ?_, ?_, ?_, ?_⟩
    · rw [← List.append_assoc]
      exact caught.perm.append_right [index]
    · rw [hinbox, caught.inbox, List.map_append]
      rfl
    · rw [hnode]
      exact caught.version
    · rw [hnode]
      exact caught.peers
    · intro leaver hleaver
      rw [hnode]
      rcases List.mem_append.mp hleaver with h | h
      · exact caught.subscribed leaver h
      · exact List.mem_singleton.mp h ▸ hsubscribed

theorem Parting.caught (parting : Parting home top last left network) (calm : Calm network)
    (live : (network index).live = true) :
    (network index).inbox = [] ∧ (network index).node.sync.version = top + left.length ∧
      (network index).node.sync.peers =
        last.eraseAll (left.map fun leaver => (home leaver).ip) := by
  have hcalm (leaver : Fin n) (hmem : (leaver, notice (home leaver)) ∈ (network index).inbox) :
      False := Bool.noConfusion (calm index live _ hmem)
  cases parting.parts index live with
  | behind states behind =>
      rename_i leaver
      exact (hcalm leaver (by simp [behind.inbox])).elim
  | caughtUp handled pending caught =>
      have hnone : pending = [] := by
        refine List.eq_nil_iff_forall_not_mem.mpr ?_
        intro leaver hleaver
        refine hcalm leaver ?_
        rw [caught.inbox]
        exact List.mem_map.mpr ⟨leaver, hleaver, rfl⟩
      have hperm := caught.perm
      rw [hnone, List.append_nil] at hperm
      refine ⟨by rw [caught.inbox, hnone]; rfl, ?_, ?_⟩
      · rw [caught.version, hperm.length_eq]
      · rw [caught.peers]
        exact Dict.eraseAll_perm last (hperm.map _)

theorem Parting.settled (parting : Parting home top last left network) (calm : Calm network)
    (distinct : ∀ first second, (home first).ip = (home second).ip → first = second) :
    Settled home (top + left.length) (last.eraseAll (left.map fun leaver => (home leaver).ip))
      network := by
  have hcaught (index : Fin n) (live : (network index).live = true) := parting.caught calm live
  refine ⟨parting.serves, ?_, ?_, ?_, ?_, ?_, ?_⟩
  · intro index live
    rw [Dict.mem_eraseAll]
    refine ⟨?_, parting.listed index (.inl live)⟩
    intro hmem
    obtain ⟨leaver, hleaver, heq⟩ := List.mem_map.mp hmem
    exact parting.ne_of_mem live hleaver (distinct _ _ heq)
  · exact fun index live => ⟨index, live, (hcaught index live).2.1⟩
  · intro index live
    have hpair : (network index).pair = (top + left.length,
        last.eraseAll (left.map fun leaver => (home leaver).ip)) :=
      Prod.ext (hcaught index live).2.1 (hcaught index live).2.2
    exact hpair ▸ Capped.latest _ _
  · intro index live entry hentry
    rw [(hcaught index live).1] at hentry
    cases hentry
  · intro index live
    rw [(hcaught index live).1]
    exact List.Pairwise.nil
  · exact fun index live => .inl (hcaught index live).2.1

end WgBp.Mq
