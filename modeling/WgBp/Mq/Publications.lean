import WgBp.Mq.Invariant

/-! The steps of a settled network: additions, publications and deliveries keep
it settled. The conditions under which they do are here as well. -/
namespace WgBp.Mq

open WgBp.Library WgBp.Library.Procedure WgBp.Library.Mailbox WgBp.Library.Transition
open WgBp.Library.Versioned WgBp.Model

variable {n : Nat} {home : Fin n → Address} {network : Network n} {index other : Fin n}
  {member : Member n} {top : Nat} {last : PeerMap} {left : List (Fin n)}

def Msg.announcesDeparture (msg : Msg) : Bool :=
  match msg.body with
  | .departureNotice _ => true
  | _ => false

def Msg.carried (msg : Msg) : Option Nat :=
  match msg.body with
  | .stateUpdate version _ => some version
  | _ => none

def Calm (network : Network n) : Prop :=
  ∀ index, (network index).live = true → ∀ entry ∈ (network index).inbox,
    entry.2.announcesDeparture = false

/-- The publisher is at the highest version of a live node, or at least two below. -/
def Apart (network : Network n) (index : Fin n) : Prop :=
  (∀ other, (network other).live = true →
    (network other).node.sync.version ≤ (network index).node.sync.version) ∨
  ∃ other, (network other).live = true ∧
    (network index).node.sync.version + 1 < (network other).node.sync.version

/-- A publication about another node names its port and comes after `add_peer`. -/
def Introduced (node : MqNode) (change : Change) : Prop :=
  change.virtualIp ≠ node.state.ip →
    portGiven change ≠ none ∧ change.virtualIp ∈ node.state.peers

/-- Every state under way to the others is the leaver's own, and not outdated. -/
def LastWord (network : Network n) (index : Fin n) : Prop :=
  ∀ other, other ≠ index → (network other).live = true →
    ∀ entry ∈ (network other).inbox, ∀ version ∈ entry.2.carried,
      entry.1 = index ∧ (network other).node.sync.version ≤ version

def Orderly (network : Network n) : Label n → Prop
  | .publish index change =>
    Calm network ∧ Apart network index ∧ Introduced (network index).node change
  | .exit index => LastWord network index
  | _ => True

instance (network : Network n) (label : Label n) : Decidable (Orderly network label) :=
  match label with
  | .publish index change => inferInstanceAs (Decidable
      ((∀ other, _ → ∀ entry ∈ (network other).inbox, entry.2.announcesDeparture = false) ∧
        ((∀ other, (network other).live = true →
            (network other).node.sync.version ≤ (network index).node.sync.version) ∨
          ∃ other, (network other).live = true ∧
            (network index).node.sync.version + 1 < (network other).node.sync.version) ∧
        (change.virtualIp ≠ (network index).node.state.ip → _ ∧ _)))
  | .exit index => inferInstanceAs (Decidable (∀ other, other ≠ index → _ →
      ∀ entry ∈ (network other).inbox, ∀ version ∈ entry.2.carried, _ ∧ _))
  | .addPeer _ _ => inferInstanceAs (Decidable True)
  | .deliver _ _ => inferInstanceAs (Decidable True)

theorem Serves.becomes (serves : Serves home network) (live : (network index).live = true)
    {version : Nat} {peers : PeerMap} {sub : List Address}
    (becomes : Becomes (network index).node version peers sub (flush member.node))
    (listening : member.listening = true)
    (subscribed : ∀ other, other ≠ index → (network other).live = true → home other ∈ sub) :
    Serving home network index member where
  listening := listening
  sound := becomes.sound
  located := becomes.address.trans (serves index live).1.located
  subscribed := fun other hne hlive => becomes.sub _ (subscribed other hne hlive)

theorem receive_ok {msg : Msg} {rest : List (Fin n × Msg)} {after : MqNode}
    (run : (listenForUpdates msg).run member.node = .ok () after) :
    member.receive msg rest = { member with node := after, inbox := rest, listening := true } := by
  simp [Member.receive, run, returned]

theorem Serves.addPeer (serves : Serves home network) (live : (network index).live = true)
    (change : Change) : Serving home network index ((network index).addPeer change) := by
  have hadded := (serves.sound live).addPeer change.virtualIp change.publicKey change.endpointIp
    change.endpointPort
  have hsame := State.addPeer_same (network index).node.state change.virtualIp change.publicKey
    change.endpointIp change.endpointPort
  obtain ⟨hserving, -⟩ := serves index live
  refine ⟨hserving.listening, ?_, ?_, hserving.subscribed⟩
  · rw [← flush_self hadded] at hadded
    exact hadded
  · rw [← hserving.located]
    simp [address, Member.addPeer, hsame.ip]

theorem Settled.addPeer (settled : Settled home top last network)
    (live : (network index).live = true) (change : Change) :
    Settled home top last (act network index ((network index).addPeer change)) :=
  settled.stays ⟨live, settled.serves.addPeer live change, Nat.le_refl _,
    .nothing (settled.serves index live).2, fun _ h => h, settled.order index live⟩ live
    (.keeps (settled.nodes index live) (settled.catches index live) fun h => h)

private theorem Settled.received (settled : Settled home top last network)
    (live : (network index).live = true) {sender : Fin n} {msg : Msg}
    {rest : List (Fin n × Msg)} (taken : take (network index).inbox sender = some (msg, rest))
    (heard held : Nat × PeerMap) (msgIs : msg = update (home sender) heard.1 heard.2)
    {after : MqNode} (run : (listenForUpdates msg).run (network index).node = .ok () after)
    (becomes : Becomes (network index).node held.1 held.2
      (network index).node.sync.sub (flush after))
    (grows : (network index).node.sync.version ≤ held.1) (newer : heard.1 ≤ held.1)
    (capped : Capped top last held)
    (publishes : after.sync.pub = [] ∨
      after.sync.pub = [update (home index) held.1 held.2]) :
    Settled home top last (act network index ((network index).receive msg rest)) := by
  have hversion : after.sync.version = held.1 := becomes.version
  have hpeers : after.sync.peers = held.2 := becomes.peers
  rw [receive_ok run]
  have hserving : Serving home network index
      { network index with node := after, inbox := rest, listening := true } :=
    settled.serves.becomes live becomes rfl (settled.serves index live).1.subscribed
  refine settled.stays ⟨live, hserving, ?_, ?_, ?_, (settled.order index live).take taken⟩ live
    (.keeps ?_ ?_ ?_)
  · simpa [hversion] using grows
  · rcases publishes with h | h
    · exact .nothing h
    · exact .state (by simpa [hversion, hpeers] using h)
  · exact fun entry hentry => (mem_of_take taken entry).mpr (.inr hentry)
  · simpa [Member.pair, hversion, hpeers] using capped
  · have hle := capped.le
    rcases settled.catches index live with htop | ⟨entry, hentry, peers, hmsg⟩
    · exact .inl (by dsimp only; omega)
    · rcases (mem_of_take taken entry).mp hentry with rfl | hrest
      · have hequal : update (home sender) heard.1 heard.2 = update (home sender) top peers :=
          msgIs.symm.trans hmsg
        have htop : heard.1 = top := by
          simp only [update, Msg.mk.injEq, Body.stateUpdate.injEq, true_and] at hequal
          exact hequal.1
        exact .inl (by dsimp only; omega)
      · exact .inr ⟨entry, hrest, peers, hmsg⟩
  · intro htop
    have hle := capped.le
    dsimp only
    omega

theorem Settled.deliver (settled : Settled home top last network)
    (distinct : ∀ first second, (home first).ip = (home second).ip → first = second)
    (live : (network index).live = true) {sender : Fin n} {msg : Msg}
    {rest : List (Fin n × Msg)} (taken : take (network index).inbox sender = some (msg, rest)) :
    Settled home top last (act network index ((network index).receive msg rest)) := by
  have hsound := settled.serves.sound live
  have hlocated := (settled.serves index live).1.located
  have hmem := (mem_of_take taken (sender, msg)).mpr (.inl rfl)
  obtain ⟨hne, ⟨version, peers⟩, hcarries, hcapped⟩ := settled.mail index live _ hmem
  have hmsg : msg = update (home sender) version peers := hcarries.msg
  have hbody : msg.body = .stateUpdate version peers := by rw [hmsg]; rfl
  have hother : msg.sender ≠ address (network index).node := by
    rw [hmsg, hlocated]
    exact fun heq => hne (distinct _ _ (congrArg Address.ip heq))
  have hnode := settled.nodes index live
  rcases Nat.lt_trichotomy (network index).node.sync.version version with hlt | heq | hgt
  · obtain ⟨after, hrun, hbecomes⟩ :=
      run_newer hsound hother hbody hlt hcarries.keyed hcarries.ported
    exact settled.received live taken (version, peers) (version, peers) hmsg hrun
      (by rwa [flush_self hbecomes.sound]) (Nat.le_of_lt hlt) (Nat.le_refl _) hcapped
      (.inl hbecomes.sound.flushed)
  · exact settled.received live taken (version, peers) (network index).pair hmsg
      (run_equal hother hbody heq.symm) (.same hsound (flush_self hsound)) (Nat.le_refl _)
      (Nat.le_of_eq heq.symm) hnode (.inl hsound.flushed)
  · exact settled.received live taken (version, peers) (network index).pair hmsg
      (run_older hother hbody hgt) (.same hsound (flush_publishState hsound)) (Nat.le_refl _)
      (Nat.le_of_lt hgt) hnode (.inr (hlocated ▸ publishState_pub hsound))

theorem Settled.publish (settled : Settled home top last network)
    (live : (network index).live = true) {change : Change} (apart : Apart network index)
    (introduced : Introduced (network index).node change) :
    ∃ top' last', Settled home top' last' (act network index
      { network index with node := publishChange (network index).node change }) := by
  have hsound := settled.serves.sound live
  obtain ⟨hserving, -⟩ := settled.serves index live
  obtain ⟨hbecomes, hpub⟩ := publishChange_becomes hsound (fun h => (introduced h).1)
    fun h => (introduced h).2
  rw [hserving.located] at hpub
  generalize hafter : publishChange (network index).node change = after at hbecomes hpub ⊢
  have hversion : after.sync.version = (network index).node.sync.version + 1 := hbecomes.version
  have hpeers : after.sync.peers = (network index).node.sync.peers.set change.virtualIp
    (publishedRecord (network index).node change) := hbecomes.peers
  have hacts : Acts home network index { network index with node := after } :=
    ⟨live, settled.serves.becomes live hbecomes hserving.listening hserving.subscribed,
      by dsimp only; omega, .state (by rw [hpub, hversion, hpeers]), fun _ h => h,
      settled.order index live⟩
  have hle := (settled.nodes index live).le
  rcases apart with hhighest | ⟨above, habove, hbelow⟩
  · obtain ⟨holder, hholder, htop⟩ := settled.holder index live
    have hbound := hhighest holder hholder
    have hlast : (network index).node.sync.peers = last :=
      (settled.nodes index live).same (by simp only [Member.pair] at hle ⊢; omega)
    refine ⟨_, _, settled.stays hacts live (.raises ?_ (by simp [hpub]) ?_)⟩
    · simp only [Member.pair] at hle ⊢
      omega
    · intro other hother
      dsimp only
      rw [hpeers, hlast, Dict.mem_set]
      exact .inr (settled.listed other hother)
  · have hcap := (settled.nodes above habove).le
    simp only [Member.pair] at hcap
    refine ⟨_, _, settled.stays hacts live (.keeps (.of_lt ?_) ?_ ?_)⟩
    · simp only [Member.pair]
      omega
    · rcases settled.catches index live with htop | hcatches
      · omega
      · exact .inr hcatches
    · intro htop
      omega

end WgBp.Mq
