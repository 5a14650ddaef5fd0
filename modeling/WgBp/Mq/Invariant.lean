import WgBp.Mq.Network
import WgBp.Library.Versioned

/-! The two kinds of network an orderly run goes through. While no departure is
under way the network is settled: some live node holds the top version, and
whoever is behind has it in its mailbox. From a departure on the nodes count the
notices they have handled, each in an order of its own. -/
namespace WgBp.Mq

open WgBp.Library WgBp.Library.Procedure WgBp.Library.Mailbox WgBp.Library.Transition
open WgBp.Library.Versioned WgBp.Model

variable {n : Nat} {home : Fin n → Address} {network : Network n} {index other : Fin n}
  {member : Member n} {top : Nat} {last : PeerMap}

def Member.pair (member : Member n) : Nat × PeerMap :=
  (member.node.sync.version, member.node.sync.peers)

/-- A live node whose listener is at work, subscribed to all other live nodes. -/
structure Serving (home : Fin n → Address) (network : Network n) (index : Fin n)
    (member : Member n) : Prop where
  listening : member.listening = true
  sound : Sound (flush member.node)
  located : address member.node = home index
  subscribed : ∀ other, other ≠ index → (network other).live = true →
    home other ∈ member.node.sync.sub

def Serves (home : Fin n → Address) (network : Network n) : Prop :=
  ∀ index, (network index).live = true → Serving home network index (network index) ∧
    (network index).node.sync.pub = []

theorem Serves.sound (serves : Serves home network) (live : (network index).live = true) :
    Sound (network index).node := by
  obtain ⟨hserving, hflushed⟩ := serves index live
  have hsame : flush (network index).node = (network index).node := by
    simp [flush, ← hflushed]
  exact hsame ▸ hserving.sound

@[simp] theorem hear_node (member : Member n) (publisher : Fin n) (source : MqNode) :
    (member.hear publisher source).node = member.node := by
  unfold Member.hear
  split <;> rfl

@[simp] theorem hear_live (member : Member n) (publisher : Fin n) (source : MqNode) :
    (member.hear publisher source).live = member.live := by
  unfold Member.hear
  split <;> rfl

@[simp] theorem hear_listening (member : Member n) (publisher : Fin n) (source : MqNode) :
    (member.hear publisher source).listening = member.listening := by
  unfold Member.hear
  split <;> rfl

theorem hear_silent (member : Member n) (publisher : Fin n) {source : MqNode}
    (silent : source.sync.pub = []) : member.hear publisher source = member := by
  unfold Member.hear
  split
  · simp [silent]
  · rfl

theorem Serves.heard (serves : Serves home network) (publishes : (network index).live = true)
    {source : MqNode} (located : address source = home index) (different : other ≠ index)
    (live : (network other).live = true) :
    ((network other).hear index source).inbox =
      (network other).inbox ++ source.sync.pub.map fun msg => (index, msg) := by
  have hsubscribed := (serves other live).1.subscribed index different.symm publishes
  unfold Member.hear
  rw [located, if_pos ⟨live, hsubscribed⟩]

theorem live_of_act (publishes : (network index).live = true)
    (live : (act network index member other).live = true) : (network other).live = true := by
  by_cases h : other = index
  · exact h ▸ publishes
  · rwa [act_ne network member h, hear_live] at live

theorem Serves.stays (serves : Serves home network) (publishes : (network index).live = true)
    (actor : member.live = true → Serving home network index member) :
    Serves home (act network index member) := by
  intro other live
  have hshrink : ∀ third, (act network index member third).live = true →
      (network third).live = true := fun third => live_of_act publishes
  by_cases h : other = index
  · subst h
    rw [act_self] at live ⊢
    obtain ⟨hlistening, hsound, hlocated, hsubscribed⟩ := actor live
    exact ⟨⟨hlistening, hsound, hlocated,
      fun third hne hlive => hsubscribed third hne (hshrink third hlive)⟩, rfl⟩
  · have hlive := hshrink other live
    obtain ⟨⟨hlistening, hsound, hlocated, hsubscribed⟩, hflushed⟩ := serves other hlive
    rw [act_ne network member h]
    exact ⟨⟨by simpa using hlistening, by simpa using hsound, by simpa using hlocated,
      fun third hne hthird => by simpa using hsubscribed third hne (hshrink third hthird)⟩,
      by simpa using hflushed⟩

def Msg.version (msg : Msg) : Nat :=
  match msg.body with
  | .stateUpdate version _ => version
  | _ => 0

def Before (first second : Msg) : Prop := first.version ≤ second.version

structure Carries (home : Fin n → Address) (network : Network n) (entry : Fin n × Msg)
    (pair : Nat × PeerMap) : Prop where
  msg : entry.2 = update (home entry.1) pair.1 pair.2
  keyed : Keyed pair.2
  ported : Ported pair.2
  known : pair.1 ≤ (network entry.1).node.sync.version

/-- The node holds the top version or is about to receive it. -/
def Catches (home : Fin n → Address) (top : Nat) (member : Member n) : Prop :=
  member.node.sync.version = top ∨
    ∃ entry ∈ member.inbox, ∃ peers, entry.2 = update (home entry.1) top peers

structure Settled (home : Fin n → Address) (top : Nat) (last : PeerMap) (network : Network n) :
    Prop where
  serves : Serves home network
  listed : ∀ index, (network index).live = true → (home index).ip ∈ last
  holder : ∀ index, (network index).live = true →
    ∃ other, (network other).live = true ∧ (network other).node.sync.version = top
  nodes : ∀ index, (network index).live = true → Capped top last (network index).pair
  mail : ∀ index, (network index).live = true → ∀ entry ∈ (network index).inbox,
    entry.1 ≠ index ∧ ∃ pair, Carries home network entry pair ∧ Capped top last pair
  order : ∀ index, (network index).live = true → InOrder Before (network index).inbox
  catches : ∀ index, (network index).live = true → Catches home top (network index)

inductive Publishes (home : Fin n → Address) (index : Fin n) (member : Member n) : Prop where
  | nothing (silent : member.node.sync.pub = [])
  | state (published : member.node.sync.pub =
      [update (home index) member.node.sync.version member.node.sync.peers])

structure Acts (home : Fin n → Address) (network : Network n) (index : Fin n)
    (member : Member n) : Prop where
  live : (network index).live = true
  serving : Serving home network index member
  grows : (network index).node.sync.version ≤ member.node.sync.version
  publishes : Publishes home index member
  inbox : ∀ entry ∈ member.inbox, entry ∈ (network index).inbox
  order : InOrder Before member.inbox

theorem Acts.version_le (acts : Acts home network index member) (other : Fin n) :
    (network other).node.sync.version ≤ (act network index member other).node.sync.version := by
  by_cases h : other = index
  · subst h
    rw [act_self]
    exact acts.grows
  · rw [act_ne network member h, hear_node]

theorem Acts.mem_heard (acts : Acts home network index member) (serves : Serves home network)
    (different : other ≠ index) (live : (network other).live = true) (entry : Fin n × Msg) :
    entry ∈ (act network index member other).inbox ↔ entry ∈ (network other).inbox ∨
      member.node.sync.pub ≠ [] ∧ entry = (index, update (home index)
        member.node.sync.version member.node.sync.peers) := by
  rw [act_ne network member different,
    serves.heard acts.live acts.serving.located different live]
  cases acts.publishes with
  | nothing silent => simp [silent]
  | state published => simp [published]

theorem Acts.order_heard (acts : Acts home network index member) (settled : Settled home top last
    network) (different : other ≠ index) (live : (network other).live = true) :
    InOrder Before (act network index member other).inbox := by
  rw [act_ne network member different,
    settled.serves.heard acts.live acts.serving.located different live]
  have hold := settled.order other live
  cases acts.publishes with
  | nothing silent => simpa [silent] using hold
  | state published =>
      rw [published]
      refine hold.push ?_
      intro entry hentry hsender
      obtain ⟨_, pair, hcarries, _⟩ := settled.mail other live entry hentry
      have hversion : entry.2.version = pair.1 := by rw [hcarries.msg]; rfl
      have hknown := hcarries.known
      rw [hsender] at hknown
      rw [Before, hversion]
      exact hknown.trans acts.grows

inductive Moves (home : Fin n → Address) (network : Network n) (index : Fin n)
    (member : Member n) (top : Nat) (last : PeerMap) : Nat → PeerMap → Prop where
  | keeps (capped : Capped top last member.pair) (catches : Catches home top member)
      (stays : (network index).node.sync.version = top → member.node.sync.version = top) :
      Moves home network index member top last top last
  | raises (version : member.node.sync.version = top + 1) (published : member.node.sync.pub ≠ [])
      (listed : ∀ other, (network other).live = true →
        (home other).ip ∈ member.node.sync.peers) :
      Moves home network index member top last (top + 1) member.node.sync.peers

variable {top' : Nat} {last' : PeerMap}

theorem Moves.caps (moves : Moves home network index member top last top' last')
    {pair : Nat × PeerMap} (capped : Capped top last pair) : Capped top' last' pair := by
  cases moves with
  | keeps _ _ _ => exact capped
  | raises _ _ _ => exact capped.raise _

theorem Moves.capped (moves : Moves home network index member top last top' last') :
    Capped top' last' member.pair := by
  cases moves with
  | keeps capped _ _ => exact capped
  | raises version _ _ =>
      have hpair : member.pair = (top + 1, member.node.sync.peers) := by
        simp [Member.pair, version]
      exact hpair ▸ Capped.latest _ _

theorem Moves.catches (moves : Moves home network index member top last top' last') :
    Catches home top' member := by
  cases moves with
  | keeps _ catches _ => exact catches
  | raises version _ _ => exact .inl version

theorem Moves.listed (moves : Moves home network index member top last top' last')
    (settled : Settled home top last network) (live : (network other).live = true) :
    (home other).ip ∈ last' := by
  cases moves with
  | keeps _ _ _ => exact settled.listed other live
  | raises _ _ listed => exact listed other live

theorem Moves.holder (moves : Moves home network index member top last top' last')
    (settled : Settled home top last network) (live : (network index).live = true)
    (alive : member.live = true) :
    ∃ holder, (act network index member holder).live = true ∧
      (act network index member holder).node.sync.version = top' := by
  cases moves with
  | raises version _ _ => exact ⟨index, by simpa using alive, by simpa [flush] using version⟩
  | keeps _ _ stays =>
      obtain ⟨holder, hholder, htop⟩ := settled.holder index live
      by_cases hsame : holder = index
      · subst hsame
        exact ⟨holder, by simpa using alive, by simpa [flush] using stays htop⟩
      · refine ⟨holder, ?_, ?_⟩ <;> rw [act_ne network member hsame]
        · simpa using hholder
        · simpa using htop

theorem Moves.catches_heard (moves : Moves home network index member top last top' last')
    (settled : Settled home top last network) (acts : Acts home network index member)
    (different : other ≠ index) (live : (network other).live = true) :
    Catches home top' (act network index member other) := by
  have hheard := acts.mem_heard settled.serves different live
  cases moves with
  | keeps _ _ _ =>
      rcases settled.catches other live with htop | ⟨entry, hentry, peers, hmsg⟩
      · refine .inl ?_
        rw [act_ne network member different]
        simpa using htop
      · exact .inr ⟨entry, (hheard entry).mpr (.inl hentry), peers, hmsg⟩
  | raises version published _ =>
      refine .inr ⟨_, (hheard _).mpr (.inr ⟨published, rfl⟩), member.node.sync.peers, ?_⟩
      rw [version]

theorem Settled.stays (settled : Settled home top last network)
    (acts : Acts home network index member) (alive : member.live = true)
    (moves : Moves home network index member top last top' last') :
    Settled home top' last' (act network index member) := by
  have hlive : ∀ other, (act network index member other).live = true →
      (network other).live = true := fun other => live_of_act acts.live
  have hcarries (entry : Fin n × Msg) (pair : Nat × PeerMap)
      (h : Carries home network entry pair) :
      Carries home (act network index member) entry pair :=
    ⟨h.msg, h.keyed, h.ported, h.known.trans (acts.version_le entry.1)⟩
  have hstate : Carries home (act network index member)
      (index, update (home index) member.node.sync.version member.node.sync.peers)
      member.pair :=
    ⟨rfl, acts.serving.sound.keyed, acts.serving.sound.ported, by simp [Member.pair, flush]⟩
  refine ⟨settled.serves.stays acts.live fun _ => acts.serving, ?_, ?_, ?_, ?_, ?_, ?_⟩
  · exact fun other h => moves.listed settled (hlive other h)
  · exact fun _ _ => moves.holder settled acts.live alive
  · intro other h
    by_cases hsame : other = index
    · subst hsame
      simpa [Member.pair, flush] using moves.capped
    · rw [act_ne network member hsame]
      simpa [Member.pair] using moves.caps (settled.nodes other (hlive other h))
  · intro other h entry hentry
    have hold (held : entry ∈ (network other).inbox) : entry.1 ≠ other ∧
        ∃ pair, Carries home (act network index member) entry pair ∧
          Capped top' last' pair := by
      obtain ⟨hne, pair, hpair, hcapped⟩ := settled.mail other (hlive other h) entry held
      exact ⟨hne, pair, hcarries entry pair hpair, moves.caps hcapped⟩
    by_cases hsame : other = index
    · subst hsame
      rw [act_self] at hentry
      exact hold (acts.inbox entry hentry)
    · rcases (acts.mem_heard settled.serves hsame (hlive other h) entry).mp hentry with h | h
      · exact hold h
      · obtain ⟨-, rfl⟩ := h
        exact ⟨fun heq => hsame heq.symm, _, hstate, moves.capped⟩
  · intro other h
    by_cases hsame : other = index
    · subst hsame
      simpa using acts.order
    · exact acts.order_heard settled hsame (hlive other h)
  · intro other h
    by_cases hsame : other = index
    · subst hsame
      simpa [Catches, flush] using moves.catches
    · exact moves.catches_heard settled acts hsame (hlive other h)

/-- A node that has handled some of the notices and will receive the others. -/
structure CaughtUp (home : Fin n → Address) (top : Nat) (last : PeerMap) (left : List (Fin n))
    (member : Member n) (handled pending : List (Fin n)) : Prop where
  perm : (handled ++ pending).Perm left
  inbox : member.inbox = pending.map fun leaver => (leaver, notice (home leaver))
  version : member.node.sync.version = top + handled.length
  peers : member.node.sync.peers = last.eraseAll (handled.map fun leaver => (home leaver).ip)
  subscribed : ∀ leaver ∈ pending, home leaver ∈ member.node.sync.sub

structure Behind (home : Fin n → Address) (top : Nat) (last : PeerMap) (leaver : Fin n)
    (member : Member n) (states : List (Nat × PeerMap)) : Prop where
  inbox : member.inbox =
    (states.map fun pair => (leaver, update (home leaver) pair.1 pair.2)) ++
      [(leaver, notice (home leaver))]
  newer : ∀ pair ∈ states, member.node.sync.version ≤ pair.1
  keyed : ∀ pair ∈ states, Keyed pair.2
  ported : ∀ pair ∈ states, Ported pair.2
  capped : ∀ pair ∈ states, Capped top last pair
  order : states.Pairwise fun first second => first.1 ≤ second.1
  node : Capped top last member.pair
  catches : member.node.sync.version = top ∨ ∃ pair ∈ states, pair.1 = top
  subscribed : home leaver ∈ member.node.sync.sub

/-- What a live node has still to do about the departures. -/
inductive Parts (home : Fin n → Address) (top : Nat) (last : PeerMap) (member : Member n) :
    List (Fin n) → Prop where
  | caughtUp {left : List (Fin n)} (handled pending : List (Fin n))
      (caught : CaughtUp home top last left member handled pending) :
      Parts home top last member left
  | behind {leaver : Fin n} (states : List (Nat × PeerMap))
      (behind : Behind home top last leaver member states) : Parts home top last member [leaver]

structure Parting (home : Fin n → Address) (top : Nat) (last : PeerMap) (left : List (Fin n))
    (network : Network n) : Prop where
  serves : Serves home network
  gone : ∀ leaver ∈ left, (network leaver).live = false
  nodup : left.Nodup
  listed : ∀ index, (network index).live = true ∨ index ∈ left → (home index).ip ∈ last
  parts : ∀ index, (network index).live = true → Parts home top last (network index) left

end WgBp.Mq
