import WgBp.Mq.Handling
import WgBp.Library.Mailbox
import WgBp.Library.Transition

/-! A network of `MessageQueueSync` nodes over PUB/SUB: nothing is dropped, each
publisher's messages stay in order, and no order holds between publishers. Each
call (`publishChange`, the handling of a message, `exitSync`) is one step. -/
namespace WgBp.Mq

open WgBp.Library WgBp.Library.Procedure WgBp.Library.Mailbox WgBp.Library.Transition WgBp.Model

variable {n : Nat}

/-- A node with what it has received and not yet handled. The listening task
ends for good when a message makes it raise. -/
structure Member (n : Nat) where
  node : MqNode
  inbox : List (Fin n × Msg)
  live : Bool
  listening : Bool
  deriving DecidableEq

abbrev Network (n : Nat) := Fin n → Member n

inductive Label (n : Nat) where
  | addPeer (node : Fin n) (change : Change)
  | publish (node : Fin n) (change : Change)
  | deliver (receiver sender : Fin n)
  | exit (node : Fin n)
  deriving DecidableEq

/-- What a publisher hands to its PUB socket reaches every live subscriber. -/
def Member.hear (member : Member n) (publisher : Fin n) (source : MqNode) : Member n :=
  if member.live ∧ address source ∈ member.node.sync.sub then
    { member with inbox := member.inbox ++ source.sync.pub.map fun msg => (publisher, msg) }
  else member

def act (network : Network n) (index : Fin n) (member : Member n) : Network n := fun other =>
  if other = index then { member with node := flush member.node }
  else (network other).hear index member.node

@[simp] theorem act_self (network : Network n) (index : Fin n) (member : Member n) :
    act network index member index = { member with node := flush member.node } := by
  simp [act]

@[simp] theorem act_ne (network : Network n) {index other : Fin n} (member : Member n)
    (different : other ≠ index) :
    act network index member other = (network other).hear index member.node := by
  simp [act, different]

def Member.addPeer (member : Member n) (change : Change) : Member n :=
  { member with node := { member.node with
      state := member.node.state.addPeer change.virtualIp change.publicKey change.endpointIp
        change.endpointPort } }

def Member.receive (member : Member n) (msg : Msg) (rest : List (Fin n × Msg)) : Member n :=
  let result := (listenForUpdates msg).run member.node
  { member with
    node := final result
    inbox := rest
    listening := returned result }

/-- What the node publishes or hears after its notice no longer counts: whoever
has handled the notice is disconnected from it. -/
def Member.exit (member : Member n) : Member n :=
  { member with node := publishLastMessage member.node, live := false }

def next (network : Network n) : Label n → Option (Network n)
  | .addPeer index change =>
    let member := network index
    if member.live then some (act network index (member.addPeer change)) else none
  | .publish index change =>
    let member := network index
    if member.live then
      some (act network index { member with node := publishChange member.node change })
    else none
  | .deliver receiver sender => do
    let member := network receiver
    let (msg, rest) ← take member.inbox sender
    if member.live ∧ member.listening then
      some (act network receiver (member.receive msg rest))
    else none
  | .exit index =>
    let member := network index
    if member.live then some (act network index member.exit) else none

inductive Stepped (network : Network n) : Label n → Network n → Prop where
  | addPeer {index : Fin n} {change : Change} (live : (network index).live = true) :
      Stepped network (.addPeer index change)
        (act network index ((network index).addPeer change))
  | publish {index : Fin n} {change : Change} (live : (network index).live = true) :
      Stepped network (.publish index change) (act network index
        { network index with node := publishChange (network index).node change })
  | deliver {receiver sender : Fin n} {msg : Msg} {rest : List (Fin n × Msg)}
      (taken : take (network receiver).inbox sender = some (msg, rest))
      (live : (network receiver).live = true) :
      Stepped network (.deliver receiver sender)
        (act network receiver ((network receiver).receive msg rest))
  | exit {index : Fin n} (live : (network index).live = true) :
      Stepped network (.exit index) (act network index (network index).exit)

theorem stepped_of_next {network after : Network n} {label : Label n}
    (h : next network label = some after) : Stepped network label after := by
  cases label with
  | addPeer index change =>
      simp only [next] at h
      split at h
      · rename_i hlive
        cases h
        exact .addPeer hlive
      · cases h
  | publish index change =>
      simp only [next] at h
      split at h
      · rename_i hlive
        cases h
        exact .publish hlive
      · cases h
  | deliver receiver sender =>
      obtain ⟨⟨msg, rest⟩, htaken, h⟩ := Option.bind_eq_some_iff.mp h
      dsimp only at h
      split at h
      · rename_i hguard
        cases h
        exact .deliver htaken hguard.1
      · cases h
  | exit index =>
      simp only [next] at h
      split at h
      · rename_i hlive
        cases h
        exact .exit hlive
      · cases h

/-- Nothing is in flight to a live node, and nothing there waits to be handled. -/
def Quiet (network : Network n) : Prop :=
  ∀ index, (network index).live = true → (network index).inbox = []

instance (network : Network n) : Decidable (Quiet network) :=
  inferInstanceAs (Decidable (∀ index, (network index).live = true → (network index).inbox = []))

def Agree (network : Network n) : Prop :=
  ∀ first second, (network first).live = true → (network second).live = true →
    (network first).node.sync.version = (network second).node.sync.version ∧
      (network first).node.sync.peers = (network second).node.sync.peers

instance (network : Network n) : Decidable (Agree network) :=
  inferInstanceAs (Decidable (∀ first second, (network first).live = true →
    (network second).live = true → _ ∧ _))

/-- Nodes that have been onboarded: they agree, each lists all of them, and each
is subscribed to every other. -/
structure Onboarded (network : Network n) : Prop where
  live : ∀ index, (network index).live = true
  listening : ∀ index, (network index).listening = true
  sound : ∀ index, Sound (network index).node
  distinct : ∀ first second, (network first).node.state.ip = (network second).node.state.ip →
    first = second
  listed : ∀ index other, (network index).node.state.ip ∈ (network other).node.sync.peers
  subscribed : ∀ index other, other ≠ index →
    address (network other).node ∈ (network index).node.sync.sub
  agree : Agree network
  quiet : Quiet network

end WgBp.Mq
