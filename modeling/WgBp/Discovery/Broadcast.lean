import WgBp.Discovery.Join

/-! The broadcast handler: one thread that takes one datagram at a time, adds the peer
to `State`, builds the answer, publishes the peer and only then replies. It never asks
for the lock of `State`, and an exception ends the thread. -/
namespace WgBp.Discovery

open WgBp.Library WgBp.Model WgBp.Gossip

inductive Progress where
  | received
  | tested
  | added
  | answered
  | published
  deriving DecidableEq

structure Handling (ι : Type) where
  request : Request
  progress : Progress
  response : Option (Response ι)
  deriving DecidableEq

inductive Listener (ι : Type) where
  | waiting
  | busy (handling : Handling ι)
  | dead
  deriving DecidableEq

variable {σ ι : Type}

def Handling.advance (sync : SyncModule σ ι) (handling : Handling ι) (node : Node σ) :
    Listener ι × Node σ × Option (Ip × Response ι) :=
  let request := handling.request
  match handling.progress with
  | .received =>
    if request.type ≠ "BCAST_JOIN_REQUEST" then
      (.waiting, node, some (request.ip, .error "Invalid request type"))
    else if request.ip ∈ node.state.peers ∨ request.ip = node.state.ip then
      (.waiting, node, some (request.ip, .error "Peer with this IP already exists"))
    else (.busy { handling with progress := .tested }, node, none)
  | .tested =>
    (.busy { handling with progress := .added },
      { node with state := request.addedTo node.state }, none)
  | .added =>
    match sync.getInfo node with
    | none => (.dead, node, none)
    | some info =>
      (.busy { handling with
          progress := .answered
          response := some (.success (interfaceJson node.state) info) }, node, none)
  | .answered =>
    match request.change with
    | none => (.dead, node, none)
    | some change =>
      if sync.publishes node change then
        (.busy { handling with progress := .published }, sync.publishChange node change, none)
      else (.dead, sync.publishChange node change, none)
  | .published =>
    (.waiting, node, handling.response.map fun response => (request.ip, response))

def Listener.pending (listener : Listener ι) : Option Ip :=
  match listener with
  | .busy ⟨request, .added, _⟩ | .busy ⟨request, .answered, _⟩ => some request.ip
  | _ => none

end WgBp.Discovery
