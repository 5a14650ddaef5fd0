import WgBp.Library.Procedure

/-! The `State` object of one node: the peers it configured, the lock guarding
them, the ALL-mode votes, and the commands issued to the WireGuard interface. -/
namespace WgBp.Model

open WgBp.Library WgBp.Library.Procedure

abbrev Ip := String

/-- What a record holds under `sync_port`: no such key, `None`, or a number. -/
inductive SyncPort where
  | missing
  | null
  | port (number : Nat)
  deriving DecidableEq, Repr

structure PeerRecord where
  virtualIp : Ip
  publicKey : String
  endpointIp : String
  endpointPort : Nat
  syncPort : SyncPort
  allowedIps : List String
  deriving DecidableEq, Repr

structure PeerInfo where
  publicKey : String
  endpointIp : String
  endpointPort : Nat
  allowedIps : List String
  deriving DecidableEq, Repr

inductive WgCommand where
  | setPeer (publicKey : String) (allowedIps : List String) (endpointAddr : String)
      (endpointPort persistentKeepalive : Nat)
  | removePeer (publicKey : String)
  deriving DecidableEq, Repr

inductive PyError where
  | keyError
  | typeError
  | unboundLocalError
  | runtimeError
  | recursionError
  | zmqError
  deriving DecidableEq, Repr

/-- A procedure stops short by an exception, or because it waits for a lock
that is held: `threading.Lock` blocks its thread and is not reentrant. -/
inductive Halt where
  | raised (error : PyError)
  | blocked
  deriving DecidableEq, Repr

/-- `removeCalls` and `deletions` are ghosts: the arguments `remove_peer` was called
with and the peers it deleted, oldest first. No definition reads them to decide
anything. -/
structure State where
  ip : Ip
  publicKey : String
  publicIp : String
  publicPort : Nat
  keepalive : Nat
  allowedIps : List String
  peers : Dict Ip PeerInfo
  locked : Bool
  allSyncMode : Nat
  allDeletedCnt : Dict Ip Nat
  wg : List WgCommand
  removeCalls : List Ip
  deletions : List Ip
  deriving DecidableEq

namespace State

def new (ip publicKey publicIp : String) (publicPort : Nat) : State where
  ip := ip
  publicKey := publicKey
  publicIp := publicIp
  publicPort := publicPort
  keepalive := 25
  allowedIps := [ip ++ "/32"]
  peers := ∅
  locked := false
  allSyncMode := 0
  allDeletedCnt := ∅
  wg := []
  removeCalls := []
  deletions := []

/-- What an edit of the peer table leaves alone: the node's own identity, its
settings, and the lock. -/
structure SameNode (before after : State) : Prop where
  ip : after.ip = before.ip
  publicKey : after.publicKey = before.publicKey
  publicIp : after.publicIp = before.publicIp
  publicPort : after.publicPort = before.publicPort
  keepalive : after.keepalive = before.keepalive
  allowedIps : after.allowedIps = before.allowedIps
  allSyncMode : after.allSyncMode = before.allSyncMode
  locked : after.locked = before.locked

theorem SameNode.refl (state : State) : SameNode state state :=
  ⟨rfl, rfl, rfl, rfl, rfl, rfl, rfl, rfl⟩

theorem SameNode.trans {first mid last : State} (h₁ : SameNode first mid)
    (h₂ : SameNode mid last) : SameNode first last where
  ip := h₂.ip.trans h₁.ip
  publicKey := h₂.publicKey.trans h₁.publicKey
  publicIp := h₂.publicIp.trans h₁.publicIp
  publicPort := h₂.publicPort.trans h₁.publicPort
  keepalive := h₂.keepalive.trans h₁.keepalive
  allowedIps := h₂.allowedIps.trans h₁.allowedIps
  allSyncMode := h₂.allSyncMode.trans h₁.allSyncMode
  locked := h₂.locked.trans h₁.locked

def enableAllSyncMode (state : State) (numOfSyncs : Nat) : State :=
  { state with allSyncMode := numOfSyncs, allDeletedCnt := ∅ }

def lockAquire : EStateM Halt State Unit := do
  if (← get).locked then throw .blocked
  modify fun state => { state with locked := true }

def lockRelease : EStateM Halt State Unit :=
  modify fun state => { state with locked := false }

@[simp] theorem run_lockAquire {state : State} (free : state.locked = false) :
    lockAquire.run state = .ok () { state with locked := true } := by
  simp [lockAquire, free]

@[simp] theorem run_lockAquire_held {state : State} (held : state.locked = true) :
    lockAquire.run state = .error .blocked state := by
  simp [lockAquire, held]

theorem lockAquire_returned {state after : State} (returns : lockAquire.run state = .ok () after) :
    state.locked = false ∧ after = { state with locked := true } := by
  cases hlocked : state.locked with
  | false =>
      rw [run_lockAquire hlocked] at returns
      cases returns
      exact ⟨rfl, rfl⟩
  | true =>
      rw [run_lockAquire_held hlocked] at returns
      cases returns

@[simp] theorem run_lockRelease (state : State) :
    lockRelease.run state = .ok () { state with locked := false } := rfl

private def isSpace (c : Char) : Bool :=
  c.val ∈ [0x20, 0x85, 0xa0, 0x1680, 0x2028, 0x2029, 0x202f, 0x205f, 0x3000] ||
    (0x09 ≤ c.val && c.val ≤ 0x0d) || (0x1c ≤ c.val && c.val ≤ 0x1f) ||
    (0x2000 ≤ c.val && c.val ≤ 0x200a)

def strip (text : String) : String :=
  String.ofList ((text.toList.dropWhile isSpace).reverse.dropWhile isSpace).reverse

def getAllowedIPs (peerVirtualIp : Ip) : List String :=
  if '/' ∈ peerVirtualIp.toList then [peerVirtualIp] else [peerVirtualIp ++ "/32"]

def addPeer (state : State) (peerVirtualIp : Ip) (publicKey endpointIp : String)
    (endpointPort : Nat) : State :=
  if peerVirtualIp = state.ip then state
  else { state with
    peers := state.peers.set peerVirtualIp
      { publicKey, endpointIp, endpointPort, allowedIps := getAllowedIPs peerVirtualIp }
    wg := state.wg ++ [.setPeer (strip publicKey) (getAllowedIPs peerVirtualIp) endpointIp
      endpointPort state.keepalive] }

theorem addPeer_same (state : State) (peerVirtualIp : Ip) (publicKey endpointIp : String)
    (endpointPort : Nat) :
    SameNode state (state.addPeer peerVirtualIp publicKey endpointIp endpointPort) := by
  unfold addPeer
  split
  · exact .refl state
  · exact ⟨rfl, rfl, rfl, rfl, rfl, rfl, rfl, rfl⟩

@[simp] theorem lookup_addPeer (state : State) {peerVirtualIp : Ip} (publicKey endpointIp : String)
    (endpointPort : Nat) (other : Ip) (foreign : peerVirtualIp ≠ state.ip) :
    (state.addPeer peerVirtualIp publicKey endpointIp endpointPort).peers.lookup other =
      if other = peerVirtualIp then
        some { publicKey, endpointIp, endpointPort, allowedIps := getAllowedIPs peerVirtualIp }
      else state.peers.lookup other := by
  rw [addPeer, if_neg foreign]
  exact Dict.lookup_set _ _ _ _

@[simp] theorem mem_addPeer (state : State) {peerVirtualIp : Ip} (publicKey endpointIp : String)
    (endpointPort : Nat) (other : Ip) (foreign : peerVirtualIp ≠ state.ip) :
    other ∈ (state.addPeer peerVirtualIp publicKey endpointIp endpointPort).peers ↔
      other = peerVirtualIp ∨ other ∈ state.peers := by
  rw [addPeer, if_neg foreign]
  exact Dict.mem_set _ _ _ _

def setPeerAllowedIPs (peerVirtualIp : Ip) (allowedIps : List String) :
    EStateM Halt State Unit := do
  let peer ← getItem (.raised .keyError) (← get).peers peerVirtualIp
  modify fun state => { state with
    peers := state.peers.set peerVirtualIp { peer with allowedIps }
    wg := state.wg ++ [.setPeer (strip peer.publicKey) allowedIps peer.endpointIp
      peer.endpointPort state.keepalive] }

def withAllowedIPs (state : State) (peerVirtualIp : Ip) (peer : PeerInfo)
    (allowedIps : List String) : State :=
  { state with
    peers := state.peers.set peerVirtualIp { peer with allowedIps }
    wg := state.wg ++ [.setPeer (strip peer.publicKey) allowedIps peer.endpointIp
      peer.endpointPort state.keepalive] }

theorem run_setPeerAllowedIPs {state : State} {peerVirtualIp : Ip} {peer : PeerInfo}
    (found : state.peers.lookup peerVirtualIp = some peer) (allowedIps : List String) :
    (setPeerAllowedIPs peerVirtualIp allowedIps).run state =
      .ok () (state.withAllowedIPs peerVirtualIp peer allowedIps) := by
  simp [setPeerAllowedIPs, withAllowedIPs, run_getItem_some found]

theorem withAllowedIPs_same (state : State) (peerVirtualIp : Ip) (peer : PeerInfo)
    (allowedIps : List String) :
    SameNode state (state.withAllowedIPs peerVirtualIp peer allowedIps) :=
  ⟨rfl, rfl, rfl, rfl, rfl, rfl, rfl, rfl⟩

theorem lookup_withAllowedIPs (state : State) (peerVirtualIp other : Ip) (peer : PeerInfo)
    (allowedIps : List String) :
    (state.withAllowedIPs peerVirtualIp peer allowedIps).peers.lookup other =
      if other = peerVirtualIp then some { peer with allowedIps }
      else state.peers.lookup other :=
  Dict.lookup_set _ _ _ _

def deletePeer (state : State) (peerVirtualIp : Ip) : State :=
  match state.peers.lookup peerVirtualIp with
  | none => state
  | some peer => { state with
      peers := state.peers.erase peerVirtualIp
      wg := state.wg ++ [.removePeer (strip peer.publicKey)]
      deletions := state.deletions ++ [peerVirtualIp] }

def removePeer (state : State) (peerVirtualIp : Ip) : State :=
  let called := { state with removeCalls := state.removeCalls ++ [peerVirtualIp] }
  if state.allSyncMode ≠ 0 then
    let votes := (state.allDeletedCnt.lookup peerVirtualIp).getD 0 + 1
    let counted := state.allDeletedCnt.set peerVirtualIp votes
    if votes < state.allSyncMode then { called with allDeletedCnt := counted }
    else { called with allDeletedCnt := counted.erase peerVirtualIp }.deletePeer peerVirtualIp
  else called.deletePeer peerVirtualIp

theorem deletePeer_same (state : State) (peerVirtualIp : Ip) :
    SameNode state (state.deletePeer peerVirtualIp) := by
  unfold deletePeer
  split
  · exact .refl state
  · exact ⟨rfl, rfl, rfl, rfl, rfl, rfl, rfl, rfl⟩

@[simp] theorem lookup_deletePeer (state : State) (peerVirtualIp other : Ip) :
    (state.deletePeer peerVirtualIp).peers.lookup other =
      if other = peerVirtualIp then none else state.peers.lookup other := by
  unfold deletePeer
  split
  · rename_i absent
    split
    · rename_i hother; rw [hother, absent]
    · rfl
  · exact Dict.lookup_erase _ _ _

theorem removePeer_same (state : State) (peerVirtualIp : Ip) :
    SameNode state (state.removePeer peerVirtualIp) := by
  unfold removePeer
  dsimp only
  split
  · split
    · exact ⟨rfl, rfl, rfl, rfl, rfl, rfl, rfl, rfl⟩
    · refine SameNode.trans ?_ (deletePeer_same _ peerVirtualIp)
      exact ⟨rfl, rfl, rfl, rfl, rfl, rfl, rfl, rfl⟩
  · refine SameNode.trans ?_ (deletePeer_same _ peerVirtualIp)
    exact ⟨rfl, rfl, rfl, rfl, rfl, rfl, rfl, rfl⟩

theorem lookup_removePeer_ne (state : State) {peerVirtualIp other : Ip}
    (different : other ≠ peerVirtualIp) :
    (state.removePeer peerVirtualIp).peers.lookup other = state.peers.lookup other := by
  unfold removePeer
  dsimp only
  split
  · split
    · rfl
    · rw [lookup_deletePeer, if_neg different]
  · rw [lookup_deletePeer, if_neg different]

theorem lookup_removePeer (state : State) (peerVirtualIp other : Ip)
    (single : state.allSyncMode = 0) :
    (state.removePeer peerVirtualIp).peers.lookup other =
      if other = peerVirtualIp then none else state.peers.lookup other := by
  unfold removePeer
  rw [if_neg (by simp [single])]
  exact lookup_deletePeer _ _ _

def addAllowedIp (state : State) (allowedIp : String) : State :=
  if allowedIp ∈ state.allowedIps then state
  else { state with allowedIps := state.allowedIps ++ [allowedIp] }

def removeAllowedIp (state : State) (allowedIp : String) : State :=
  { state with allowedIps := state.allowedIps.erase allowedIp }

end State

structure Node (σ : Type) where
  state : State
  sync : σ
  deriving DecidableEq

def onState {σ α : Type} (body : EStateM Halt State α) : EStateM Halt (Node σ) α :=
  onPart Node.state (fun state node => { node with state }) body

@[simp ↓] theorem final_onState {σ α : Type} (body : EStateM Halt State α) (node : Node σ) :
    final ((onState body).run node) = { node with state := final (body.run node.state) } :=
  final_onPart _ _ _ _

theorem run_onState {σ α : Type} {body : EStateM Halt State α} (node : Node σ) {value : α}
    {state : State} (h : body.run node.state = .ok value state) :
    (onState body).run node = .ok value { node with state } :=
  run_onPart_ok h

theorem onState_returned {σ α : Type} {body : EStateM Halt State α} {node after : Node σ}
    {value : α} (h : (onState body).run node = .ok value after) :
    ∃ state, body.run node.state = .ok value state ∧ after = { node with state } :=
  onPart_returned h

end WgBp.Model
