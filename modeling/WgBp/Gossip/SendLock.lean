import WgBp.Gossip.Agreement
import WgBp.Gossip.Sending

/-! The event loop of one gossip node: the sends that are suspended in it, the messages it
handles meanwhile, and the send lock they share. -/
namespace WgBp.Gossip

open WgBp.Library WgBp.Library.Procedure WgBp.Library.Transition WgBp.Model

structure Sending where
  outgoing : Outgoing
  await : Await
  deriving DecidableEq

inductive LockEvent where
  | contended
  | ended (free : Bool)
  deriving DecidableEq

/-- `lock` is `_send_lock`; `frozen` says that the loop waits for it; the log has the
newest event first. -/
structure EventLoop where
  node : GossipNode
  sending : List Sending
  lock : Bool
  frozen : Bool
  log : List LockEvent
  deriving DecidableEq

/-- `others` is whatever other threads do to the node between two turns. -/
inductive LoopLabel where
  | others (node : GossipNode)
  | receive (msg : Msg)
  | heartbeat (peerIp : Ip)
  | leave
  | depart (peerIp : Ip)
  | connected (index : Nat) (success : Bool)
  | drained (index : Nat) (success : Bool)
  | closed (index : Nat) (success : Bool)
  deriving DecidableEq

def EventLoop.startSend (loop : EventLoop) (outgoing : Outgoing) : EventLoop :=
  match Gossip.startSend loop.lock (.port outgoing.port) with
  | .blocks => { loop with
      frozen := true
      log := if loop.sending.isEmpty then loop.log else .contended :: loop.log }
  | .awaits lock await => { loop with lock, sending := loop.sending ++ [⟨outgoing, await⟩] }
  | .returns | .ends _ _ => loop

def EventLoop.sendStateToPeer (loop : EventLoop) (peerIp : Ip) (peerPort : SyncPort)
    (kind : SendKind) : EventLoop :=
  match peerPort with
  | .port number => loop.startSend ⟨peerIp, number, kind⟩
  | _ => { loop with log := .ended (!loop.lock) :: loop.log }

def EventLoop.endSend (loop : EventLoop) (index : Nat) (send : Sending) (lock raises : Bool) :
    EventLoop :=
  { loop with
    node := afterSend loop.node send.outgoing raises
    sending := loop.sending.eraseIdx index
    lock
    log := .ended (!lock) :: loop.log }

def EventLoop.resume (loop : EventLoop) (index : Nat) (await : Await) (success : Bool) :
    Option EventLoop := do
  let send ← loop.sending[index]?
  if send.await ≠ await then none
  else
    match await.resume loop.lock success with
    | .awaits lock next => some { loop with
        lock, sending := loop.sending.set index { send with await := next } }
    | .ends lock raises => some (loop.endSend index send lock raises)
    | .returns | .blocks => none

def Sending.isKind (kind : SendKind) (send : Sending) : Bool := send.outgoing.kind = kind

def EventLoop.turn (loop : EventLoop) : LoopLabel → Option EventLoop
  | .others node => some { loop with node }
  | .receive msg =>
    let result := (handleGossip msg).run loop.node
    let handled := { loop with node := final result }
    match replyOf msg (outcome result) with
    | [] => some handled
    | outgoing :: _ => some (handled.startSend outgoing)
  | .heartbeat peerIp => do
    let record ← loop.node.sync.peers.lookup peerIp
    if peerIp = loop.node.state.ip ∨ loop.sending.any (Sending.isKind .heartbeat) then none
    else some (loop.sendStateToPeer peerIp record.syncPort .heartbeat)
  | .leave =>
    some { loop with node := { loop.node with sync := { loop.node.sync with
      version := loop.node.sync.version + 1
      peers := loop.node.sync.peers.erase loop.node.state.ip } } }
  | .depart peerIp => do
    let record ← loop.node.sync.peers.lookup peerIp
    if peerIp = loop.node.state.ip ∨ loop.sending.any (Sending.isKind .departure) then none
    else some (loop.sendStateToPeer peerIp record.syncPort .departure)
  | .connected index success => loop.resume index .connect success
  | .drained index success => loop.resume index .drain success
  | .closed index success => loop.resume index .close success

def EventLoop.next (loop : EventLoop) (label : LoopLabel) : Option EventLoop :=
  if loop.frozen then none else loop.turn label

def EventLoop.start (node : GossipNode) : EventLoop := ⟨node, [], false, false, []⟩

/-- No coroutine asked for the lock while a suspended one held it, and every call
that ended left it free. -/
def LockSafe (log : List LockEvent) : Prop :=
  LockEvent.contended ∉ log ∧ LockEvent.ended false ∉ log

def answers (node : GossipNode) (msg : Msg) : Bool :=
  onboards node msg || (msg.version ≠ 0 && msg.version < node.sync.version)

/-- Messages to be answered arrive, and heartbeats and departures send, only while no
send is suspended, and no drain or close raises. -/
def oneAtATime (loop : EventLoop) : LoopLabel → Bool
  | .receive msg => !answers loop.node msg || loop.sending.isEmpty
  | .heartbeat _ | .depart _ => loop.sending.isEmpty
  | .drained _ success | .closed _ success => success
  | _ => true

structure LockFine (loop : EventLoop) : Prop where
  safe : LockSafe loop.log
  running : loop.frozen = false
  held : loop.sending.length = loop.lock.toNat

theorem outcome_higher (node : GossipNode) {msg : Msg} (positive : msg.version ≠ 0)
    (higher : node.sync.version < msg.version) :
    replyOf msg (outcome ((handleGossip msg).run node)) = [] := by
  have hlower : ¬ msg.version < node.sync.version := by omega
  have hequal : msg.version ≠ node.sync.version := by omega
  simp only [handleGossip, positive, hlower, hequal, if_false, EStateM.run_bind, EStateM.run_get,
    EStateM.run_modify]
  split
  · split
    · rfl
    · rfl
  · rfl

theorem replyOf_quiet {node : GossipNode} {msg : Msg} (quiet : answers node msg = false) :
    replyOf msg (outcome ((handleGossip msg).run node)) = [] := by
  obtain ⟨honboards, hlower⟩ := Bool.or_eq_false_iff.mp quiet
  by_cases hzero : msg.version = 0
  · rcases run_handleGossip_zero node hzero with
      ⟨newPeer, known, hnew, hknown, hport, hrun⟩ | hrun
    · simp [onboards, hzero, hnew, Dict.mem_of_lookup hknown, hport] at honboards
    · rw [hrun]
      rfl
  · have hnotLower : ¬ msg.version < node.sync.version := by simpa [hzero] using hlower
    by_cases hequal : msg.version = node.sync.version
    · have hversion : node.sync.version ≠ 0 := hequal ▸ hzero
      simp [handleGossip, hequal, hversion, outcome, replyOf]
    · exact outcome_higher node hzero (by omega)

theorem LockSafe.ended {log : List LockEvent} (safe : LockSafe log) :
    LockSafe (.ended true :: log) := by
  simpa [LockSafe] using safe

theorem LockFine.free {loop : EventLoop} (fine : LockFine loop)
    (empty : loop.sending.isEmpty = true) : loop.lock = false := by
  have hheld := fine.held
  rw [List.isEmpty_iff.mp empty] at hheld
  cases hlock : loop.lock with
  | false => rfl
  | true =>
      rw [hlock] at hheld
      cases hheld

theorem LockFine.startSend {loop : EventLoop} (fine : LockFine loop)
    (empty : loop.sending.isEmpty = true) (outgoing : Outgoing) :
    LockFine (loop.startSend outgoing) := by
  have hlength : loop.sending.length = 0 := by rw [List.isEmpty_iff.mp empty]; rfl
  unfold EventLoop.startSend Gossip.startSend
  rw [fine.free empty]
  refine ⟨fine.safe, fine.running, ?_⟩
  simp [hlength]

theorem LockFine.sendStateToPeer {loop : EventLoop} (fine : LockFine loop)
    (empty : loop.sending.isEmpty = true) (peerIp : Ip) (peerPort : SyncPort) (kind : SendKind) :
    LockFine (loop.sendStateToPeer peerIp peerPort kind) := by
  have hended : LockFine { loop with log := .ended (!loop.lock) :: loop.log } := by
    refine ⟨?_, fine.running, fine.held⟩
    rw [fine.free empty]
    exact fine.safe.ended
  cases peerPort with
  | port number => exact fine.startSend empty _
  | missing => exact hended
  | null => exact hended

theorem LockFine.endSend {loop : EventLoop} (fine : LockFine loop) {index : Nat}
    {send : Sending} (member : loop.sending[index]? = some send) (raises : Bool) :
    LockFine (loop.endSend index send false raises) := by
  have hindex := (List.getElem?_eq_some_iff.mp member).1
  refine ⟨fine.safe.ended, fine.running, ?_⟩
  have hheld := fine.held
  have hone : loop.lock.toNat ≤ 1 := Bool.toNat_le loop.lock
  change (loop.sending.eraseIdx index).length = 0
  rw [List.length_eraseIdx_of_lt hindex]
  omega

theorem LockFine.moved {loop : EventLoop} (fine : LockFine loop) (index : Nat)
    (send : Sending) : LockFine { loop with sending := loop.sending.set index send } where
  safe := fine.safe
  running := fine.running
  held := (List.length_set ..).trans fine.held

theorem LockFine.resume {loop after : EventLoop} (fine : LockFine loop) {index : Nat}
    {await : Await} {success : Bool} (ok : await = .connect ∨ success = true)
    (step : loop.resume index await success = some after) : LockFine after := by
  obtain ⟨send, hmember, step⟩ := Option.bind_eq_some_iff.mp step
  split at step
  · cases step
  · cases await <;> cases success
    · cases step
      exact fine.endSend hmember _
    · cases step
      exact fine.moved _ _
    · simp at ok
    · cases step
      exact fine.moved _ _
    · simp at ok
    · cases step
      exact fine.endSend hmember _

theorem LockFine.next {loop after : EventLoop} {label : LoopLabel} (fine : LockFine loop)
    (ok : oneAtATime loop label = true) (step : loop.next label = some after) :
    LockFine after := by
  have hnode (node : GossipNode) : LockFine { loop with node } :=
    ⟨fine.safe, fine.running, fine.held⟩
  unfold EventLoop.next at step
  rw [if_neg (Bool.eq_false_iff.mp fine.running)] at step
  cases label with
  | others node =>
      cases step
      exact hnode node
  | receive msg =>
      unfold EventLoop.turn at step
      dsimp only at step
      cases hreply : replyOf msg (outcome ((handleGossip msg).run loop.node)) with
      | nil =>
          rw [hreply] at step
          cases step
          exact hnode _
      | cons outgoing rest =>
          rw [hreply] at step
          cases step
          refine (hnode _).startSend ?_ outgoing
          by_contra hbusy
          rw [Bool.not_eq_true] at hbusy
          have hquiet : answers loop.node msg = false := by
            simpa [oneAtATime, show loop.sending.isEmpty = false from hbusy] using ok
          rw [replyOf_quiet hquiet] at hreply
          cases hreply
  | heartbeat peerIp =>
      obtain ⟨record, _, step⟩ := Option.bind_eq_some_iff.mp step
      split at step
      · cases step
      · cases step
        exact fine.sendStateToPeer ok _ _ _
  | leave =>
      cases step
      exact hnode _
  | depart peerIp =>
      obtain ⟨record, _, step⟩ := Option.bind_eq_some_iff.mp step
      split at step
      · cases step
      · cases step
        exact fine.sendStateToPeer ok _ _ _
  | connected index success => exact fine.resume (.inl rfl) step
  | drained index success => exact fine.resume (.inr ok) step
  | closed index success => exact fine.resume (.inr ok) step

theorem LockFine.start (node : GossipNode) : LockFine (.start node) where
  safe := by simp [LockSafe, EventLoop.start]
  running := rfl
  held := rfl

theorem send_lock_safe (node : GossipNode) (loop : EventLoop)
    (run : Run EventLoop.next (fun loop label => oneAtATime loop label = true)
      (EventLoop.start node) loop) :
    LockSafe loop.log := by
  have hfine : LockFine loop := Run.invariant LockFine (LockFine.start node)
    (fun _ _ _ _ hfine hok hstep => hfine.next hok hstep) run
  exact hfine.safe

def aheadNode : GossipNode :=
  ((scenario (onboarding ++ [.welcome 0 nodeC])).processes[0]?.getD (created nodeA)).node

def staleHeartbeat : Msg :=
  stateMsg ((scenario onboarding).processes[1]?.getD (created nodeB)).node false

def oneByOne : List LoopLabel :=
  [.receive staleHeartbeat, .connected 0 true, .drained 0 true, .closed 0 true,
    .heartbeat nodeB.ip, .connected 0 false]

theorem send_lock_safe_oneByOne :
    ∃ loop : EventLoop, loop.log = [.ended true, .ended true] ∧ LockSafe loop.log := by
  have hreplay : (replay EventLoop.next oneAtATime (.start aheadNode) oneByOne).any
      (fun loop => loop.log = [.ended true, .ended true]) = true := by decide +kernel
  obtain ⟨loop, hrun, hlog⟩ := reached_of_replay (fun _ _ h => h) hreplay
  exact ⟨loop, of_decide_eq_true hlog, send_lock_safe aheadNode loop hrun⟩

theorem send_lock_safe_fails :
    ¬ ∀ (node : GossipNode) (loop : EventLoop),
      Run EventLoop.next always (EventLoop.start node) loop → LockSafe loop.log := by
  intro claimed
  have hreplay : (replay EventLoop.next (fun _ _ => true) (.start aheadNode)
      [.receive staleHeartbeat, .receive staleHeartbeat]).any
      (fun loop => loop.log = [.contended]) = true := by decide +kernel
  obtain ⟨loop, hrun, hlog⟩ := reached_of_replay (fun _ _ _ => trivial) hreplay
  refine (claimed aheadNode loop hrun).1 ?_
  rw [of_decide_eq_true hlog]
  exact List.mem_singleton_self _

end WgBp.Gossip
