import WgBp.Gossip.Invariant
import WgBp.Gossip.Threads

/-! What the event loop and the main thread of a gossip node keep, whatever handlers run
beside them. The handlers appear only in what they add to `State` ahead of the view and
in how often they hold the lock. -/
namespace WgBp.Gossip

open WgBp.Library WgBp.Library.Procedure WgBp.Model WgBp.Discovery

def ThreadLabel.isHandler : ThreadLabel → Bool
  | .accept _ | .client _ | .crash _ => true
  | _ => false

variable {member : Member}

inductive Turns (member : Member) : ThreadLabel → Member → Prop where
  | ignores {msg : Msg} : Turns member (.receive msg) member
  | onboards {msg : Msg} {newPeer known : PeerRecord} (idle : member.loop = .idle)
      (found : member.node.sync.peers.lookup newPeer.virtualIp = some known) :
      Turns member (.receive msg) { member with
        node := onboard member.node newPeer known
        onboarding := member.onboarding ++ [msg] }
  | replaces {msg : Msg} (idle : member.loop = .idle)
      (newer : member.node.sync.version < msg.version) :
      Turns member (.receive msg)
        { member with node := replaced member.node msg, loop := .changed (some msg) }
  | acquires {next : Option Msg} (changed : member.loop = .changed next)
      (free : member.node.state.locked = false) :
      Turns member .acquire { member with node := setLocked member.node true, loop := .locked next }
  | reconciles {next : Option Msg} {state : State} (locked : member.loop = .locked next)
      (run : (reconcile member.node.sync.peers).run member.node.state = .ok () state) :
      Turns member .reconcile
        { member with node := { member.node with state }, loop := .reconciled next }
  | raises {error : Halt} {state : State}
      (run : (reconcile member.node.sync.peers).run member.node.state = .error error state) :
      Turns member .reconcile { member with node := { member.node with state }, loop := .idle }
  | releases {next : Option Msg} (reconciled : member.loop = .reconciled next) :
      Turns member .release
        { member with node := setLocked member.node false, loop := .afterPass next }
  | notices {msg : Msg} (noticing : member.loop = .noticing msg)
      (notice : msg.type = .departureNotice) (listed : msg.fromIp ∈ member.node.sync.peers) :
      Turns member .notice { member with
        node := { member.node with sync := { member.node.sync with
          peers := member.node.sync.peers.erase msg.fromIp } }
        loop := .changed none }
  | passes {msg : Msg} (noticing : member.loop = .noticing msg) :
      Turns member .notice { member with loop := .idle }
  | resumes {index : Nat} {raises : Bool} (msg : Msg) (idle : member.loop = .idle) :
      Turns member (.onboarded index raises) { member with
        onboarding := member.onboarding.eraseIdx index
        loop := if raises then .idle else .noticing msg }
  | forgets {peerIp : Ip} (idle : member.loop = .idle) (foreign : peerIp ≠ member.node.state.ip) :
      Turns member (.sendFails peerIp) { member with node := forgetUnreachable member.node peerIp }
  | publishes {edit : OwnEdit} (allowedIps : List String) :
      Turns member (.publishOwn edit) { member with
        node := publishChange { member.node with state := { member.node.state with allowedIps } }
          { member.node.state with allowedIps }.ownChange }
  | leaves (idle : member.loop = .idle) : Turns member .leave { member with
      node := { member.node with sync := { member.node.sync with
        version := member.node.sync.version + 1
        peers := member.node.sync.peers.erase member.node.state.ip } } }

private theorem receive_turns {msg : Msg} (idle : member.loop = .idle) :
    Turns member (.receive msg) (member.receive msg) := by
  unfold Member.receive
  split
  · rename_i hzero
    rcases run_handleGossip_zero member.node hzero with
      ⟨newPeer, known, _, hknown, _, hrun⟩ | hrun
    · rw [hrun]
      exact .onboards idle hknown
    · rw [hrun]
      exact .ignores
  · split
    · exact .ignores
    · rename_i hnewer
      exact .replaces idle (Nat.lt_of_not_le hnewer)

theorem turns_of_next {after : Member} {label : ThreadLabel} (own : label.isHandler = false)
    (step : member.next label = some after) : Turns member label after := by
  cases label with
  | accept request => cases own
  | client index => cases own
  | crash index => cases own
  | receive msg =>
      unfold Member.next at step
      dsimp only at step
      split at step
      · rename_i hidle
        cases step
        exact receive_turns hidle
      · cases step
  | acquire =>
      unfold Member.next at step
      dsimp only at step
      split at step
      · rename_i next hloop
        split at step
        · cases step
        · rename_i hfree
          cases step
          exact .acquires hloop (Bool.eq_false_iff.mpr hfree)
      · cases step
  | reconcile =>
      unfold Member.next at step
      dsimp only at step
      split at step
      · rename_i next hloop
        split at step
        · rename_i hrun
          cases step
          exact .reconciles hloop hrun
        · rename_i hrun
          cases step
          exact .raises hrun
      · cases step
  | release =>
      unfold Member.next at step
      dsimp only at step
      split at step
      · rename_i next hloop
        cases step
        exact .releases hloop
      · cases step
  | notice =>
      unfold Member.next at step
      dsimp only at step
      split at step
      · rename_i msg hloop
        split at step
        · rename_i h
          cases step
          exact .notices hloop h.1 h.2
        · cases step
          exact .passes hloop
      · cases step
  | onboarded index raises =>
      obtain ⟨msg, _, step⟩ := Option.bind_eq_some_iff.mp step
      split at step
      · rename_i hidle
        cases step
        exact .resumes msg hidle
      · cases step
  | sendFails peerIp =>
      unfold Member.next at step
      dsimp only at step
      split at step
      · rename_i h
        cases step
        exact .forgets h.1 h.2
      · cases step
  | publishOwn edit =>
      obtain ⟨state, hedited, step⟩ := Option.bind_eq_some_iff.mp step
      cases step
      obtain ⟨allowedIps, rfl⟩ := OwnEdit.apply_spec hedited
      exact .publishes allowedIps
  | leave =>
      unfold Member.next at step
      dsimp only at step
      split at step
      · rename_i hidle
        cases step
        exact .leaves hidle
      · cases step

theorem Turns.clients {after : Member} {label : ThreadLabel} (turns : Turns member label after) :
    after.clients = member.clients := by
  cases turns <;> rfl

/-- Between passes `State.peers` has the foreign addresses of the view and the extra ones. -/
def CoversWith (extra : Ip → Prop) (node : GossipNode) : Prop :=
  ∀ ip, ip ∈ node.state.peers ↔ (ip ∈ node.sync.peers ∨ extra ip) ∧ ip ≠ node.state.ip

structure Attended (extra : Ip → Prop) (others : Nat) (member : Member) : Prop where
  keyed : Keyed member.node.sync.peers
  single : member.node.state.allSyncMode = 0
  foreign : member.node.state.ip ∉ member.node.state.peers
  lock : others + member.loop.holds.toNat = member.node.state.locked.toNat
  covers : (∀ next, member.loop ≠ .changed next) → (∀ next, member.loop ≠ .locked next) →
    CoversWith extra member.node

variable {extra : Ip → Prop} {others : Nat}

theorem CoversWith.tracks {node : GossipNode} (covers : CoversWith extra node)
    (none : ∀ ip, ¬extra ip) : Tracks node.state node.sync.peers := by
  intro ip
  rw [covers ip, or_iff_left (none ip)]

theorem CoversWith.congr {node : GossipNode} {extra' : Ip → Prop} (covers : CoversWith extra node)
    (same : ∀ ip, extra' ip ↔ extra ip) : CoversWith extra' node := by
  intro ip
  rw [covers ip, same ip]

theorem CoversWith.added {node : GossipNode} (covers : CoversWith extra node) {request : Request}
    (foreign : request.ip ≠ node.state.ip) :
    CoversWith (fun ip => extra ip ∨ request.ip = ip)
      { node with state := request.addedTo node.state } := by
  intro ip
  dsimp only
  rw [Request.mem_addedTo foreign ip, covers ip, (request.addedTo_same node.state).ip]
  constructor
  · rintro (rfl | ⟨h, hne⟩)
    · exact ⟨.inr (.inr rfl), foreign⟩
    · exact ⟨h.imp_right .inl, hne⟩
  · rintro ⟨h | h | h, hne⟩
    · exact .inr ⟨.inl h, hne⟩
    · exact .inr ⟨.inr h, hne⟩
    · exact .inl h.symm

theorem CoversWith.published {node : GossipNode} {change : Change}
    (covers : CoversWith (fun ip => extra ip ∨ change.virtualIp = ip) node) :
    CoversWith extra (publishChange node change) := by
  intro ip
  dsimp only [publishChange]
  rw [covers ip, Dict.mem_set]
  constructor
  · rintro ⟨h | h | h, hne⟩
    · exact ⟨.inl (.inr h), hne⟩
    · exact ⟨.inr h, hne⟩
    · exact ⟨.inl (.inl h.symm), hne⟩
  · rintro ⟨(h | h) | h, hne⟩
    · exact ⟨.inr (.inr h.symm), hne⟩
    · exact ⟨.inl h, hne⟩
    · exact ⟨.inr (.inl h), hne⟩

theorem Attended.edited (attended : Attended extra others member) {node : GossipNode}
    (ip : node.state.ip = member.node.state.ip)
    (single : node.state.allSyncMode = member.node.state.allSyncMode)
    (locked : node.state.locked = member.node.state.locked)
    (peers : node.state.peers = member.node.state.peers) (keyed : Keyed node.sync.peers)
    (listed : ∀ other, other ≠ member.node.state.ip →
      (other ∈ node.sync.peers ↔ other ∈ member.node.sync.peers)) :
    Attended extra others { member with node } where
  keyed := keyed
  single := single.trans attended.single
  foreign := by
    dsimp only
    rw [peers, ip]
    exact attended.foreign
  lock := locked ▸ attended.lock
  covers := by
    intro hchanged hlocked other
    have hcovers := attended.covers hchanged hlocked other
    dsimp only at hcovers ⊢
    rw [peers, ip, hcovers]
    constructor
    · rintro ⟨h, hne⟩
      exact ⟨h.imp_left (listed other hne).mpr, hne⟩
    · rintro ⟨h, hne⟩
      exact ⟨h.imp_left (listed other hne).mp, hne⟩

theorem Attended.congr (attended : Attended extra others member) {extra' : Ip → Prop}
    (same : ∀ ip, extra' ip ↔ extra ip) : Attended extra' others member where
  keyed := attended.keyed
  single := attended.single
  foreign := attended.foreign
  lock := attended.lock
  covers := fun hchanged hlocked => (attended.covers hchanged hlocked).congr same

theorem Attended.added (attended : Attended extra others member) {request : Request}
    (foreign : request.ip ≠ member.node.state.ip) :
    Attended (fun ip => extra ip ∨ request.ip = ip) others { member with
      node := { member.node with state := request.addedTo member.node.state } } := by
  have hsame := request.addedTo_same member.node.state
  refine ⟨attended.keyed, hsame.allSyncMode.trans attended.single, ?_, ?_,
    fun hchanged hlocked => (attended.covers hchanged hlocked).added foreign⟩
  · dsimp only
    rw [hsame.ip, Request.mem_addedTo foreign]
    rintro (h | h)
    · exact foreign h.symm
    · exact attended.foreign h
  · have hlock := attended.lock
    rw [← hsame.locked] at hlock
    exact hlock

theorem Attended.published {change : Change}
    (attended : Attended (fun ip => extra ip ∨ change.virtualIp = ip) others member) :
    Attended extra others { member with node := publishChange member.node change } where
  keyed := attended.keyed.set rfl
  single := attended.single
  foreign := attended.foreign
  lock := attended.lock
  covers := fun hchanged hlocked => (attended.covers hchanged hlocked).published

theorem Attended.looped (attended : Attended extra others member) {loop : Loop}
    (onboarding : List Msg) (holds : loop.holds = member.loop.holds)
    (covers : (∀ next, loop ≠ .changed next) → (∀ next, loop ≠ .locked next) →
      CoversWith extra member.node) :
    Attended extra others { member with loop, onboarding } where
  keyed := attended.keyed
  single := attended.single
  foreign := attended.foreign
  lock := by
    have hlock := attended.lock
    rw [← holds] at hlock
    exact hlock
  covers := covers

theorem Attended.changed (attended : Attended extra others member) {sync : SyncGossip}
    {next : Option Msg} (idle : member.loop.holds = false) (keyed : Keyed sync.peers) :
    Attended extra others
      { member with node := { member.node with sync }, loop := .changed next } where
  keyed := keyed
  single := attended.single
  foreign := attended.foreign
  lock := by
    have hlock := attended.lock
    rw [idle] at hlock
    exact hlock
  covers := fun hchanged => absurd rfl (hchanged next)

theorem Attended.alone (attended : Attended extra others member)
    (holds : member.loop.holds = true) :
    others = 0 ∧ member.node.state.locked = true := by
  have hlock := attended.lock
  rw [holds, Bool.toNat_true] at hlock
  cases hlocked : member.node.state.locked with
  | false =>
      rw [hlocked, Bool.toNat_false] at hlock
      omega
  | true =>
      rw [hlocked, Bool.toNat_true] at hlock
      exact ⟨by omega, rfl⟩

theorem Attended.onboarded (attended : Attended extra others member) {newPeer known : PeerRecord}
    (found : member.node.sync.peers.lookup newPeer.virtualIp = some known) :
    Attended extra others { member with node := onboard member.node newPeer known } := by
  have hlisted : newPeer.virtualIp ∈ member.node.sync.peers := Dict.mem_of_lookup found
  refine attended.edited rfl rfl rfl rfl
    (attended.keyed.set (attended.keyed _ known found)) fun other _ => ?_
  dsimp only [onboard]
  rw [Dict.mem_set]
  constructor
  · rintro (rfl | h)
    · exact hlisted
    · exact h
  · exact .inr

theorem Attended.acquired (attended : Attended extra others member) {next : Option Msg}
    (changed : member.loop = .changed next) (free : member.node.state.locked = false) :
    Attended extra others
      { member with node := setLocked member.node true, loop := .locked next } where
  keyed := attended.keyed
  single := attended.single
  foreign := attended.foreign
  lock := by
    have hlock := attended.lock
    rw [changed, free] at hlock
    exact congrArg (· + 1) hlock
  covers := fun _ hlocked => absurd rfl (hlocked next)

/-- Reconciling needs the extra addresses to be in the view by then. -/
theorem Attended.reconciled (attended : Attended extra others member) {next : Option Msg}
    (locked : member.loop = .locked next) (covered : ∀ ip, extra ip → ip ∈ member.node.sync.peers) :
    Attended extra others { member with
      node := { member.node with
        state := Model.reconciled member.node.sync.peers member.node.state }
      loop := .reconciled next } := by
  have hsame := reconciled_same member.node.sync.peers member.node.state
  have htracks := reconciled_tracks member.node.state attended.keyed attended.single
    attended.foreign
  refine ⟨attended.keyed, hsame.allSyncMode.trans attended.single, htracks.foreign, ?_,
    fun _ _ ip => ?_⟩
  · have hlock := attended.lock
    rw [locked, ← hsame.locked] at hlock
    exact hlock
  · dsimp only
    rw [htracks ip, or_iff_left_of_imp (covered ip)]

theorem Attended.released (attended : Attended extra others member) {next : Option Msg}
    (reconciled : member.loop = .reconciled next) :
    Attended extra others { member with
      node := setLocked member.node false
      loop := .afterPass next } := by
  have hcovers := attended.covers (by simp [reconciled]) (by simp [reconciled])
  obtain ⟨hnone, _⟩ := attended.alone (by rw [reconciled]; rfl)
  refine ⟨attended.keyed, attended.single, attended.foreign, ?_, fun _ _ => hcovers⟩
  dsimp only [setLocked]
  rw [hnone]
  cases next <;> rfl

/-- The heartbeat's exception path never deletes anything. -/
theorem Attended.forgetUnreachable (attended : Attended extra others member)
    (idle : member.loop = .idle) {peerIp : Ip} (foreign : peerIp ≠ member.node.state.ip) :
    forgetUnreachable member.node peerIp = member.node := by
  have hcovers := attended.covers (by simp [idle]) (by simp [idle])
  unfold Gossip.forgetUnreachable
  split
  · rfl
  · rename_i hunknown
    have hunlisted : peerIp ∉ member.node.sync.peers := fun hmem =>
      hunknown ((hcovers peerIp).mpr ⟨.inl hmem, foreign⟩)
    have herase : member.node.sync.peers.erase peerIp = member.node.sync.peers :=
      AList.ext (List.kerase_of_notMem_keys hunlisted)
    rw [herase]

theorem Attended.next (attended : Attended extra others member) {after : Member}
    {label : ThreadLabel} (turns : Turns member label after)
    (keyed : ∀ msg, label = .receive msg → Keyed msg.state)
    (covered : label = .reconcile → member.loop.holds = true →
      ∀ ip, extra ip → ip ∈ member.node.sync.peers) :
    Attended extra others after ∧ after.node.state.ip = member.node.state.ip := by
  cases turns with
  | ignores => exact ⟨attended, rfl⟩
  | onboards idle found =>
      have honboarded := attended.onboarded found
      exact ⟨honboarded.looped _ rfl honboarded.covers, rfl⟩
  | replaces idle newer =>
      refine ⟨attended.changed ?_ (keyed _ rfl), rfl⟩
      rw [idle]
      rfl
  | acquires changed free => exact ⟨attended.acquired changed free, rfl⟩
  | reconciles locked run =>
      rw [run_reconcile attended.keyed attended.foreign] at run
      cases run
      refine ⟨attended.reconciled locked (covered rfl ?_), (reconciled_same _ _).ip⟩
      rw [locked]
      rfl
  | raises run =>
      rw [run_reconcile attended.keyed attended.foreign] at run
      cases run
  | releases reconciled => exact ⟨attended.released reconciled, rfl⟩
  | notices noticing notice listed =>
      have hholds : member.loop.holds = false := by rw [noticing]; rfl
      exact ⟨attended.changed hholds (attended.keyed.erase _), rfl⟩
  | passes noticing =>
      have hholds : member.loop.holds = false := by rw [noticing]; rfl
      refine ⟨attended.looped _ hholds.symm fun _ _ => ?_, rfl⟩
      exact attended.covers (by simp [noticing]) (by simp [noticing])
  | @resumes index raises msg idle =>
      have hcovers := attended.covers (by simp [idle]) (by simp [idle])
      refine ⟨attended.looped _ ?_ fun _ _ => hcovers, rfl⟩
      rw [idle]
      cases raises <;> rfl
  | forgets idle foreign =>
      rw [attended.forgetUnreachable idle foreign]
      exact ⟨attended, rfl⟩
  | publishes allowedIps =>
      refine ⟨attended.edited rfl rfl rfl rfl (attended.keyed.set rfl) fun other hother => ?_, rfl⟩
      exact (Dict.mem_set _ _ _ _).trans (or_iff_right hother)
  | leaves idle =>
      refine ⟨attended.edited rfl rfl rfl rfl (attended.keyed.erase _) fun other hother => ?_, rfl⟩
      exact AList.mem_erase.trans (and_iff_right hother)

end WgBp.Gossip
