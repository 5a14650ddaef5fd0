import WgBp.Discovery.Broadcast
import WgBp.Gossip.EventLoop

/-! Broadcast admissions next to the event loop. The handler changes `State` and then the
view without the lock, so a pass may fall between its two writes. -/
namespace WgBp.Gossip

open WgBp.Library WgBp.Library.Transition WgBp.Model WgBp.Discovery

structure Station where
  member : Member
  listener : Listener GossipInfo
  replies : List (Ip × Response GossipInfo)
  deriving DecidableEq

/-- A datagram that does not parse, or lacks a field of the request, is `none`. -/
inductive StationLabel where
  | thread (label : ThreadLabel)
  | datagram (request : Option Request)
  | handle
  deriving DecidableEq

def Station.start (node : GossipNode) : Station := ⟨.start node, .waiting, []⟩

def Station.next (station : Station) : StationLabel → Option Station
  | .thread label =>
    if label.isHandler then none
    else (station.member.next label).map fun member => { station with member }
  | .datagram request =>
    match station.listener, request with
    | .waiting, some request => some { station with listener := .busy ⟨request, .received, none⟩ }
    | .waiting, none => some { station with listener := .dead }
    | _, _ => none
  | .handle =>
    match station.listener with
    | .busy handling =>
      let (listener, node, reply) := handling.advance gossipModule station.member.node
      some {
        member := { station.member with node }
        listener
        replies := station.replies ++ reply.toList }
    | _ => none

inductive Started : GossipNode → Prop where
  | created (config : Config) : Started (created config).node
  | joined {ticket : Ticket} (fine : ticket.Fine) : Started (joined ticket).node

/-- Messages carry maps that file records under their own addresses. -/
def StationLabel.keyed : StationLabel → Bool
  | .thread (.receive msg) => Keyed msg.state
  | _ => true

/-- No pass reconciles while the view lacks a peer that is added and not published, and
no exception ends a handler that has added its peer. -/
def Station.undisturbed (station : Station) : StationLabel → Bool
  | .thread .reconcile =>
    match station.listener.pending with
    | some ip => ip ∈ station.member.node.sync.peers
    | none => true
  | .handle =>
    match station.listener with
    | .busy ⟨_, .added, _⟩ => station.member.node.state.ip ∈ station.member.node.sync.peers
    | .busy ⟨request, .answered, _⟩ => request.syncPort ≠ .missing
    | _ => true
  | _ => true

def Foreign (own : Ip) (reply : Ip × Response GossipInfo) : Prop :=
  ∀ content info, reply.2 = .success content info → reply.1 ≠ own

structure Station.Fine (station : Station) : Prop where
  attended : Attended (fun ip => station.listener.pending = some ip) 0 station.member
  tested : ∀ handling, station.listener = .busy handling → handling.progress ≠ .received →
    handling.request.ip ≠ station.member.node.state.ip
  replies : ∀ reply ∈ station.replies, Foreign station.member.node.state.ip reply

theorem Started.sound {node : GossipNode} (started : Started node) : Sound node := by
  cases started with
  | created config => exact (created_fine config).sound
  | joined fine => exact (joined_fine fine).sound

theorem Station.Fine.start {node : GossipNode} (started : Started node) :
    (Station.start node).Fine where
  attended := by
    have hsound := started.sound
    refine ⟨hsound.keyed, hsound.single, hsound.tracks.foreign, ?_, fun _ _ ip => ?_⟩
    · dsimp only [Station.start, Member.start]
      rw [hsound.free]
      rfl
    · dsimp only [Station.start, Member.start]
      rw [hsound.tracks ip]
      simp [Listener.pending]
  tested := fun handling h => by cases h
  replies := fun reply hmem => by cases hmem

variable {station : Station}

theorem Station.Fine.threaded (fine : station.Fine) {label : ThreadLabel} {member : Member}
    (own : label.isHandler = false) (keyed : StationLabel.keyed (.thread label) = true)
    (undisturbed : station.undisturbed (.thread label) = true)
    (step : station.member.next label = some member) : Station.Fine { station with member } := by
  have hkeyed : ∀ msg, label = .receive msg → Keyed msg.state := by
    rintro msg rfl
    exact of_decide_eq_true keyed
  have hcovered : label = .reconcile → station.member.loop.holds = true →
      ∀ ip, station.listener.pending = some ip → ip ∈ station.member.node.sync.peers := by
    rintro rfl - ip hpending
    simp only [Station.undisturbed, hpending] at undisturbed
    exact of_decide_eq_true undisturbed
  obtain ⟨hattended, hip⟩ := fine.attended.next (turns_of_next own step) hkeyed hcovered
  refine ⟨hattended, ?_, ?_⟩
  · intro handling hlistener htested
    rw [hip]
    exact fine.tested handling hlistener htested
  · intro reply hmem content info hsuccess
    rw [hip]
    exact fine.replies reply hmem content info hsuccess

theorem Station.Fine.listened (fine : station.Fine) {listener : Listener GossipInfo}
    {replies : List (Ip × Response GossipInfo)}
    (pending : listener.pending = station.listener.pending)
    (tested : ∀ handling, listener = .busy handling → handling.progress ≠ .received →
      handling.request.ip ≠ station.member.node.state.ip)
    (answers : ∀ reply ∈ replies, Foreign station.member.node.state.ip reply) :
    Station.Fine ⟨station.member, listener, station.replies ++ replies⟩ where
  attended := fine.attended.congr fun ip => by rw [pending]
  tested := tested
  replies := fun reply hmem => (List.mem_append.mp hmem).elim (fine.replies reply) (answers reply)

theorem Station.Fine.handled (fine : station.Fine) {handling : Handling GossipInfo}
    (busy : station.listener = .busy handling) (undisturbed : station.undisturbed .handle = true)
    {listener : Listener GossipInfo} {node : GossipNode} {reply : Option (Ip × Response GossipInfo)}
    (advances : handling.advance gossipModule station.member.node = (listener, node, reply)) :
    Station.Fine ⟨{ station.member with node }, listener, station.replies ++ reply.toList⟩ := by
  obtain ⟨request, progress, response⟩ := handling
  have htested := fine.tested _ busy
  cases progress with
  | received =>
      have hwaiting (status : String) : Station.Fine ⟨station.member, .waiting,
          station.replies ++ [(request.ip, .error status)]⟩ := by
        refine fine.listened ?_ (fun _ h => by cases h) fun reply hmem => ?_
        · simp [busy, Listener.pending]
        · rw [List.mem_singleton.mp hmem]
          intro _ _ h
          cases h
      simp only [Handling.advance] at advances
      split at advances
      · cases advances
        exact hwaiting _
      · split at advances
        · cases advances
          exact hwaiting _
        · rename_i hfree
          cases advances
          refine fine.listened ?_ (fun handling h _ => ?_) fun _ h => by cases h
          · simp [busy, Listener.pending]
          · cases h
            exact fun hown => hfree (.inr hown)
  | tested =>
      have hforeign := htested (by simp)
      cases advances
      refine ⟨(fine.attended.added hforeign).congr fun ip => ?_, fun handling h _ => ?_, ?_⟩
      · simp [busy, Listener.pending]
      · cases h
        rw [(request.addedTo_same station.member.node.state).ip]
        exact hforeign
      · intro reply hmem content info hsuccess
        rw [(request.addedTo_same station.member.node.state).ip]
        simp only [Option.toList_none, List.append_nil] at hmem
        exact fine.replies reply hmem content info hsuccess
  | added =>
      simp only [Station.undisturbed, busy, decide_eq_true_eq] at undisturbed
      obtain ⟨seed, hseed⟩ := Dict.mem_iff_lookup.mp undisturbed
      simp only [Handling.advance, gossipModule, hseed] at advances
      cases advances
      refine fine.listened ?_ (fun handling h _ => ?_) fun _ h => by cases h
      · simp [busy, Listener.pending]
      · cases h
        exact htested (by simp)
  | answered =>
      have hforeign := htested (by simp)
      simp only [Station.undisturbed, busy, decide_eq_true_eq] at undisturbed
      obtain ⟨change, hchange⟩ := Request.change_of_syncPort undisturbed
      simp only [Handling.advance, hchange] at advances
      cases advances
      have hpending : Attended (fun ip => False ∨ change.virtualIp = ip) 0 station.member := by
        refine fine.attended.congr fun ip => ?_
        simp [busy, Listener.pending, Request.change_ip hchange]
      refine ⟨hpending.published.congr fun ip => ?_, fun handling h _ => ?_, ?_⟩
      · simp [Listener.pending]
      · cases h
        exact hforeign
      · intro reply hmem
        simp only [Option.toList_none, List.append_nil] at hmem
        exact fine.replies reply hmem
  | published =>
      have hforeign := htested (by simp)
      cases advances
      refine fine.listened ?_ (fun _ h => by cases h) fun reply hmem => ?_
      · simp [busy, Listener.pending]
      · simp only [Option.mem_toList, Option.map_eq_some_iff] at hmem
        obtain ⟨answer, -, rfl⟩ := hmem
        exact fun _ _ _ => hforeign

theorem Station.Fine.next (fine : station.Fine) {after : Station} {label : StationLabel}
    (keyed : label.keyed = true) (undisturbed : station.undisturbed label = true)
    (step : station.next label = some after) :
    after.Fine := by
  cases label with
  | thread label =>
      simp only [Station.next] at step
      split at step
      · cases step
      · rename_i hown
        obtain ⟨member, hmember, rfl⟩ := Option.map_eq_some_iff.mp step
        exact fine.threaded (Bool.eq_false_iff.mpr hown) keyed undisturbed hmember
  | datagram request =>
      have hidle {listener : Listener GossipInfo} (waiting : station.listener = .waiting)
          (pending : listener.pending = none)
          (received : ∀ handling, listener = .busy handling → handling.progress = .received) :
          Station.Fine { station with listener } := by
        refine ⟨fine.attended.congr fun ip => ?_, fun handling h htested => ?_, fine.replies⟩
        · have hnone : station.listener.pending = none := by rw [waiting]; rfl
          rw [hnone, pending]
        · exact absurd (received handling h) htested
      simp only [Station.next] at step
      split at step
      · rename_i hwaiting
        cases step
        refine hidle hwaiting rfl fun handling h => ?_
        cases h
        rfl
      · rename_i hwaiting
        cases step
        exact hidle hwaiting rfl fun _ h => by cases h
      · cases step
  | handle =>
      simp only [Station.next] at step
      split at step
      · rename_i handling hbusy
        cases step
        exact fine.handled hbusy undisturbed rfl
      · cases step

/-- Once the handler and the pass are over, `State` has the peers of the view, those that
were answered with success among them. -/
theorem broadcast_admission_kept {node : GossipNode} (started : Started node)
    (run : Run Station.next
      (fun station label => label.keyed = true ∧ station.undisturbed label = true)
      (.start node) station)
    (handled : ∀ handling, station.listener ≠ .busy handling)
    (noPass : station.member.loop.inPass = false) :
    Tracks station.member.node.state station.member.node.sync.peers ∧
      ∀ ip content info, (ip, Response.success content info) ∈ station.replies →
        ip ∈ station.member.node.sync.peers → ip ∈ station.member.node.state.peers := by
  have hfine : station.Fine := run.invariant Station.Fine (Station.Fine.start started)
    (fun _ _ _ _ hfine hok hstep => hfine.next hok.1 hok.2 hstep)
  have hcovers := hfine.attended.covers (by rintro next h; rw [h] at noPass; cases noPass)
    (by rintro next h; rw [h] at noPass; cases noPass)
  have htracks : Tracks station.member.node.state station.member.node.sync.peers := by
    refine hcovers.tracks fun ip hpending => ?_
    cases hlistener : station.listener with
    | busy handling => exact handled handling hlistener
    | waiting => simp [hlistener, Listener.pending] at hpending
    | dead => simp [hlistener, Listener.pending] at hpending
  refine ⟨htracks, fun ip content info hreply hlisted => ?_⟩
  exact (htracks ip).mpr ⟨hlisted, hfine.replies _ hreply content info rfl⟩

def founderNode : GossipNode :=
  (created ⟨"10.0.0.1", "ka", "198.51.100.1", 51820, 6888⟩).node

def broadcastRequest (ip : Ip) (publicKey publicIp : String) : Request :=
  ⟨"BCAST_JOIN_REQUEST", ip, publicKey, publicIp, 51820, .port 6888⟩

def earlierMap : PeerMap :=
  ((∅ : PeerMap).set "10.0.0.1"
    ⟨"10.0.0.1", "ka", "198.51.100.1", 51820, .port 6888, ["10.0.0.1/32"]⟩).set "10.0.0.3"
      ⟨"10.0.0.3", "kc", "198.51.100.3", 51820, .port 6888, ["10.0.0.3/32", "192.0.2.0/24"]⟩

def admitThird : List StationLabel :=
  [.datagram (some (broadcastRequest "10.0.0.3" "kc" "198.51.100.3")), .handle, .handle, .handle,
    .handle, .handle]

def passEarlierMap : List StationLabel :=
  [.thread (.receive ⟨.stateUpdate, 3, "10.0.0.3", 6888, earlierMap⟩), .thread .acquire,
    .thread .reconcile, .thread .release, .thread .notice]

def admitSecond : List StationLabel :=
  [.datagram (some (broadcastRequest "10.0.0.2" "kb" "198.51.100.2")), .handle, .handle]

def finishSecond : List StationLabel := [.handle, .handle, .handle]

theorem broadcast_admission_kept_inTurn :
    ∃ station : Station, station.replies.length = 2 ∧
      Tracks station.member.node.state station.member.node.sync.peers ∧
      "10.0.0.2" ∈ station.member.node.state.peers := by
  have hreplay : (replay Station.next
      (fun station label => label.keyed && station.undisturbed label) (.start founderNode)
      (admitThird ++ passEarlierMap ++ admitSecond ++ finishSecond)).any
        (fun station => station.replies.length = 2 && station.listener = .waiting &&
          !station.member.loop.inPass && "10.0.0.2" ∈ station.member.node.state.peers) = true := by
    decide +kernel
  obtain ⟨station, hrun, hfound⟩ :=
    reached_of_replay (fun _ _ h => (Bool.and_eq_true _ _).mp h) hreplay
  simp only [Bool.and_eq_true, decide_eq_true_eq, Bool.not_eq_true'] at hfound
  obtain ⟨⟨⟨hreplies, hwaiting⟩, hpass⟩, hpeer⟩ := hfound
  have hkept := broadcast_admission_kept (.created _) hrun (by rw [hwaiting]; simp) hpass
  exact ⟨station, hreplies, hkept.1, hpeer⟩

/-- A pass between the two writes removes the peer, and nothing brings it back. -/
theorem broadcast_admission_kept_fails :
    ¬∀ station, Run Station.next (fun _ label => label.keyed = true) (.start founderNode) station →
      station.listener = .waiting → station.member.loop.inPass = false →
      Tracks station.member.node.state station.member.node.sync.peers := by
  intro h
  have hreplay : (replay Station.next (fun _ label => label.keyed) (.start founderNode)
      (admitThird ++ admitSecond ++ passEarlierMap ++ finishSecond)).any
        (fun station => station.listener = .waiting && !station.member.loop.inPass &&
          "10.0.0.2" ∈ station.member.node.sync.peers &&
          "10.0.0.2" ∉ station.member.node.state.peers &&
          station.member.node.state.ip = "10.0.0.1") = true := by
    decide +kernel
  obtain ⟨station, hrun, hfound⟩ := reached_of_replay (fun _ _ h => h) hreplay
  simp only [Bool.and_eq_true, decide_eq_true_eq, Bool.not_eq_true'] at hfound
  obtain ⟨⟨⟨⟨hwaiting, hpass⟩, hlisted⟩, hremoved⟩, hown⟩ := hfound
  have htracks := h station hrun hwaiting hpass
  exact hremoved ((htracks "10.0.0.2").mpr ⟨hlisted, by rw [hown]; decide⟩)

end WgBp.Gossip
