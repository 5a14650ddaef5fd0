import WgBp.Gossip.Departure
import WgBp.Gossip.Network
import WgBp.Gossip.Sending
import WgBp.Library.Transition

/-! The rounds of `_sendGossip` and `_sendLastGossip`: so many peers, drawn at random from
a map that failed sends shrink and, while a send is awaited, handled messages replace. A
send that finds the send lock taken is the end of the round and of the event loop. -/
namespace WgBp.Gossip

open WgBp.Library WgBp.Library.Procedure WgBp.Library.Transition WgBp.Model

/-- How far a round has come. `remaining` counts the selections to come, `sending` is the
peer whose send is suspended, `lock` is `_send_lock`, and `frozen` says that the loop waits
for it; `failed` is a ghost, the peers whose send has raised. -/
structure Round where
  node : GossipNode
  contacted : List Ip
  remaining : Nat
  sending : Option (Ip × Await)
  lock : Bool
  frozen : Bool
  failed : List Ip
  deriving DecidableEq

inductive RoundLabel where
  | draw (peerIp : Ip)
  | resume (success : Bool)
  | handle (msg : Msg)
  | notice (msg : Msg)
  deriving DecidableEq

def Round.heartbeat (degree : Nat) (lock : Bool) (node : GossipNode) : Round :=
  ⟨node, [], min degree (node.sync.peers.keys.length - 1), none, lock, false, []⟩

/-- The rounds of a node that leaves; it has to list itself, for the `del` raises
otherwise. -/
def Round.departure (degree : Nat) (lock : Bool) (leaver : GossipNode) : Round :=
  let node := lastGossip leaver
  let rounds := if leaver.state.ip ∈ leaver.sync.peers then
    min degree node.sync.peers.keys.length else 0
  ⟨node, [], rounds, none, lock, false, []⟩

/-- The exception path; the last gossip gives up on an unreachable peer it has to
forget. -/
def Round.fail (departure : Bool) (round : Round) (peerIp : Ip) : Round := { round with
  node := forgetUnreachable round.node peerIp
  remaining := if departure ∧ peerIp ∉ round.node.state.peers then 0 else round.remaining
  sending := none
  failed := round.failed ++ [peerIp] }

def Round.go (departure : Bool) (round : Round) (peerIp : Ip) : SendStep → Round
  | .returns => round
  | .blocks => { round with frozen := true }
  | .awaits lock await => { round with lock, sending := some (peerIp, await) }
  | .ends lock raises =>
    if raises then { round with lock }.fail departure peerIp
    else { round with lock, sending := none }

/-- A selection that is accepted. A record without `sync_port` raises before anything is
sent. -/
def Round.contact (departure : Bool) (round : Round) (peerIp : Ip) (record : PeerRecord) : Round :=
  let chosen := { round with
    contacted := round.contacted ++ [peerIp]
    remaining := round.remaining - 1 }
  match record.syncPort with
  | .missing => chosen.fail departure peerIp
  | syncPort => chosen.go departure peerIp (startSend round.lock syncPort)

/-- A handler that replies asks for the lock that the suspended send holds. -/
def Round.handle (round : Round) (msg : Msg) : Round :=
  let result := (handleGossip msg).run round.node
  { round with
    node := final result
    frozen := round.lock && !(replyOf msg (outcome result)).isEmpty }

/-- One step of a round. Messages are handled only while a send is awaited. -/
def Round.next (departure : Bool) (round : Round) (label : RoundLabel) : Option Round :=
  if round.frozen then none
  else match label with
    | .draw peerIp =>
      if round.sending = none ∧ 0 < round.remaining then
        (round.node.sync.peers.lookup peerIp).map fun record =>
          if peerIp = round.node.state.ip ∨ peerIp ∈ round.contacted then round
          else round.contact departure peerIp record
      else none
    | .resume success => round.sending.map fun send =>
      round.go departure send.1 (send.2.resume round.lock success)
    | .handle msg => round.sending.map fun _ => round.handle msg
    | .notice msg => round.sending.map fun _ =>
      { round with node := final ((noticeDeparture msg).run round.node) }

def eligible (node : GossipNode) (contacted : List Ip) : List Ip :=
  node.sync.peers.keys.filter fun ip => ip ≠ node.state.ip ∧ ip ∉ contacted

def Round.sends (round : Round) (peerIp : Ip) : Bool :=
  peerIp ≠ round.node.state.ip && (peerIp ∉ round.contacted &&
    (round.node.sync.peers.lookup peerIp).any fun record =>
      record.syncPort ≠ .missing && record.syncPort ≠ .null)

def Round.clear (round : Round) : RoundLabel → Bool
  | .draw peerIp => !(round.lock && round.sends peerIp)
  | _ => true

def Round.selecting (round : Round) : Bool :=
  round.frozen = false ∧ round.sending = none ∧ 0 < round.remaining

@[simp] theorem mem_eligible (node : GossipNode) (contacted : List Ip) (ip : Ip) :
    ip ∈ eligible node contacted ↔
      ip ∈ node.sync.peers ∧ ip ≠ node.state.ip ∧ ip ∉ contacted := by
  simp [eligible, AList.mem_keys]

@[simp] theorem eligible_nil (node : GossipNode) :
    eligible node [] = node.sync.peers.keys.erase node.state.ip := by
  rw [node.sync.peers.keys_nodup.erase_eq_filter, eligible]
  refine List.filter_congr fun ip _ => ?_
  by_cases hip : ip = node.state.ip
  · simp [hip]
  · simp [hip]

theorem eligible_contact {node : GossipNode} {contacted : List Ip} {peerIp : Ip}
    (member : peerIp ∈ eligible node contacted) :
    (eligible node (contacted ++ [peerIp])).length + 1 = (eligible node contacted).length := by
  have herase : eligible node (contacted ++ [peerIp]) =
      (eligible node contacted).erase peerIp := by
    have hnodup : (eligible node contacted).Nodup := node.sync.peers.keys_nodup.filter _
    rw [hnodup.erase_eq_filter, eligible, eligible, List.filter_filter]
    refine List.filter_congr fun ip _ => ?_
    by_cases hip : ip = peerIp
    · simp [hip]
    · simp [hip]
  have hpositive := List.length_pos_of_mem member
  rw [herase, List.length_erase_of_mem member]
  omega

theorem eligible_forget {node : GossipNode} {contacted : List Ip} {peerIp : Ip}
    (member : peerIp ∈ contacted) :
    eligible (forgetUnreachable node peerIp) contacted = eligible node contacted := by
  unfold forgetUnreachable
  split
  · rfl
  · unfold eligible
    dsimp only
    rw [AList.keys_erase, node.sync.peers.keys_nodup.erase_eq_filter, List.filter_filter]
    refine List.filter_congr fun ip _ => ?_
    by_cases hip : ip = peerIp
    · simp [hip, member]
    · simp [hip]

inductive Round.Takes (departure : Bool) (round : Round) : RoundLabel → Round → Prop where
  | rejects {peerIp : Ip} : Takes departure round (.draw peerIp) round
  | skips {peerIp : Ip} (idle : round.sending = none) (left : 0 < round.remaining)
      (drawn : peerIp ∈ eligible round.node round.contacted) :
      Takes departure round (.draw peerIp) { round with
        contacted := round.contacted ++ [peerIp], remaining := round.remaining - 1 }
  | selects {peerIp : Ip} (idle : round.sending = none) (left : 0 < round.remaining)
      (drawn : peerIp ∈ eligible round.node round.contacted) :
      Takes departure round (.draw peerIp) { round with
        contacted := round.contacted ++ [peerIp]
        remaining := round.remaining - 1
        lock := true
        sending := some (peerIp, .connect) }
  | blocks {peerIp : Ip} (idle : round.sending = none) (left : 0 < round.remaining)
      (drawn : peerIp ∈ eligible round.node round.contacted)
      (unclear : round.clear (.draw peerIp) = false) :
      Takes departure round (.draw peerIp) { round with
        contacted := round.contacted ++ [peerIp]
        remaining := round.remaining - 1
        frozen := true }
  | breaks {peerIp : Ip} (idle : round.sending = none) (left : 0 < round.remaining)
      (drawn : peerIp ∈ eligible round.node round.contacted) :
      Takes departure round (.draw peerIp) (Round.fail departure { round with
        contacted := round.contacted ++ [peerIp]
        remaining := round.remaining - 1 } peerIp)
  | waits {peerIp : Ip} {await later : Await} {success : Bool} (lock : Bool)
      (sending : round.sending = some (peerIp, await)) :
      Takes departure round (.resume success)
        { round with lock, sending := some (peerIp, later) }
  | succeeds {peerIp : Ip} {await : Await} {success : Bool} (lock : Bool)
      (sending : round.sending = some (peerIp, await)) :
      Takes departure round (.resume success) { round with lock, sending := none }
  | fails {peerIp : Ip} {await : Await} {success : Bool} (lock : Bool)
      (sending : round.sending = some (peerIp, await)) :
      Takes departure round (.resume success) (Round.fail departure { round with lock } peerIp)
  | handles {msg : Msg} {send : Ip × Await} (sending : round.sending = some send) :
      Takes departure round (.handle msg) (round.handle msg)
  | notices {msg : Msg} {send : Ip × Await} (sending : round.sending = some send) :
      Takes departure round (.notice msg)
        { round with node := final ((noticeDeparture msg).run round.node) }

theorem Round.running_of_next {departure : Bool} {round after : Round} {label : RoundLabel}
    (step : round.next departure label = some after) : round.frozen = false := by
  unfold Round.next at step
  split at step
  · cases step
  · rename_i hrunning
    exact Bool.eq_false_iff.mpr hrunning

theorem Round.rests_of_frozen {departure : Bool} {round : Round} (frozen : round.frozen = true)
    (label : RoundLabel) : round.next departure label = none := by
  unfold Round.next
  exact if_pos frozen

theorem Round.takes_contact {departure : Bool} {round : Round} {peerIp : Ip} {record : PeerRecord}
    (idle : round.sending = none) (left : 0 < round.remaining)
    (found : round.node.sync.peers.lookup peerIp = some record)
    (foreign : peerIp ≠ round.node.state.ip) (fresh : peerIp ∉ round.contacted) :
    round.Takes departure (.draw peerIp) (round.contact departure peerIp record) := by
  have hdrawn : peerIp ∈ eligible round.node round.contacted :=
    (mem_eligible _ _ _).mpr ⟨Dict.mem_of_lookup found, foreign, fresh⟩
  unfold Round.contact
  cases hport : record.syncPort with
  | missing => exact .breaks idle left hdrawn
  | null => exact .skips idle left hdrawn
  | port number =>
      by_cases hlock : round.lock = true
      · have hstart : startSend round.lock (.port number) = .blocks := if_pos hlock
        dsimp only
        rw [hstart]
        refine .blocks idle left hdrawn ?_
        simp [Round.clear, Round.sends, hlock, found, hport, foreign, fresh]
      · have hstart : startSend round.lock (.port number) = .awaits true .connect := if_neg hlock
        dsimp only
        rw [hstart]
        exact .selects idle left hdrawn

theorem Round.takes_of_next {departure : Bool} {round after : Round} {label : RoundLabel}
    (step : round.next departure label = some after) : round.Takes departure label after := by
  unfold Round.next at step
  rw [if_neg (Bool.eq_false_iff.mp (Round.running_of_next step))] at step
  cases label with
  | draw peerIp =>
      dsimp only at step
      split at step
      · rename_i hready
        obtain ⟨record, hrecord, hafter⟩ := Option.map_eq_some_iff.mp step
        split at hafter
        · cases hafter
          exact .rejects
        · rename_i hfresh
          obtain ⟨hforeign, hfresh⟩ := not_or.mp hfresh
          exact hafter ▸ Round.takes_contact hready.1 hready.2 hrecord hforeign hfresh
      · cases step
  | resume success =>
      obtain ⟨⟨peerIp, await⟩, hsending, hafter⟩ := Option.map_eq_some_iff.mp step
      cases await <;> cases success <;> cases hafter
      · exact .fails _ hsending
      · exact .waits _ hsending
      · exact .fails _ hsending
      · exact .waits _ hsending
      · exact .fails _ hsending
      · exact .succeeds _ hsending
  | handle msg =>
      obtain ⟨send, hsending, rfl⟩ := Option.map_eq_some_iff.mp step
      exact .handles hsending
  | notice msg =>
      obtain ⟨send, hsending, rfl⟩ := Option.map_eq_some_iff.mp step
      exact .notices hsending

structure Round.Supplied (round : Round) : Prop where
  enough : round.remaining ≤ (eligible round.node round.contacted).length
  awaited : ∀ send, round.sending = some send → send.1 ∈ round.contacted

theorem Round.Supplied.exists_eligible {round : Round} (supplied : round.Supplied)
    (selecting : round.selecting = true) :
    ∃ peerIp ∈ round.node.sync.peers, peerIp ≠ round.node.state.ip ∧ peerIp ∉ round.contacted := by
  have hleft : 0 < round.remaining := (of_decide_eq_true selecting).2.2
  obtain ⟨peerIp, hmem⟩ := List.exists_mem_of_length_pos
    (Nat.lt_of_lt_of_le hleft supplied.enough)
  exact ⟨peerIp, (mem_eligible _ _ _).mp hmem⟩

theorem Round.Supplied.fail {departure : Bool} {round : Round} {peerIp : Ip}
    (enough : round.remaining ≤ (eligible round.node round.contacted).length)
    (member : peerIp ∈ round.contacted) : (round.fail departure peerIp).Supplied := by
  refine ⟨?_, fun other hother => by cases hother⟩
  unfold Round.fail
  dsimp only
  rw [eligible_forget member]
  split
  · exact Nat.zero_le _
  · exact enough

/-- The messages handled while a send is awaited leave enough candidates. -/
def Round.spares (round : Round) : RoundLabel → Prop
  | .handle msg => round.remaining ≤ (eligible (round.handle msg).node round.contacted).length
  | .notice msg => round.remaining ≤
      (eligible (final ((noticeDeparture msg).run round.node)) round.contacted).length
  | _ => True

instance (round : Round) : (label : RoundLabel) → Decidable (round.spares label)
  | .handle _ | .notice _ => inferInstanceAs (Decidable (_ ≤ _))
  | .draw _ | .resume _ => inferInstanceAs (Decidable True)

theorem Round.Supplied.next {departure : Bool} {round after : Round} {label : RoundLabel}
    (supplied : round.Supplied) (spares : round.spares label)
    (step : round.next departure label = some after) : after.Supplied := by
  cases Round.takes_of_next step with
  | rejects => exact supplied
  | skips idle left drawn =>
      have hcount := eligible_contact drawn
      have henough := supplied.enough
      refine ⟨?_, fun other hother => ?_⟩
      · dsimp only
        omega
      · rw [idle] at hother
        cases hother
  | selects idle left drawn =>
      have hcount := eligible_contact drawn
      have henough := supplied.enough
      refine ⟨?_, fun other hother => ?_⟩
      · dsimp only
        omega
      · cases hother
        simp
  | blocks idle left drawn =>
      have hcount := eligible_contact drawn
      have henough := supplied.enough
      refine ⟨?_, fun other hother => ?_⟩
      · dsimp only
        omega
      · rw [idle] at hother
        cases hother
  | breaks idle left drawn =>
      have hcount := eligible_contact drawn
      have henough := supplied.enough
      refine Round.Supplied.fail ?_ (by simp)
      dsimp only
      omega
  | waits lock sending =>
      refine ⟨supplied.enough, fun other hother => ?_⟩
      have hmember := supplied.awaited _ sending
      cases hother
      exact hmember
  | succeeds lock sending => exact ⟨supplied.enough, fun other hother => by cases hother⟩
  | fails lock sending =>
      have hmember := supplied.awaited _ sending
      exact Round.Supplied.fail supplied.enough hmember
  | handles sending => exact ⟨spares, supplied.awaited⟩
  | notices sending => exact ⟨spares, supplied.awaited⟩

def RoundLabel.own : RoundLabel → Bool
  | .draw _ | .resume _ => true
  | .handle _ | .notice _ => false

structure Beat (degree : Nat) (node : GossipNode) (round : Round) : Prop where
  supplied : round.Supplied
  running : round.frozen = false
  count : round.contacted.length + round.remaining =
    min degree (node.sync.peers.keys.length - 1)
  nodup : round.contacted.Nodup
  foreign : node.state.ip ∉ round.contacted
  failed : ∀ ip ∈ round.failed, ip ∈ round.contacted
  node : round.node = { node with sync := { node.sync with
    peers := node.sync.peers.eraseAll (round.failed.filter fun ip => ip ∉ node.state.peers) } }

theorem beat_start (degree : Nat) (lock : Bool) (node : GossipNode) :
    Beat degree node (.heartbeat degree lock node) where
  supplied := by
    refine ⟨?_, fun other hother => by cases hother⟩
    unfold Round.heartbeat
    dsimp only
    rw [eligible_nil, List.length_erase]
    split <;> omega
  running := rfl
  count := Nat.zero_add _
  nodup := List.nodup_nil
  foreign := List.not_mem_nil
  failed := fun _ h => absurd h List.not_mem_nil
  node := rfl

theorem Beat.state {degree : Nat} {node : GossipNode} {round : Round}
    (beat : Beat degree node round) : round.node.state = node.state := by rw [beat.node]

theorem Beat.awaits {degree : Nat} {node : GossipNode} {round : Round}
    (beat : Beat degree node round) (lock : Bool) {sending : Option (Ip × Await)}
    (awaited : ∀ send, sending = some send → send.1 ∈ round.contacted) :
    Beat degree node { round with lock, sending } :=
  ⟨⟨beat.supplied.enough, awaited⟩, beat.running, beat.count, beat.nodup, beat.foreign,
    beat.failed, beat.node⟩

theorem Beat.contact {degree : Nat} {node : GossipNode} {round : Round} {peerIp : Ip}
    (beat : Beat degree node round) (left : 0 < round.remaining)
    (drawn : peerIp ∈ eligible round.node round.contacted) (idle : round.sending = none) :
    Beat degree node { round with
      contacted := round.contacted ++ [peerIp]
      remaining := round.remaining - 1 } := by
  obtain ⟨-, hforeign, hfresh⟩ := (mem_eligible _ _ _).mp drawn
  have hcount := eligible_contact drawn
  have henough := beat.supplied.enough
  have htotal := beat.count
  rw [beat.state] at hforeign
  refine ⟨⟨?_, ?_⟩, beat.running, ?_, ?_, ?_, ?_, beat.node⟩
  · dsimp only
    omega
  · intro other hother
    rw [idle] at hother
    cases hother
  · dsimp only
    rw [List.length_append, List.length_singleton]
    omega
  · exact List.concat_eq_append ▸ beat.nodup.concat hfresh
  · simp [beat.foreign, Ne.symm hforeign]
  · intro ip hip
    exact List.mem_append_left _ (beat.failed ip hip)

theorem Beat.fail {degree : Nat} {node : GossipNode} {round : Round} {peerIp : Ip}
    (beat : Beat degree node round) (member : peerIp ∈ round.contacted) :
    Beat degree node (round.fail false peerIp) := by
  refine ⟨.fail beat.supplied.enough member, beat.running, ?_, beat.nodup, beat.foreign, ?_, ?_⟩
  · simpa [Round.fail] using beat.count
  · intro ip hip
    rcases List.mem_append.mp hip with h | h
    · exact beat.failed ip h
    · rw [List.mem_singleton] at h
      exact h ▸ member
  · unfold Round.fail forgetUnreachable
    dsimp only
    rw [beat.state, List.filter_append]
    by_cases hknown : peerIp ∈ node.state.peers
    · simp [hknown, beat.node]
    · simp [hknown, beat.node, Dict.eraseAll_concat]

theorem Beat.next {degree : Nat} {node : GossipNode} {round after : Round} {label : RoundLabel}
    (beat : Beat degree node round) (own : label.own = true) (clear : round.clear label = true)
    (step : round.next false label = some after) : Beat degree node after := by
  cases Round.takes_of_next step with
  | rejects => exact beat
  | skips idle left drawn => exact beat.contact left drawn idle
  | selects idle left drawn =>
      refine (beat.contact left drawn idle).awaits true ?_
      rintro send ⟨⟩
      simp
  | blocks idle left drawn unclear =>
      rw [unclear] at clear
      cases clear
  | breaks idle left drawn => exact (beat.contact left drawn idle).fail (by simp)
  | waits lock sending =>
      have hmember := beat.supplied.awaited _ sending
      refine beat.awaits lock ?_
      rintro send ⟨⟩
      exact hmember
  | succeeds lock sending => exact beat.awaits lock (by rintro send ⟨⟩)
  | fails lock sending =>
      have hmember := beat.supplied.awaited _ sending
      exact (beat.awaits lock beat.supplied.awaited).fail hmember
  | handles sending => cases own
  | notices sending => cases own

def Round.finished (round : Round) : Bool :=
  round.frozen = false ∧ round.sending = none ∧ round.remaining = 0

theorem Beat.finished_of_rest {degree : Nat} {node : GossipNode} {round : Round}
    (beat : Beat degree node round) (rests : ∀ label, round.next false label = none) :
    round.finished = true := by
  have hrunning := beat.running
  cases hsending : round.sending with
  | some send =>
      have hnone := rests (.resume true)
      simp [Round.next, hrunning, hsending] at hnone
  | none =>
      refine decide_eq_true ⟨hrunning, hsending, Nat.eq_zero_of_not_pos fun hleft => ?_⟩
      obtain ⟨peerIp, hlisted, -⟩ := beat.supplied.exists_eligible
        (decide_eq_true ⟨hrunning, hsending, hleft⟩)
      obtain ⟨record, hrecord⟩ := Dict.mem_iff_lookup.mp hlisted
      have hnone := rests (.draw peerIp)
      simp [Round.next, hrunning, hsending, hleft, hrecord] at hnone

theorem Round.stuck_of_unclear {departure : Bool} {round after : Round} {peerIp : Ip}
    (unclear : round.clear (.draw peerIp) = false)
    (step : round.next departure (.draw peerIp) = some after) :
    after.finished = false ∧ ∀ label, after.next departure label = none := by
  have hfrozen : after.frozen = true := by
    have hrunning := Round.running_of_next step
    unfold Round.next at step
    rw [if_neg (Bool.eq_false_iff.mp hrunning)] at step
    dsimp only at step
    split at step
    · obtain ⟨record, hrecord, rfl⟩ := Option.map_eq_some_iff.mp step
      simp only [Round.clear, Round.sends, hrecord, Option.any_some, Bool.not_eq_false',
        Bool.and_eq_true, decide_eq_true_eq] at unclear
      obtain ⟨hlock, hforeign, hfresh, hmissing, hnull⟩ := unclear
      rw [if_neg (not_or.mpr ⟨hforeign, hfresh⟩)]
      unfold Round.contact
      cases hport : record.syncPort with
      | missing => exact absurd hport hmissing
      | null => exact absurd hport hnull
      | port number =>
          rw [hlock]
          rfl
    · cases step
  exact ⟨by simp [Round.finished, hfrozen], Round.rests_of_frozen hfrozen⟩

/-- What a heartbeat round owes to the peers, if the send lock is free wherever it begins a
send: somebody to select whenever it selects, an end, and there as many distinct foreign
peers contacted as it set out to, with those forgotten that were out of reach and that
`State` does not know. Where the lock is taken, the round never ends. -/
theorem heartbeat_round_well_formed (degree : Nat) (lock : Bool) (node : GossipNode)
    (round : Round)
    (run : Run (Round.next false) (fun round label => label.own = true ∧ round.clear label = true)
      (.heartbeat degree lock node) round) :
    (round.selecting = true → ∃ peerIp ∈ round.node.sync.peers,
      peerIp ≠ round.node.state.ip ∧ peerIp ∉ round.contacted) ∧
    ((∀ label, round.next false label = none) → round.finished = true) ∧
    (round.finished = true →
      round.contacted.length = min degree (node.sync.peers.keys.length - 1) ∧
      round.contacted.Nodup ∧ node.state.ip ∉ round.contacted ∧
      (∀ ip ∈ round.failed, ip ∈ round.contacted) ∧
      round.node = { node with sync := { node.sync with
        peers := node.sync.peers.eraseAll
          (round.failed.filter fun ip => ip ∉ node.state.peers) } }) ∧
    ∀ peerIp after, round.next false (.draw peerIp) = some after →
      round.clear (.draw peerIp) = false →
        after.finished = false ∧ ∀ label, after.next false label = none := by
  have hbeat : Beat degree node round := Run.invariant (Beat degree node)
    (beat_start degree lock node)
    (fun _ _ _ _ beat ok step => beat.next ok.1 ok.2 step) run
  refine ⟨hbeat.supplied.exists_eligible, hbeat.finished_of_rest, ?_,
    fun peerIp after step unclear => Round.stuck_of_unclear unclear step⟩
  intro hfinished
  have hcount := hbeat.count
  rw [(of_decide_eq_true hfinished).2.2] at hcount
  exact ⟨hcount, hbeat.nodup, hbeat.foreign, hbeat.failed, hbeat.node⟩

/-! A node that lists two others; the first it contacts is out of reach. -/

def neighbourRecord (ip : Ip) : PeerRecord :=
  ⟨ip, "k", "198.51.100.9", 51820, .port 6888, [ip ++ "/32"]⟩

def sociable : GossipNode :=
  let state := State.new "10.0.0.1" "ka" "198.51.100.1" 51820
  let alone := SyncGossip.new state none 6888
  let paired := alone.peers.set "10.0.0.2" (neighbourRecord "10.0.0.2")
  ⟨state, { alone with peers := paired.set "10.0.0.3" (neighbourRecord "10.0.0.3") }⟩

def oneOutOfReach : List RoundLabel :=
  [.draw "10.0.0.3", .resume false, .draw "10.0.0.1", .draw "10.0.0.2", .resume true, .resume true,
    .resume true]

theorem heartbeat_round_well_formed_sociable :
    ∃ round : Round, round.finished = true ∧ round.failed = ["10.0.0.3"] ∧
      round.contacted.length = min degree (sociable.sync.peers.keys.length - 1) := by
  have hreplay : (replay (Round.next false) (fun round label => label.own && round.clear label)
      (.heartbeat degree false sociable) oneOutOfReach).any
      (fun round => round.finished ∧ round.failed = ["10.0.0.3"]) = true := by decide +kernel
  obtain ⟨round, hrun, hfound⟩ :=
    reached_of_replay (fun _ _ ok => Bool.and_eq_true _ _ ▸ ok) hreplay
  obtain ⟨hfinished, hfailed⟩ := of_decide_eq_true hfound
  exact ⟨round, hfinished, hfailed,
    ((heartbeat_round_well_formed degree false sociable round hrun).2.2.1 hfinished).1⟩

/-- The first peer is connected to and then lost; the second is never contacted. -/
theorem heartbeat_round_well_formed_fails :
    ¬ ∀ (degree : Nat) (node : GossipNode) (round : Round),
      Run (Round.next false) (fun _ label => label.own = true) (.heartbeat degree false node)
        round →
      (∀ label, round.next false label = none) → round.finished = true := by
  intro claimed
  have hreplay : (replay (Round.next false) (fun _ label => label.own)
      (.heartbeat degree false sociable)
      [.draw "10.0.0.3", .resume true, .resume false, .draw "10.0.0.2"]).any
      (fun round => round.frozen) = true := by decide +kernel
  obtain ⟨round, hrun, hfrozen⟩ := reached_of_replay (fun _ _ own => own) hreplay
  have hfinished := claimed degree sociable round hrun (Round.rests_of_frozen hfrozen)
  simp [Round.finished, hfrozen] at hfinished

theorem supplied_departure (degree : Nat) (lock : Bool) (leaver : GossipNode) :
    (Round.departure degree lock leaver).Supplied := by
  refine ⟨?_, fun other hother => by cases hother⟩
  have hunlisted : (lastGossip leaver).state.ip ∉ (lastGossip leaver).sync.peers.keys :=
    fun hmem => unlisted_lastNotice leaver (AList.mem_keys.mpr hmem)
  unfold Round.departure
  dsimp only
  rw [eligible_nil, List.erase_of_not_mem hunlisted]
  split
  · exact Nat.min_le_right _ _
  · exact Nat.zero_le _

/-- A leaving node has somebody to select at every selection, as long as the messages
handled meanwhile leave it enough. -/
theorem leaving_selects (degree : Nat) (lock : Bool) (leaver : GossipNode) (round : Round)
    (run : Run (Round.next true) Round.spares (.departure degree lock leaver) round)
    (selecting : round.selecting = true) :
    ∃ peerIp ∈ round.node.sync.peers,
      peerIp ≠ round.node.state.ip ∧ peerIp ∉ round.contacted := by
  have hsupplied : round.Supplied := Run.invariant Round.Supplied
    (supplied_departure degree lock leaver)
    (fun _ _ _ _ supplied spares step => supplied.next spares step) run
  exact hsupplied.exists_eligible selecting

theorem leaving_selects_sociable :
    ∃ round : Round, round.contacted = ["10.0.0.3"] ∧ ∃ peerIp ∈ round.node.sync.peers,
      peerIp ≠ round.node.state.ip ∧ peerIp ∉ round.contacted := by
  have hreplay : (replay (Round.next true) (fun round label => round.spares label)
      (.departure degree false sociable)
      [.draw "10.0.0.3", .resume true, .resume true, .resume true]).any
      (fun round => round.selecting ∧ round.contacted = ["10.0.0.3"]) = true := by decide +kernel
  obtain ⟨round, hrun, hfound⟩ := reached_of_replay (fun _ _ h => of_decide_eq_true h) hreplay
  obtain ⟨hselecting, hcontacted⟩ := of_decide_eq_true hfound
  exact ⟨round, hcontacted, leaving_selects degree false sociable round hrun hselecting⟩

def thinned : Msg :=
  ⟨.stateUpdate, 5, "10.0.0.2", 6888, sociable.sync.peers.erase "10.0.0.3"⟩

theorem leaving_selects_fails :
    ¬ ∀ (leaver : GossipNode) (round : Round),
      Run (Round.next true) always (.departure degree false leaver) round →
      round.selecting = true →
      ∃ peerIp ∈ round.node.sync.peers,
        peerIp ≠ round.node.state.ip ∧ peerIp ∉ round.contacted := by
  intro claimed
  have hreplay : (replay (Round.next true) (fun _ _ => true) (.departure degree false sociable)
      [.draw "10.0.0.2", .handle thinned, .resume true, .resume true, .resume true]).any
      (fun round => round.selecting ∧ eligible round.node round.contacted = []) = true := by
    decide +kernel
  obtain ⟨round, hrun, hfound⟩ := reached_of_replay (fun _ _ _ => trivial) hreplay
  obtain ⟨hselecting, hnone⟩ := of_decide_eq_true hfound
  obtain ⟨peerIp, hmem, hfresh⟩ := claimed sociable round hrun hselecting
  have heligible := (mem_eligible round.node round.contacted peerIp).mpr ⟨hmem, hfresh⟩
  rw [hnone] at heligible
  cases heligible

end WgBp.Gossip
