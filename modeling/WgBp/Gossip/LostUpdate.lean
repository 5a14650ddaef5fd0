import WgBp.Gossip.Agreement

/-! What becomes of a published record at the node that published it. The record
stays as long as no process that lacks it raises its own version to the
publication's or beyond. -/
namespace WgBp.Gossip

open WgBp.Library WgBp.Library.Procedure WgBp.Library.Transition WgBp.Library.Versioned
open WgBp.Model

def Publication.recordedIn (pub : Publication) (peers : PeerMap) : Bool :=
  (peers.lookup pub.ip).any fun kept => kept = { pub.record with syncPort := kept.syncPort }

def Publication.Kept (pub : Publication) (network : Network) : Prop :=
  ∀ process, network.processes[pub.node]? = some process → process.phase ≠ .stopped →
    pub.recordedIn process.node.sync.peers = true

def Publication.untouched (pub : Publication) (network : Network) (label : Label) : Bool :=
  (publication network label).all (fun other => other.ip ≠ pub.ip) &&
    match label with
    | .leave index =>
      (network.processes[index]?).all fun process => process.node.state.ip ≠ pub.ip
    | _ => true

def Publication.ahead (pub : Publication) (network : Network) : Bool :=
  network.pairs.all fun pair => pair.1 < pub.version || pub.recordedIn pair.2

/-- A process that raises its version holds the record, or stays below the
publication's version; a notice that removes its sender does not come from the
published address. -/
def Publication.undisturbed (pub : Publication) (network : Network) (label : Label) : Bool :=
  (raiser network label).all (fun process =>
    process.node.sync.version + 1 < pub.version || pub.recordedIn process.node.sync.peers) &&
  (staleNotice network label).all fun msg => msg.fromIp ≠ pub.ip

theorem recordedIn_congr {pub : Publication} {before after : PeerMap}
    (same : after.lookup pub.ip = before.lookup pub.ip) :
    pub.recordedIn after = pub.recordedIn before := by
  unfold Publication.recordedIn
  rw [same]

@[simp] theorem recordedIn_set_self (pub : Publication) (peers : PeerMap) :
    pub.recordedIn (peers.set pub.ip pub.record) = true := by
  simp [Publication.recordedIn]

theorem recordedIn_port {pub : Publication} {peers : PeerMap} {known : PeerRecord}
    (recorded : pub.recordedIn peers = true) (found : peers.lookup pub.ip = some known)
    (syncPort : SyncPort) :
    pub.recordedIn (peers.set pub.ip { known with syncPort }) = true := by
  unfold Publication.recordedIn at *
  rw [found] at recorded
  have hknown : known = { pub.record with syncPort := known.syncPort } := by simpa using recorded
  rw [Dict.lookup_set_self, hknown]
  simp

theorem recordedIn_write {network : Network} {label : Label} {process : Process}
    {peers : PeerMap} {pub : Publication} (write : Write network label process peers)
    (untouched : pub.untouched network label = true)
    (recorded : pub.recordedIn process.node.sync.peers = true) :
    pub.recordedIn peers = true := by
  obtain ⟨hothers, hleaves⟩ := (Bool.and_eq_true _ _).mp untouched
  cases write with
  | published published _ =>
      rw [published] at hothers
      have hne := of_decide_eq_true hothers
      rw [recordedIn_congr (Dict.lookup_set_ne _ _ (Ne.symm hne))]
      exact recorded
  | onboarded found syncPort =>
      rename_i peerIp known
      by_cases hip : peerIp = pub.ip
      · subst hip
        exact recordedIn_port recorded found syncPort
      · rw [recordedIn_congr (Dict.lookup_set_ne _ _ (Ne.symm hip))]
        exact recorded
  | left member =>
      simp only [member, Option.all_some, decide_eq_true_eq] at hleaves
      rw [recordedIn_congr (AList.lookup_erase_ne (Ne.symm hleaves))]
      exact recorded

/-- From the publication's version on, everything held has the record, and the
publisher has reached that version. -/
structure Publication.Safe (pub : Publication) (network : Network) : Prop where
  good : GoodFrom pub.version (fun peers => pub.recordedIn peers = true) network.held
  reached : ∃ process, network.processes[pub.node]? = some process ∧
    pub.version ≤ process.node.sync.version

theorem Publication.Safe.kept {pub : Publication} {network : Network} (safe : pub.Safe network) :
    pub.Kept network := by
  intro process hmember halive
  obtain ⟨publisher, hpublisher, hversion⟩ := safe.reached
  rw [hmember] at hpublisher
  cases hpublisher
  exact safe.good _ (process_held (List.mem_of_getElem? hmember) halive) hversion

theorem Publication.Safe.next {pub : Publication} {network after : Network} {label : Label}
    (safe : pub.Safe network) (sane : Sane network) (positive : 0 < pub.version)
    (untouched : pub.untouched network label = true)
    (undisturbed : pub.undisturbed network label = true)
    (step : Gossip.next network label = some after) : pub.Safe after := by
  obtain ⟨hraiser, hstale⟩ := (Bool.and_eq_true _ _).mp undisturbed
  constructor
  · cases effect_of_next sane step with
    | copied sub => exact safe.good.copy sub
    | started _ _ sub =>
        exact safe.good.write (fun h => absurd h (Nat.not_le_of_lt positive)) sub
    | wrote _ _ raised write sub =>
        refine safe.good.write (fun hfloor => ?_) sub
        rw [raised, Option.all_some, Bool.or_eq_true, decide_eq_true_eq] at hraiser
        rcases hraiser with hbelow | hrecorded
        · exact absurd hfloor (Nat.not_le_of_lt hbelow)
        · exact recordedIn_write write untouched hrecorded
    | stale notice copied sub =>
        refine safe.good.write (fun hfloor => ?_) sub
        rw [notice, Option.all_some, decide_eq_true_eq] at hstale
        rw [recordedIn_congr (AList.lookup_erase_ne (Ne.symm hstale))]
        exact safe.good _ copied hfloor
  · obtain ⟨process, hmember, hversion⟩ := safe.reached
    obtain ⟨changed, hchanged, hevolves⟩ :=
      ((stepped_of_next step).processes sane).process sane hmember
    exact ⟨changed, hchanged, Nat.le_trans hversion hevolves.version_le⟩

private theorem published_reached {network after : Network} {label : Label} {pub : Publication}
    (published : publication network label = some pub)
    (step : Gossip.next network label = some after) :
    ∃ process, after.processes[pub.node]? = some process ∧
      pub.version ≤ process.node.sync.version := by
  have hset {index : Nat} {process changed : Process}
      (member : network.processes[index]? = some process) :
      (network.processes.set index changed)[index]? = some changed :=
    List.getElem?_set_self (List.getElem?_eq_some_iff.mp member).1
  cases stepped_of_next step with
  | welcome member _ _ _ _ =>
      rw [publication_welcome member] at published
      cases published
      exact ⟨_, hset member, Nat.le_refl _⟩
  | publishOwn member edited _ =>
      rw [publication_own member edited] at published
      cases published
      exact ⟨_, hset member, Nat.le_refl _⟩
  | _ => cases published

theorem publication_safe {network after : Network} {label : Label} {pub : Publication}
    (sane : Sane network) (published : publication network label = some pub)
    (ahead : pub.ahead network = true) (step : next network label = some after) :
    pub.Safe after := by
  have hgood : GoodFrom pub.version (fun peers => pub.recordedIn peers = true)
      network.held := by
    intro pair hpair hfloor
    have hahead := List.all_eq_true.mp ahead pair hpair
    rw [Bool.or_eq_true, decide_eq_true_eq] at hahead
    exact hahead.resolve_left (Nat.not_lt_of_le hfloor)
  refine ⟨?_, published_reached published step⟩
  cases effect_of_next sane step with
  | copied sub => exact hgood.copy sub
  | started joins _ _ =>
      subst joins
      cases published
  | wrote _ _ _ write sub =>
      refine hgood.write (fun _ => ?_) sub
      cases write with
      | published hpublished _ =>
          rw [published] at hpublished
          cases hpublished
          exact recordedIn_set_self pub _
      | _ => cases published
  | stale notice _ _ =>
      cases label with
      | deliver _ => cases published
      | _ => cases notice

theorem publication_version_pos {network : Network} {label : Label} {pub : Publication}
    (published : publication network label = some pub) : 0 < pub.version := by
  cases label with
  | welcome index joiner =>
      obtain ⟨process, _, h⟩ := Option.bind_eq_some_iff.mp published
      cases h
      exact Nat.succ_pos _
  | publishOwn index edit =>
      obtain ⟨process, _, h⟩ := Option.bind_eq_some_iff.mp published
      obtain ⟨state, _, h⟩ := Option.bind_eq_some_iff.mp h
      cases h
      exact Nat.succ_pos _
  | _ => cases published

theorem published_record_kept (config : Config) (before after last : Network) (label : Label)
    (pub : Publication) (start : Run next always (Network.create config) before)
    (published : publication before label = some pub) (ahead : pub.ahead before = true)
    (step : next before label = some after)
    (run : Run next (fun network label => pub.untouched network label = true ∧
      pub.undisturbed network label = true) after last) :
    pub.Kept last := by
  have hsane : Sane before := (Sane.create config).run start
  have hsafe := publication_safe hsane published ahead step
  refine Publication.Safe.kept (Run.invariant pub.Safe hsafe ?_ run)
  intro network label next hrun hsafe hok hnext
  exact hsafe.next ((hsane.next step).run hrun) (publication_version_pos published)
    hok.1 hok.2 hnext

def publishedC : Publication :=
  ⟨0, nodeC.ip, ⟨nodeC.ip, nodeC.publicKey, nodeC.publicIp, nodeC.publicPort, .null,
    [nodeC.ip ++ "/32"]⟩, 3⟩

def passedOn : List Label :=
  [.heartbeat 0 nodeB.ip, .send 0 0 (some 1) false, .deliver 2, .welcome 1 nodeD,
    .heartbeat 1 nodeA.ip, .send 1 0 (some 0) false, .deliver 3]

theorem published_record_kept_passedOn :
    publishedC.Kept (scenario (onboarding ++ [.welcome 0 nodeC] ++ passedOn)) := by
  have hstart : replay next (fun _ _ => true) (Network.create nodeA) onboarding =
      some (scenario onboarding) := by decide +kernel
  refine published_record_kept nodeA (scenario onboarding)
    (scenario (onboarding ++ [.welcome 0 nodeC])) _ (.welcome 0 nodeC) publishedC
    (run_of_replay (fun _ _ _ => trivial) hstart) (by decide +kernel) (by decide +kernel)
    (by decide +kernel) ?_
  have hreplay : replay next
      (fun network label => publishedC.untouched network label &&
        publishedC.undisturbed network label)
      (scenario (onboarding ++ [.welcome 0 nodeC])) passedOn =
      some (scenario (onboarding ++ [.welcome 0 nodeC] ++ passedOn)) := by decide +kernel
  exact run_of_replay (fun _ _ h => (Bool.and_eq_true _ _).mp h) hreplay

def passedOver : List Label :=
  [.welcome 1 nodeD, .welcome 1 nodeE, .heartbeat 1 nodeA.ip, .send 1 0 (some 0) false, .deliver 2]

theorem published_record_kept_fails :
    ¬ ∀ (config : Config) (before after last : Network) (label : Label) (pub : Publication),
      Run next always (Network.create config) before → publication before label = some pub →
      next before label = some after →
      Run next (fun network label => pub.untouched network label = true) after last →
      pub.Kept last := by
  intro claimed
  have hstart : replay next (fun _ _ => true) (Network.create nodeA) onboarding =
      some (scenario onboarding) := by decide +kernel
  have hrun : replay next publishedC.untouched (scenario (onboarding ++ [.welcome 0 nodeC]))
      passedOver = some (scenario (onboarding ++ [.welcome 0 nodeC] ++ passedOver)) := by
    decide +kernel
  have hkept := claimed nodeA (scenario onboarding) (scenario (onboarding ++ [.welcome 0 nodeC])) _
    (.welcome 0 nodeC) publishedC (run_of_replay (fun _ _ _ => trivial) hstart)
    (by decide +kernel) (by decide +kernel) (run_of_replay (fun _ _ h => h) hrun)
  have hlost : (scenario (onboarding ++ [.welcome 0 nodeC] ++ passedOver)).processes[0]?.any
      (fun process => process.phase ≠ .stopped &&
        !publishedC.recordedIn process.node.sync.peers) = true := by decide +kernel
  obtain ⟨process, hmember, hprocess⟩ := (Option.any_eq_true _ _).mp hlost
  rw [Bool.and_eq_true, decide_eq_true_eq, Bool.not_eq_true'] at hprocess
  rw [hkept process hmember hprocess.1] at hprocess
  cases hprocess.2

end WgBp.Gossip
