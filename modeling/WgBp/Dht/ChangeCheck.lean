import WgBp.Dht.Node
import WgBp.Library.Transition

/-! Change detection by counters. A publication raises the stored counter and the
publisher's own value by one each, so a node stays at least as far behind as it
has foreign changes to see, until a pass brings it level. -/
namespace WgBp.Dht.ChangeCheck

open WgBp.Library WgBp.Library.Procedure WgBp.Library.Resumption WgBp.Library.Transition WgBp.Model

variable {n : Nat}

inductive Phase where
  | absent
  | running
  | exited
  deriving DecidableEq

/-- `unseen` is a ghost: how often other nodes have published or exited since the
last pass the node completed, or since its start. -/
structure Member where
  node : DhtNode
  phase : Phase
  unseen : Nat
  deriving DecidableEq

structure Network (n : Nat) where
  store : Store
  members : Fin n → Member

/-- `edit` is whatever else happens to the node's `State` between two calls. -/
inductive Event (n : Nat) where
  | start (member : Fin n) (state : State)
  | edit (member : Fin n) (state : State)
  | publish (member : Fin n) (change : Change)
  | exit (member : Fin n)
  | trigger (member : Fin n) (depth : Nat)

def Network.site (network : Network n) (index : Fin n) : Site :=
  ⟨network.store, (network.members index).node⟩

/-- One member runs a call from end to end; `foreign` tells whether the others
have to see it. -/
def Network.call (network : Network n) (index : Fin n) (program : Program Unit) (phase : Phase)
    (foreign : Bool) : Network n :=
  let member := network.members index
  let result := (program.run handle).run (network.site index)
  let after := final result
  { store := after.store
    members := fun other =>
      if other = index then
        { node := after.node
          phase := phase
          unseen := if after.node.sync.passes = member.node.sync.passes then member.unseen else 0 }
      else
        let bystander := network.members other
        if foreign ∧ returned result then { bystander with unseen := bystander.unseen + 1 }
        else bystander }

def Network.put (network : Network n) (index : Fin n) (member : Member) : Network n :=
  { network with members := Function.update network.members index member }

def started (state : State) : Member := ⟨⟨state, ⟨-1, 0⟩⟩, .running, 0⟩

def created (creator : Fin n) (state : State) : Network n :=
  let empty : Network n := ⟨⟨none, none, ∅⟩, fun index =>
    if index = creator then started state else { started state with phase := .absent }⟩
  empty.call creator (createStore state) .running false

def next (network : Network n) : Event n → Option (Network n)
  | .start index state =>
    if (network.members index).phase = .absent then
      some ((network.put index (started state)).call index (announce state) .running false)
    else none
  | .edit index state =>
    let member := network.members index
    if member.phase = .running then
      some (network.put index { member with node := { member.node with state } })
    else none
  | .publish index change =>
    if (network.members index).phase = .running then
      some (network.call index (publishChange change) .running true)
    else none
  | .exit index =>
    if (network.members index).phase = .running then
      some (network.call index (exitSync (network.members index).node.state.ip) .exited true)
    else none
  | .trigger index depth =>
    if (network.members index).phase = .running then
      some (network.call index (checkForChangeTrigger depth) .running false)
    else none

structure At (counter : Int) (keys : List Ip) (sync : SyncDHT) (site : Site) : Prop where
  stored : site.store.changeCheck = some counter
  listed : site.store.keyList = some keys
  own : site.node.sync = sync

variable {counter : Int} {keys : List Ip} {sync : SyncDHT} {site : Site}

theorem run_createStore (state : State) (peers : Dict Ip (Option PeerRecord)) (node : DhtNode) :
    ∃ after, ((createStore state).run handle).run ⟨⟨none, none, peers⟩, node⟩ = .ok () after ∧
      At 0 [state.ip] node.sync after := ⟨_, rfl, rfl, rfl, rfl⟩

theorem run_announce (at_ : At counter keys sync site) (state : State) :
    ∃ after, ((announce state).run handle).run site = .ok () after ∧ At counter keys sync after :=
  ⟨_, rfl, at_.stored, at_.listed, at_.own⟩

theorem run_publishChange (at_ : At counter keys sync site) (change : Change) :
    ∃ keys' after, ((publishChange change).run handle).run site = .ok () after ∧
      At (counter + 1) keys'
        { sync with currentChangeCheckValue := sync.currentChangeCheckValue + 1 } after := by
  obtain ⟨⟨changeCheck, keyList, peers⟩, ⟨state, sync'⟩⟩ := site
  obtain ⟨rfl, rfl, rfl⟩ := at_
  exact ⟨_, _, rfl, rfl, rfl, rfl⟩

theorem run_exitSync (at_ : At counter keys sync site) (virtualIp : Ip) :
    ∃ after, ((exitSync virtualIp).run handle).run site = .ok () after ∧
      At (counter + 1) keys sync after := by
  obtain ⟨⟨changeCheck, keyList, peers⟩, node⟩ := site
  obtain ⟨rfl, rfl, rfl⟩ := at_
  exact ⟨_, rfl, rfl, rfl, rfl⟩

private def loopMonitor : Monitor Op Op.Answer Unit where
  allowed _ op :=
    match op with
    | .getPeer _ => True
    | .checkKey _ _ _ => True
    | _ => False
  after _ _ _ := ()

private theorem loop_keeps (counter : Int) (keys : List Ip) (sync : SyncDHT) (entries : List Ip) :
    Keeps (At counter keys sync)
      ((entries.foldlM checkEntry none : Program (Option PeerInfo)).run handle) := by
  have hloop : Obeys loopMonitor (fun _ _ => True) ()
      (entries.foldlM checkEntry none : Program (Option PeerInfo)) := by
    refine Obeys.foldlM entries ?_ trivial
    intro _ existingPeer key _
    exact ⟨trivial, fun _ => ⟨trivial, fun _ => trivial⟩⟩
  refine hloop.keeps ?_
  intro _ op hallowed site hat
  cases op with
  | getPeer key => exact hat
  | checkKey key peerInfo existingPeer =>
      change At counter keys sync (final ((onNode (onState _)).run site))
      unfold onNode onState
      rw [final_onPart, final_onPart]
      exact ⟨hat.stored, hat.listed, hat.own⟩
  | _ => exact hallowed.elim

theorem run_checkForChanges (at_ : At counter keys sync site) :
    match (checkForChanges.run handle).run site with
    | .ok _ after => At counter keys { sync with passes := sync.passes + 1 } after
    | .error _ after => At counter keys sync after := by
  obtain ⟨⟨changeCheck, keyList, peers⟩, ⟨state, sync'⟩⟩ := site
  obtain ⟨rfl, rfl, rfl⟩ := at_
  by_cases hlocked : state.locked = true
  · rw [run_checkForChanges_held _ sync' hlocked]
    exact ⟨rfl, rfl, rfl⟩
  · have hfree : state.locked = false := by simpa using hlocked
    rw [run_checkForChanges_free rfl sync' hfree, Resumption.run_bind, EStateM.run_bind]
    have hkept := loop_keeps counter keys sync' keys
      ⟨⟨some counter, some keys, peers⟩, ⟨{ state with locked := true }, sync'⟩⟩ ⟨rfl, rfl, rfl⟩
    cases hloop : ((keys.foldlM checkEntry none : Program (Option PeerInfo)).run handle).run
        ⟨⟨some counter, some keys, peers⟩, ⟨{ state with locked := true }, sync'⟩⟩ with
    | error error after =>
        rw [hloop] at hkept
        exact hkept
    | ok value after =>
        rw [hloop] at hkept
        obtain ⟨hcounter, hkeys, hsync⟩ := hkept
        exact ⟨hcounter, hkeys, by rw [← hsync]; rfl⟩

def passAndCatchUp (counter : Int) : Program Unit := do
  checkForChanges
  access (.setCurrent counter)

theorem run_checkForChangeTrigger (at_ : At counter keys sync site)
    (behind : sync.currentChangeCheckValue ≤ counter) (depth : Nat) :
    ((checkForChangeTrigger (depth + 1)).run handle).run site =
      if sync.currentChangeCheckValue = counter then .ok () site
      else ((passAndCatchUp counter).run handle).run site := by
  obtain ⟨⟨changeCheck, keyList, peers⟩, ⟨state, sync'⟩⟩ := site
  obtain ⟨rfl, rfl, rfl⟩ := at_
  have hread : ((checkForChangeTrigger (depth + 1)).run handle).run
      ⟨⟨some counter, some keys, peers⟩, ⟨state, sync'⟩⟩ =
        ((if some counter = some sync'.currentChangeCheckValue then pure ()
          else if counter < sync'.currentChangeCheckValue then do
            access (.setCurrent (-1))
            checkForChangeTrigger depth
          else passAndCatchUp counter : Program Unit).run handle).run
            ⟨⟨some counter, some keys, peers⟩, ⟨state, sync'⟩⟩ := rfl
  rw [hread]
  by_cases hlevel : sync'.currentChangeCheckValue = counter
  · rw [if_pos hlevel, if_pos (by rw [hlevel])]
    rfl
  · have hnot : ¬(some counter = some sync'.currentChangeCheckValue) :=
      fun h => hlevel (Option.some.inj h).symm
    rw [if_neg hlevel, if_neg hnot, if_neg (Int.not_lt.mpr behind)]

theorem final_checkForChangeTrigger (at_ : At counter keys sync site)
    (behind : sync.currentChangeCheckValue ≤ counter) (depth : Nat) :
    ∃ sync', At counter keys sync' (final (((checkForChangeTrigger depth).run handle).run site)) ∧
      (sync' = sync ∨ sync' = ⟨counter, sync.passes + 1⟩) := by
  cases depth with
  | zero => exact ⟨sync, at_, .inl rfl⟩
  | succ depth =>
      rw [run_checkForChangeTrigger at_ behind]
      split
      · exact ⟨sync, at_, .inl rfl⟩
      · have hpass := run_checkForChanges at_
        unfold passAndCatchUp
        rw [Resumption.run_bind, EStateM.run_bind]
        cases hrun : (checkForChanges.run handle).run site with
        | error error after =>
            rw [hrun] at hpass
            exact ⟨sync, hpass, .inl rfl⟩
        | ok value after =>
            rw [hrun] at hpass
            obtain ⟨hcounter, hkeys, hsync⟩ := hpass
            refine ⟨_, ⟨hcounter, hkeys, ?_⟩, .inr rfl⟩
            change { after.node.sync with currentChangeCheckValue := counter } = _
            rw [hsync]

/-- Nobody is ahead of the stored counter, and each node is at least as far behind
it as it has foreign changes to see. -/
structure Counts (counter : Int) (keys : List Ip) (network : Network n) : Prop where
  stored : network.store.changeCheck = some counter
  listed : network.store.keyList = some keys
  positive : 0 ≤ counter
  behind : ∀ index, (network.members index).phase ≠ .absent →
    (network.members index).node.sync.currentChangeCheckValue +
      (network.members index).unseen ≤ counter

variable {network : Network n} {index : Fin n}

theorem Counts.at_ (counts : Counts counter keys network) (index : Fin n) :
    At counter keys (network.members index).node.sync (network.site index) :=
  ⟨counts.stored, counts.listed, rfl⟩

theorem Counts.behind_of_running (counts : Counts counter keys network)
    (running : (network.members index).phase = .running) :
    (network.members index).node.sync.currentChangeCheckValue +
      (network.members index).unseen ≤ counter := by
  refine counts.behind index ?_
  rw [running]
  simp

theorem Counts.call (counts : Counts counter keys network) {program : Program Unit}
    {phase : Phase} {foreign : Bool} {counter' : Int} {keys' : List Ip} {sync' : SyncDHT}
    (result : At counter' keys' sync' (final ((program.run handle).run (network.site index))))
    (grows : counter ≤ counter') (told : foreign = true → counter' = counter + 1)
    (own : sync'.currentChangeCheckValue +
      (if sync'.passes = (network.members index).node.sync.passes then
        (network.members index).unseen else 0 : Nat) ≤ counter') :
    Counts counter' keys' (network.call index program phase foreign) := by
  refine ⟨result.stored, result.listed, Int.le_trans counts.positive grows, ?_⟩
  intro other hphase
  unfold Network.call at hphase ⊢
  dsimp only at hphase ⊢
  by_cases h : other = index
  · rw [if_pos h, result.own]
    exact own
  · rw [if_neg h] at hphase ⊢
    split
    · rename_i hforeign
      rw [if_pos hforeign] at hphase
      have hbehind := counts.behind other hphase
      have htold := told hforeign.1
      dsimp only
      push_cast
      omega
    · rename_i hforeign
      rw [if_neg hforeign] at hphase
      exact Int.le_trans (counts.behind other hphase) grows

theorem Counts.put (counts : Counts counter keys network) (member : Member)
    (behind : member.node.sync.currentChangeCheckValue + member.unseen ≤ counter) :
    Counts counter keys (network.put index member) := by
  refine ⟨counts.stored, counts.listed, counts.positive, ?_⟩
  intro other hphase
  unfold Network.put at hphase ⊢
  dsimp only at hphase ⊢
  by_cases h : other = index
  · subst h
    rw [Function.update_self]
    exact behind
  · rw [Function.update_of_ne h] at hphase ⊢
    exact counts.behind other hphase

theorem counts_next {after : Network n} {event : Event n} (counts : Counts counter keys network)
    (step : next network event = some after) : ∃ counter keys, Counts counter keys after := by
  have hpositive := counts.positive
  cases event with
  | start index state =>
      simp only [next] at step
      split at step
      · cases step
        have hput : Counts counter keys (network.put index (started state)) :=
          counts.put (started state) (by simp only [started]; omega)
        obtain ⟨site, hrun, hat⟩ := run_announce (hput.at_ index) state
        have hbehind : (-1 : Int) + (0 : Nat) ≤ counter := by omega
        refine ⟨counter, keys, hput.call (by rw [hrun]; exact hat) (Int.le_refl _) (by simp) ?_⟩
        simpa [Network.put, started] using hbehind
      · cases step
  | edit index state =>
      simp only [next] at step
      split at step
      · rename_i hrunning
        cases step
        exact ⟨counter, keys, counts.put _ (counts.behind_of_running hrunning)⟩
      · cases step
  | publish index change =>
      simp only [next] at step
      split at step
      · rename_i hrunning
        cases step
        have hbehind := counts.behind_of_running hrunning
        obtain ⟨keys', site, hrun, hat⟩ := run_publishChange (counts.at_ index) change
        refine ⟨counter + 1, keys', counts.call (by rw [hrun]; exact hat) (by omega)
          (fun _ => rfl) ?_⟩
        rw [if_pos rfl]
        dsimp only
        omega
      · cases step
  | exit index =>
      simp only [next] at step
      split at step
      · rename_i hrunning
        cases step
        have hbehind := counts.behind_of_running hrunning
        obtain ⟨site, hrun, hat⟩ := run_exitSync (counts.at_ index)
          (network.members index).node.state.ip
        refine ⟨counter + 1, keys, counts.call (by rw [hrun]; exact hat) (by omega)
          (fun _ => rfl) ?_⟩
        rw [if_pos rfl]
        omega
      · cases step
  | trigger index depth =>
      simp only [next] at step
      split at step
      · rename_i hrunning
        cases step
        have hbehind := counts.behind_of_running hrunning
        obtain ⟨sync', hat, hsync⟩ := final_checkForChangeTrigger (counts.at_ index)
          (by omega) depth
        refine ⟨counter, keys, counts.call hat (Int.le_refl _) (by simp) ?_⟩
        rcases hsync with rfl | rfl
        · rw [if_pos rfl]
          exact hbehind
        · simp
      · cases step

theorem counts_created (creator : Fin n) (state : State) :
    Counts 0 [state.ip] (created creator state) := by
  refine ⟨rfl, rfl, Int.le_refl 0, ?_⟩
  intro index hphase
  unfold created Network.call at hphase ⊢
  dsimp only at hphase ⊢
  by_cases h : index = creator
  · subst h
    obtain ⟨site, hrun, hat⟩ := run_createStore state ∅ ⟨state, ⟨-1, 0⟩⟩
    simp only [Network.site, started, if_true, hrun, final_ok, hat.own]
    decide
  · simp [h] at hphase

/-- The value of a node is not ahead of the stored counter, so a trigger either
finds nothing or runs a pass, and while there is something foreign to see the two
differ. -/
structure Detects (network : Network n) (counter : Int) (index : Fin n) : Prop where
  le : (network.members index).node.sync.currentChangeCheckValue ≤ counter
  differs : 0 < (network.members index).unseen →
    (network.members index).node.sync.currentChangeCheckValue ≠ counter
  triggers : ∀ depth, ((checkForChangeTrigger (depth + 1)).run handle).run (network.site index) =
    if (network.members index).node.sync.currentChangeCheckValue = counter then
      .ok () (network.site index)
    else ((passAndCatchUp counter).run handle).run (network.site index)

theorem change_detection_complete (creator : Fin n) (state : State) (network : Network n)
    (run : Run next always (created creator state) network) :
    ∃ counter, network.store.changeCheck = some counter ∧
      ∀ index, (network.members index).phase ≠ .absent → Detects network counter index := by
  have hcounts := Run.invariant (fun network : Network n => ∃ counter keys,
    Counts counter keys network) ⟨0, [state.ip], counts_created creator state⟩
    (fun _ _ _ _ ⟨counter, keys, counts⟩ _ step => counts_next counts step) run
  obtain ⟨counter, keys, counts⟩ := hcounts
  refine ⟨counter, counts.stored, ?_⟩
  intro index hphase
  have hbehind := counts.behind index hphase
  exact ⟨by omega, fun hunseen => by omega,
    fun depth => run_checkForChangeTrigger (counts.at_ index) (by omega) depth⟩

def creatorState : State := .new "10.0.0.1" "ka" "198.51.100.1" 51820
def joinerState : State := .new "10.0.0.2" "kb" "198.51.100.2" 51820
def joinerChange : Change := ⟨"10.0.0.2", "kb", "198.51.100.2", 51820, none, some 6881⟩

theorem change_detection_complete_unseen :
    ∃ network : Network 2, (network.members 1).unseen = 1 ∧
      (network.members 0).node.sync = ⟨1, 1⟩ ∧ (network.members 1).node.sync = ⟨-1, 0⟩ ∧
      ∃ counter, network.store.changeCheck = some counter ∧
        ∀ index, (network.members index).phase ≠ .absent → Detects network counter index := by
  have hreplay : (replay next (fun _ _ => true) (created 0 creatorState : Network 2)
      [.start 1 joinerState,
        .edit 0 (creatorState.addPeer "10.0.0.2" "kb" "198.51.100.2" 51820),
        .publish 0 joinerChange, .trigger 0 8]).any (fun network =>
          (network.members 1).unseen = 1 ∧ (network.members 0).node.sync = ⟨1, 1⟩ ∧
            (network.members 1).node.sync = ⟨-1, 0⟩) = true := by
    decide +kernel
  obtain ⟨network, hrun, hfound⟩ := reached_of_replay (fun _ _ _ => trivial) hreplay
  obtain ⟨hunseen, hfirst, hsecond⟩ := of_decide_eq_true hfound
  exact ⟨network, hunseen, hfirst, hsecond,
    change_detection_complete 0 creatorState network hrun⟩

end WgBp.Dht.ChangeCheck
