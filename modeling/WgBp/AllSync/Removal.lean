import WgBp.AllSync.Checks
import WgBp.Library.Transition

/-! Removals in ALL mode. `remove_peer` counts requests without asking who makes
them, so a deletion stands for the agreement of all modules only as long as no
module checks again while a request of its own is still counted. -/
namespace WgBp.AllSync

open WgBp.Library WgBp.Library.Procedure WgBp.Library.Ballot WgBp.Library.Transition WgBp.Model

variable {n : Nat}

/-- What a module goes by in one check: its map, or for `SyncDHT` the store. -/
inductive View where
  | gossip (peers : PeerMap)
  | mq (sync : Mq.MessageQueueSync)
  | dht (store : Dht.Store) (sync : Dht.SyncDHT)

def View.check (view : View) (state : State) : State :=
  match view with
  | .gossip peers => final ((Gossip.checkForChanges peers).run state)
  | .mq sync => (final (Mq.checkForChanges.run ⟨state, sync⟩)).state
  | .dht store sync =>
    (final ((Dht.checkForChanges.run Dht.handle).run ⟨store, ⟨state, sync⟩⟩)).node.state

/-- The shared `State`, and as ghosts what each module asked for in its most
recent check and which of its requests are still counted. -/
structure World (n : Nat) where
  state : State
  asked : Fin n → List Ip
  counted : Fin n → List Ip

/-- A module may come with any view, whatever it went by before. -/
inductive Label (n : Nat) where
  | check (module : Fin n) (view : View)
  | addPeer (change : Change)

/-- The logs of requests and deletions start anew with every check. -/
def cleared (state : State) : State := { state with removeCalls := [], deletions := [] }

def World.start (n : Nat) (state : State) : World n :=
  ⟨cleared (state.enableAllSyncMode n), fun _ => [], fun _ => []⟩

def World.box (world : World n) : Box (Fin n) Ip := ⟨world.state.allDeletedCnt, world.counted⟩

def next (world : World n) : Label n → Option (World n)
  | .check index view =>
    let state := view.check (cleared world.state)
    some {
      state := state
      asked := Function.update world.asked index state.removeCalls
      counted := (world.box.voteAll world.state.allSyncMode index state.removeCalls).cast }
  | .addPeer change => some { world with
      state := world.state.addPeer change.virtualIp change.publicKey change.endpointIp
        change.endpointPort }

def View.distinct : View → Bool
  | .dht store _ => decide (store.keyList.getD []).Nodup
  | _ => true

def settledFirst (world : World n) : Label n → Bool
  | .check index view => world.counted index = [] && view.distinct
  | .addPeer _ => true

/-- Whatever the last check deleted, every module asked for it when it last checked. -/
def Agreed (world : World n) : Prop :=
  ∀ ip ∈ world.state.deletions, ∀ index, ip ∈ world.asked index

instance (world : World n) : Decidable (Agreed world) :=
  inferInstanceAs (Decidable (∀ ip ∈ world.state.deletions, ∀ index, ip ∈ world.asked index))

theorem asks_view {view : View} (distinct : view.distinct = true) {state : State}
    (mode : state.allSyncMode ≠ 0) :
    ∃ requests, requests.Nodup ∧ Voted state (view.check state) requests := by
  cases view with
  | gossip peers => exact asks_gossip peers state mode
  | mq sync => exact asks_mq ⟨state, sync⟩ mode
  | dht store sync =>
      refine asks_dht ⟨store, ⟨state, sync⟩⟩ mode ?_
      intro keys hkeys
      dsimp only at hkeys
      simpa [View.distinct, hkeys] using distinct

/-- The counters stand for distinct modules, each with a request of its last check. -/
structure Counting (world : World n) : Prop where
  mode : world.state.allSyncMode = n
  fair : Fair world.box
  recent : ∀ index, ∀ ip ∈ world.counted index, ip ∈ world.asked index
  agreed : Agreed world

theorem Counting.check {world : World n} (counting : Counting world) {index : Fin n} {view : View}
    (ok : settledFirst world (.check index view) = true) {after : World n}
    (step : next world (.check index view) = some after) : Counting after := by
  obtain ⟨hnone, hdistinct⟩ := (Bool.and_eq_true _ _).mp ok
  have hcounted : world.counted index = [] := of_decide_eq_true hnone
  have hmode : (cleared world.state).allSyncMode ≠ 0 := by
    have hpositive : 0 < n := index.pos
    rw [show (cleared world.state).allSyncMode = n from counting.mode]
    omega
  obtain ⟨requests, hnodup, hvoted⟩ := asks_view hdistinct hmode
  have hcalls : (view.check (cleared world.state)).removeCalls = requests := hvoted.calls
  have hnew : ∀ ip ∈ requests, ip ∉ world.box.cast index := by
    intro ip _
    rw [show world.box.cast index = [] from hcounted]
    exact List.not_mem_nil
  cases step
  rw [hcalls]
  refine ⟨hvoted.mode.trans counting.mode, ?_, ?_, ?_⟩
  · have hfair : Fair (world.box.voteAll world.state.allSyncMode index requests) :=
      counting.fair.voteAll hnodup hnew
    have hcounts : (view.check (cleared world.state)).allDeletedCnt =
        (world.box.voteAll world.state.allSyncMode index requests).counts :=
      hvoted.counts.trans (counts_voteAll world.box index requests).symm
    unfold World.box
    dsimp only
    rw [hcounts]
    exact hfair
  · intro other ip hip
    dsimp only at hip ⊢
    rcases mem_cast_voteAll world.box index other requests hip with h | ⟨rfl, h⟩
    · by_cases hother : other = index
      · subst hother
        rw [show world.box.cast other = [] from hcounted] at h
        cases h
      · rw [Function.update_of_ne hother]
        exact counting.recent other ip h
    · rwa [Function.update_self]
  · intro ip hip other
    rcases hvoted.deletions ip hip with h | ⟨earlier, later, hsplit, hdecided⟩
    · cases h
    · subst hsplit
      dsimp only
      by_cases hother : other = index
      · subst hother
        rw [Function.update_self]
        simp
      · rw [Function.update_of_ne hother]
        have hall : Fintype.card (Fin n) ≤ world.state.allSyncMode := by
          rw [counting.mode, Fintype.card_fin]
        refine counting.recent other ip (counting.fair.decided hnodup hnew hall ?_ hother)
        rw [counts_voteAll]
        exact hdecided

theorem counting_next {world after : World n} {label : Label n} (counting : Counting world)
    (ok : settledFirst world label = true) (step : next world label = some after) :
    Counting after := by
  cases label with
  | check index view => exact counting.check ok step
  | addPeer change =>
      cases step
      have hvoted := voted_addPeer world.state change.virtualIp change.publicKey change.endpointIp
        change.endpointPort
      refine ⟨hvoted.mode.trans counting.mode, ?_, counting.recent, ?_⟩
      · unfold World.box
        dsimp only
        rw [hvoted.counts]
        exact counting.fair
      · intro ip hip
        rcases hvoted.deletions ip hip with h | ⟨earlier, later, hsplit, -⟩
        · exact counting.agreed ip h
        · simp at hsplit

theorem counting_start (n : Nat) (state : State) : Counting (World.start n state) where
  mode := rfl
  fair := by
    intro ip
    simp [World.start, World.box, cleared, State.enableAllSyncMode, votes, askers]
  recent := fun _ _ h => h
  agreed := fun _ h => absurd h List.not_mem_nil

theorem removal_by_agreement (n : Nat) (state : State) (world : World n)
    (run : Run next (fun world label => settledFirst world label = true) (World.start n state)
      world) : Agreed world :=
  (Run.invariant Counting (counting_start n state)
    (fun _ _ _ _ counting ok step => counting_next counting ok step) run).agreed

/-! A node with the three modules and one peer. -/

def ownState : State := .new "10.0.0.1" "ka" "198.51.100.1" 51820
def peerChange : Change := ⟨"10.0.0.2", "kb", "198.51.100.2", 51820, none, some 5555⟩

def ownEntry : PeerRecord :=
  ⟨"10.0.0.1", "ka", "198.51.100.1", 51820, .port 5555, ["10.0.0.1/32"]⟩
def peerEntry : PeerRecord :=
  ⟨"10.0.0.2", "kb", "198.51.100.2", 51820, .port 5555, ["10.0.0.2/32"]⟩

def ownMap : PeerMap := Dict.set ∅ "10.0.0.1" ownEntry
def bothMap : PeerMap := ownMap.set "10.0.0.2" peerEntry

def mqView (peers : PeerMap) : View := .mq ⟨5555, 3, peers, true, [⟨"10.0.0.2", 5555⟩], []⟩

def dhtView (record : Option PeerRecord) : View :=
  .dht ⟨some 2, some ["10.0.0.1", "10.0.0.2"],
    (Dict.set ∅ "10.0.0.1" (some { ownEntry with syncPort := .missing })).set "10.0.0.2" record⟩
    ⟨1, 1⟩

theorem removal_by_agreement_unanimous :
    ∃ world : World 3, world.state.deletions = ["10.0.0.2"] ∧ Agreed world := by
  have hreplay : (replay next settledFirst (World.start 3 ownState)
      [.addPeer peerChange, .check 0 (dhtView none), .check 1 (.gossip ownMap),
        .check 2 (mqView ownMap)]).any
      (fun world => world.state.deletions = ["10.0.0.2"]) = true := by decide +kernel
  obtain ⟨world, hrun, hdeleted⟩ := reached_of_replay (fun _ _ h => h) hreplay
  exact ⟨world, of_decide_eq_true hdeleted, removal_by_agreement 3 ownState world hrun⟩

theorem removal_by_agreement_fails :
    ¬ ∀ (n : Nat) (state : State) (world : World n),
      Run next always (World.start n state) world → Agreed world := by
  intro claimed
  have hreplay : (replay next (fun _ _ => true) (World.start 3 ownState)
      [.addPeer peerChange, .check 0 (dhtView (some { peerEntry with syncPort := .missing })),
        .check 2 (mqView bothMap), .check 1 (.gossip ownMap), .check 1 (.gossip ownMap),
        .check 1 (.gossip ownMap)]).any (fun world => ¬ Agreed world) = true := by
    decide +kernel
  obtain ⟨world, hrun, hfound⟩ := reached_of_replay (fun _ _ _ => trivial) hreplay
  exact of_decide_eq_true hfound (claimed 3 ownState world hrun)

end WgBp.AllSync
