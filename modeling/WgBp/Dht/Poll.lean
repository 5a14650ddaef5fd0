import WgBp.Dht.ChangeCheck
import WgBp.Dht.Pass

/-! A poll of the store by `_checkForChangeTrigger`: when it comes to its end. A pass
fails on the first unknown peer unless a known one has come up before it, and
then leaves the lock behind. -/
namespace WgBp.Dht

open WgBp.Library WgBp.Library.Procedure WgBp.Library.Resumption WgBp.Model
open WgBp.Dht.ChangeCheck (passAndCatchUp)

/-- Whether the loop over the key list gets through: `existing_peer` has to be bound, by
the record of a peer the State has, before a record of a new peer comes up. -/
def binds (store : Store) : State → List Ip → Bool
  | _, [] => true
  | state, key :: rest =>
    match store.stored key with
    | none => binds store (if key ∈ state.peers then state.removePeer key else state) rest
    | some info =>
      info.virtualIp ∈ state.peers || (info.virtualIp = state.ip && binds store state rest)

@[simp] theorem checkKeys_bound (store : Store) (keys : List Ip) (earlier : PeerInfo)
    (state : State) :
    returned ((checkKeys store keys (some earlier)).run state) = true := by
  induction keys generalizing earlier state with
  | nil => rfl
  | cons key rest ih =>
      rw [checkKeys_cons, EStateM.run_bind]
      cases hstored : store.stored key with
      | none =>
          rw [run_checkKey_null]
          exact ih earlier _
      | some info =>
          cases hfound : state.peers.lookup info.virtualIp with
          | some existing =>
              rw [run_checkKey_known _ _ hfound]
              exact ih _ _
          | none =>
              by_cases hown : info.virtualIp = state.ip
              · rw [run_checkKey_own _ _ hfound hown]
                exact ih earlier state
              · obtain ⟨after, hrun, -⟩ := run_checkKey_new key earlier hfound hown
                rw [hrun]
                exact ih earlier after

@[simp] theorem returned_checkKeys (store : Store) (keys : List Ip) (state : State) :
    returned ((checkKeys store keys none).run state) = binds store state keys := by
  induction keys generalizing state with
  | nil => rfl
  | cons key rest ih =>
      rw [checkKeys_cons, EStateM.run_bind, binds]
      cases hstored : store.stored key with
      | none =>
          rw [run_checkKey_null]
          exact ih _
      | some info =>
          cases hfound : state.peers.lookup info.virtualIp with
          | some existing =>
              have hknown : info.virtualIp ∈ state.peers := Dict.mem_of_lookup hfound
              rw [run_checkKey_known _ _ hfound]
              simp [hknown, checkKeys_bound]
          | none =>
              have hunknown : info.virtualIp ∉ state.peers := AList.lookup_eq_none.mp hfound
              by_cases hown : info.virtualIp = state.ip
              · have hself : state.ip ∉ state.peers := hown ▸ hunknown
                rw [run_checkKey_own _ _ hfound hown]
                simpa [hself, hown] using ih state
              · rw [run_checkKey_unbound _ hfound hown]
                simp [hunknown, hown, returned]

private theorem removePeer_locked (state : State) (peerVirtualIp : Ip) (locked : Bool) :
    ({ state with locked } : State).removePeer peerVirtualIp =
      { state.removePeer peerVirtualIp with locked } := by
  unfold State.removePeer State.deletePeer
  dsimp only
  by_cases hmode : state.allSyncMode ≠ 0
  · rw [if_pos hmode, if_pos hmode]
    split
    · rfl
    · cases state.peers.lookup peerVirtualIp <;> rfl
  · rw [if_neg hmode, if_neg hmode]
    cases state.peers.lookup peerVirtualIp <;> rfl

theorem binds_locked (store : Store) (keys : List Ip) (state : State) (locked : Bool) :
    binds store { state with locked } keys = binds store state keys := by
  induction keys generalizing state with
  | nil => rfl
  | cons key rest ih =>
      unfold binds
      cases store.stored key with
      | some info => simp only [ih]
      | none =>
          by_cases hknown : key ∈ state.peers
          · simp only [hknown, if_true, removePeer_locked, ih]
          · simp only [hknown, if_false, ih]

def Survives (site : Site) (result : EStateM.Result Halt Site Unit) : Prop :=
  ∃ after, result = .ok () after ∧ after.node.state.locked = false ∧
    after.store.keyList = site.store.keyList

def Site.withCurrent (site : Site) (value : Int) : Site :=
  { site with node := { site.node with sync := { site.node.sync with
      currentChangeCheckValue := value } } }

section

variable {site : Site} {value : Int} (depth : Nat)

theorem run_trigger_unset (unset : site.store.changeCheck = none) :
    ((checkForChangeTrigger (depth + 1)).run handle).run site =
      .error (.raised .typeError) site := by
  obtain ⟨⟨changeCheck, keyList, peers⟩, node⟩ := site
  cases unset
  rfl

private theorem run_trigger_stored (stored : site.store.changeCheck = some value) :
    ((checkForChangeTrigger (depth + 1)).run handle).run site =
      ((if some value = some site.node.sync.currentChangeCheckValue then pure ()
        else if value < site.node.sync.currentChangeCheckValue then do
          access (.setCurrent (-1))
          checkForChangeTrigger depth
        else passAndCatchUp value : Program Unit).run handle).run site := by
  obtain ⟨⟨changeCheck, keyList, peers⟩, node⟩ := site
  cases stored
  rfl

theorem run_trigger_level
    (level : site.store.changeCheck = some site.node.sync.currentChangeCheckValue) :
    ((checkForChangeTrigger (depth + 1)).run handle).run site = .ok () site := by
  rw [run_trigger_stored depth level, if_pos rfl]
  rfl

theorem run_trigger_behind (stored : site.store.changeCheck = some value)
    (behind : value < site.node.sync.currentChangeCheckValue) :
    ((checkForChangeTrigger (depth + 1)).run handle).run site =
      ((checkForChangeTrigger depth).run handle).run (site.withCurrent (-1)) := by
  have hlevel : ¬some value = some site.node.sync.currentChangeCheckValue :=
    fun h => Int.ne_of_lt behind (Option.some.inj h)
  rw [run_trigger_stored depth stored, if_neg hlevel, if_pos behind]
  rfl

theorem run_trigger_ahead (stored : site.store.changeCheck = some value)
    (ahead : site.node.sync.currentChangeCheckValue < value) :
    ((checkForChangeTrigger (depth + 1)).run handle).run site =
      ((passAndCatchUp value).run handle).run site := by
  have hlevel : ¬some value = some site.node.sync.currentChangeCheckValue :=
    fun h => Int.ne_of_gt ahead (Option.some.inj h)
  rw [run_trigger_stored depth stored, if_neg hlevel, if_neg (Int.not_lt.mpr (Int.le_of_lt ahead))]

theorem run_trigger_below (stored : site.store.changeCheck = some value) (below : value < -1)
    (behind : value < site.node.sync.currentChangeCheckValue) :
    ∃ last, ((checkForChangeTrigger depth).run handle).run site =
      .error (.raised .recursionError) last := by
  induction depth generalizing site with
  | zero => exact ⟨site, rfl⟩
  | succ depth ih =>
      rw [run_trigger_behind depth stored behind]
      exact ih stored below

end

def PassesThrough (site : Site) : Prop :=
  ∃ keys, site.store.keyList = some keys ∧ binds site.store site.node.state keys = true

theorem survives_pass (site : Site) (value : Int) :
    Survives site (((passAndCatchUp value).run handle).run site) ↔
      site.node.state.locked = false ∧ PassesThrough site := by
  obtain ⟨store, ⟨state, sync⟩⟩ := site
  unfold Survives PassesThrough
  unfold passAndCatchUp
  rw [Resumption.run_bind, EStateM.run_bind]
  have hset (site : Site) :
      ((access (.setCurrent value)).run handle).run site = .ok () (site.withCurrent value) := rfl
  simp only [hset]
  cases hlocked : state.locked with
  | true =>
      rw [run_checkForChanges_held store sync hlocked]
      simp
  | false =>
      cases hkeys : store.keyList with
      | none =>
          rw [run_checkForChanges_unset hkeys sync hlocked]
          simp
      | some keys =>
          have hreturned := returned_checkKeys store keys { state with locked := true }
          rw [binds_locked] at hreturned
          rw [run_checkForChanges hkeys sync hlocked]
          cases hloop : (checkKeys store keys none).run { state with locked := true } with
          | ok result mid =>
              rw [hloop] at hreturned
              simp [← hreturned, returned, Site.withCurrent, hkeys]
          | error error mid =>
              rw [hloop] at hreturned
              simp [← hreturned, returned]

/-- The counters are level, or become so by a resync alone, or a pass is due that gets
through. -/
def Pollable (site : Site) : Prop :=
  site.node.state.locked = false ∧ ∃ value, site.store.changeCheck = some value ∧
    (value = site.node.sync.currentChangeCheckValue ∨
      (value = -1 ∧ -1 < site.node.sync.currentChangeCheckValue) ∨
      ((site.node.sync.currentChangeCheckValue < value ∨ -1 < value) ∧ PassesThrough site))

private theorem survives_level (site : Site) (depth : Nat)
    (level : site.store.changeCheck = some site.node.sync.currentChangeCheckValue) :
    Survives site (((checkForChangeTrigger (depth + 1)).run handle).run site) ↔
      site.node.state.locked = false := by
  rw [run_trigger_level depth level]
  constructor
  · rintro ⟨after, hafter, hfree, -⟩
    cases hafter
    exact hfree
  · exact fun hfree => ⟨site, rfl, hfree, rfl⟩

theorem poll_survives (site : Site) (depth : Nat) :
    Survives site (((checkForChangeTrigger (depth + 2)).run handle).run site) ↔ Pollable site := by
  unfold Pollable
  cases hstored : site.store.changeCheck with
  | none =>
      rw [run_trigger_unset (depth + 1) hstored]
      simp [Survives]
  | some value =>
      simp only [Option.some.injEq, exists_eq_left']
      rcases Int.lt_trichotomy value site.node.sync.currentChangeCheckValue with
        hbehind | hlevel | hahead
      · rw [run_trigger_behind (depth + 1) hstored hbehind]
        have hresynced : (site.withCurrent (-1)).store.changeCheck = some value := hstored
        rcases Int.lt_trichotomy value (-1) with hbelow | hbottom | habove
        · obtain ⟨last, hrun⟩ := run_trigger_below (depth + 1) hresynced hbelow hbelow
          rw [hrun]
          simp only [Survives, reduceCtorEq, false_and, exists_false, false_iff]
          omega
        · subst hbottom
          refine (survives_level (site.withCurrent (-1)) depth hstored).trans ?_
          simp [Site.withCurrent, hbehind]
        · rw [run_trigger_ahead depth hresynced habove]
          refine (survives_pass (site.withCurrent (-1)) value).trans ?_
          have hnot : ¬value = site.node.sync.currentChangeCheckValue := by omega
          have hnotBottom : ¬(value = -1 ∧ -1 < site.node.sync.currentChangeCheckValue) := by omega
          simp only [hnot, hnotBottom, habove, or_true, true_and, false_or]
          rfl
      · rw [hlevel] at hstored
        rw [survives_level site (depth + 1) hstored]
        simp [hlevel]
      · rw [run_trigger_ahead (depth + 1) hstored hahead]
        refine (survives_pass site value).trans ?_
        have hnot : ¬value = site.node.sync.currentChangeCheckValue := by omega
        have hnotBottom : ¬(value = -1 ∧ -1 < site.node.sync.currentChangeCheckValue) := by omega
        simp only [hnot, hnotBottom, hahead, true_or, true_and, false_or]

/-! A node that has joined through the second peer of the key list. -/

def joinerState : State :=
  (State.new "10.0.0.3" "kc" "198.51.100.3" 51820).addPeer "10.0.0.2" "kb" "198.51.100.2" 51820

def networkStore : Store where
  changeCheck := some 2
  keyList := some ["10.0.0.1", "10.0.0.2", "10.0.0.3"]
  peers := ((Dict.set ∅ "10.0.0.1" (some
      ⟨"10.0.0.1", "ka", "198.51.100.1", 51820, .missing, ["10.0.0.1/32"]⟩)).set "10.0.0.2" (some
      ⟨"10.0.0.2", "kb", "198.51.100.2", 51820, .missing, ["10.0.0.2/32"]⟩)).set "10.0.0.3" (some
      ⟨"10.0.0.3", "kc", "198.51.100.3", 51820, .missing, ["10.0.0.3/32"]⟩)

def firstPoll : Site := ⟨networkStore, ⟨joinerState, ⟨-1, 0⟩⟩⟩

theorem poll_survives_fails :
    ¬ ∀ (site : Site) (depth : Nat), site.node.state.locked = false →
      Survives site (((checkForChangeTrigger (depth + 2)).run handle).run site) := by
  intro claimed
  obtain ⟨after, hafter, -⟩ := claimed firstPoll 0 rfl
  have hraised : returned (((checkForChangeTrigger 2).run handle).run firstPoll) = false := by
    decide +kernel
  rw [hafter] at hraised
  cases hraised

end WgBp.Dht
