import WgBp.Model.Reconcile
import WgBp.Library.Ballot

/-! What a procedure does to the votes on removals: nothing, or a series of
requests on the counters of `remove_peer`. -/
namespace WgBp.Model

open WgBp.Library WgBp.Library.Procedure WgBp.Library.Ballot

/-- From one state to another the given requests have been made, in this order;
what they deleted was decided by one of them. -/
structure Voted (before after : State) (requests : List Ip) : Prop where
  mode : after.allSyncMode = before.allSyncMode
  calls : after.removeCalls = before.removeCalls ++ requests
  counts : after.allDeletedCnt = askAll before.allSyncMode before.allDeletedCnt requests
  deletions : ∀ ip ∈ after.deletions, ip ∈ before.deletions ∨
    ∃ earlier later, requests = earlier ++ ip :: later ∧
      (ask before.allSyncMode (askAll before.allSyncMode before.allDeletedCnt earlier) ip).2 = true

theorem voted_same {before after : State} (mode : after.allSyncMode = before.allSyncMode)
    (calls : after.removeCalls = before.removeCalls)
    (counts : after.allDeletedCnt = before.allDeletedCnt)
    (deletions : after.deletions = before.deletions) : Voted before after [] :=
  ⟨mode, by simp [calls], counts, fun _ h => .inl (deletions ▸ h)⟩

theorem Voted.refl (state : State) : Voted state state [] := voted_same rfl rfl rfl rfl

theorem Voted.trans {first mid last : State} {requests requests' : List Ip}
    (h₁ : Voted first mid requests) (h₂ : Voted mid last requests') :
    Voted first last (requests ++ requests') where
  mode := h₂.mode.trans h₁.mode
  calls := by rw [h₂.calls, h₁.calls, List.append_assoc]
  counts := by rw [h₂.counts, h₁.counts, h₁.mode, askAll_append]
  deletions := by
    intro ip hip
    rcases h₂.deletions ip hip with h | ⟨earlier, later, hsplit, hdecided⟩
    · rcases h₁.deletions ip h with h | ⟨earlier, later, hsplit, hdecided⟩
      · exact .inl h
      · exact .inr ⟨earlier, later ++ requests', by simp [hsplit], hdecided⟩
    · refine .inr ⟨requests ++ earlier, later, by simp [hsplit], ?_⟩
      rwa [askAll_append, ← h₁.counts, ← h₁.mode]

theorem voted_addPeer (state : State) (peerVirtualIp : Ip) (publicKey endpointIp : String)
    (endpointPort : Nat) :
    Voted state (state.addPeer peerVirtualIp publicKey endpointIp endpointPort) [] := by
  unfold State.addPeer
  split
  · exact .refl state
  · exact voted_same rfl rfl rfl rfl

theorem voted_removePeer {state : State} (mode : state.allSyncMode ≠ 0) (peerVirtualIp : Ip) :
    Voted state (state.removePeer peerVirtualIp) [peerVirtualIp] := by
  unfold State.removePeer
  rw [if_pos mode]
  dsimp only
  by_cases hfew : (state.allDeletedCnt.lookup peerVirtualIp).getD 0 + 1 < state.allSyncMode
  · rw [if_pos hfew]
    exact ⟨rfl, rfl, by simp [askAll, ask, votes, hfew], fun _ h => .inl h⟩
  · rw [if_neg hfew]
    have hdecided : (ask state.allSyncMode state.allDeletedCnt peerVirtualIp).2 = true := by
      simp [ask, votes, hfew]
    have hcounts : (state.allDeletedCnt.set peerVirtualIp
        ((state.allDeletedCnt.lookup peerVirtualIp).getD 0 + 1)).erase peerVirtualIp =
          askAll state.allSyncMode state.allDeletedCnt [peerVirtualIp] := by
      simp [askAll, ask, votes, hfew]
    unfold State.deletePeer
    split
    · exact ⟨rfl, rfl, hcounts, fun _ h => .inl h⟩
    · refine ⟨rfl, rfl, hcounts, ?_⟩
      intro ip hip
      rcases List.mem_append.mp hip with h | h
      · exact .inl h
      · rw [List.mem_singleton.mp h]
        exact .inr ⟨[], [], rfl, hdecided⟩

variable {σ α β : Type} {part : σ → State}

def Silent (part : σ → State) (body : EStateM Halt σ α) : Prop :=
  ∀ start : State, Keeps (fun whole => Voted start (part whole) []) body

/-- A procedure that asks for the removal of every peer at most once. -/
def Asks (part : σ → State) (body : EStateM Halt σ α) : Prop :=
  ∀ before, (part before).allSyncMode ≠ 0 →
    ∃ requests, requests.Nodup ∧ Voted (part before) (part (final (body.run before))) requests

theorem Silent.voted {body : EStateM Halt σ α} (silent : Silent part body) (before : σ) :
    Voted (part before) (part (final (body.run before))) [] :=
  silent (part before) before (.refl _)

theorem silent_modify {update : σ → σ} (h : ∀ whole, Voted (part whole) (part (update whole)) []) :
    Silent part (modify update : EStateM Halt σ PUnit) :=
  fun _ => Keeps.modify fun whole hvoted => hvoted.trans (h whole)

theorem Silent.bind {first : EStateM Halt σ α} {next : α → EStateM Halt σ β}
    (hfirst : Silent part first) (hnext : ∀ value, Silent part (next value)) :
    Silent part (first >>= next) :=
  fun start => Keeps.bind (hfirst start) fun value => hnext value start

theorem silent_throw (error : Halt) : Silent part (throw error : EStateM Halt σ α) :=
  fun _ => Keeps.throw _ error

theorem silent_pure (value : α) : Silent part (pure value : EStateM Halt σ α) :=
  fun _ => Keeps.pure _ value

theorem silent_get : Silent part (get : EStateM Halt σ σ) := fun _ => Keeps.get _

theorem Silent.bind_asks {first : EStateM Halt σ α} {next : α → EStateM Halt σ β}
    (hfirst : Silent part first) (hnext : ∀ value, Asks part (next value)) :
    Asks part (first >>= next) := by
  intro before hmode
  have hvoted := hfirst.voted before
  rw [EStateM.run_bind]
  cases hrun : first.run before with
  | error error mid =>
      rw [hrun] at hvoted
      exact ⟨[], List.nodup_nil, hvoted⟩
  | ok value mid =>
      rw [hrun] at hvoted
      obtain ⟨requests, hnodup, hrest⟩ := hnext value mid (by
        rw [show (part mid).allSyncMode = (part before).allSyncMode from hvoted.mode]
        exact hmode)
      exact ⟨requests, hnodup, hvoted.trans hrest⟩

theorem Asks.bind_right {first : EStateM Halt σ α} {next : α → EStateM Halt σ β}
    (hfirst : Asks part first) (hnext : ∀ value, Silent part (next value)) :
    Asks part (first >>= next) := by
  intro before hmode
  obtain ⟨requests, hnodup, hvoted⟩ := hfirst before hmode
  refine ⟨requests, hnodup, ?_⟩
  rw [EStateM.run_bind]
  cases hrun : first.run before with
  | error error mid =>
      rw [hrun] at hvoted
      exact hvoted
  | ok value mid =>
      rw [hrun] at hvoted
      simpa using hvoted.trans ((hnext value).voted mid)

theorem Silent.forM {body : α → EStateM Halt σ PUnit} (items : List α)
    (hbody : ∀ item, Silent part (body item)) : Silent part (forM items body) :=
  fun start => Keeps.forM items fun item _ => hbody item start

section

variable {τ : Type} {get : τ → σ} {put : σ → τ → τ}

theorem Silent.onPart {body : EStateM Halt σ α} (silent : Silent part body)
    (lawful : ∀ inner whole, get (put inner whole) = inner) :
    Silent (fun whole => part (get whole)) (onPart get put body) := by
  intro start whole hvoted
  rw [final_onPart]
  dsimp only
  rw [lawful]
  exact silent start (get whole) hvoted

theorem Asks.onPart {body : EStateM Halt σ α} (asks : Asks part body)
    (lawful : ∀ inner whole, get (put inner whole) = inner) :
    Asks (fun whole => part (get whole)) (onPart get put body) := by
  intro whole hmode
  rw [final_onPart]
  dsimp only
  rw [lawful]
  exact asks (get whole) hmode

end

theorem silent_lockAquire : Silent id State.lockAquire := by
  have hset : Silent id (modify fun state : State => { state with locked := true }) :=
    silent_modify fun _ => voted_same rfl rfl rfl rfl
  unfold State.lockAquire
  refine silent_get.bind fun state => ?_
  split
  · exact (silent_throw _).bind fun _ => hset
  · exact hset

theorem silent_lockRelease : Silent id State.lockRelease :=
  silent_modify fun _ => voted_same rfl rfl rfl rfl

theorem silent_checkAllowedIPs (peerInfo : PeerRecord) (existingPeer : Option PeerInfo) :
    Silent id (checkAllowedIPs peerInfo existingPeer) := by
  unfold checkAllowedIPs
  split
  · exact silent_throw _
  · split
    · unfold State.setPeerAllowedIPs
      refine silent_get.bind fun state => ?_
      refine Silent.bind (fun _ => Keeps.getItem _ _ _ _) fun peer => ?_
      exact silent_modify fun _ => voted_same rfl rfl rfl rfl
    · exact silent_pure _

theorem silent_addPeer (peerInfo : PeerRecord) :
    Silent id (modify fun state : State => state.addPeer peerInfo.virtualIp peerInfo.publicKey
      peerInfo.endpointIp peerInfo.endpointPort : EStateM Halt State PUnit) :=
  silent_modify fun state => voted_addPeer state _ _ _ _

private theorem voted_removedAll (peers : PeerMap) {state : State} (mode : state.allSyncMode ≠ 0)
    (entries : List (Σ _ : Ip, PeerInfo)) :
    Voted state (removedAll peers state entries) (entries.keys.filter (· ∉ peers)) := by
  induction entries generalizing state with
  | nil => exact .refl state
  | cons entry rest ih =>
      have hstep : removedAll peers state (entry :: rest) =
          removedAll peers (removedUnlisted peers state entry.1) rest := rfl
      rw [hstep, List.keys_cons]
      by_cases hlisted : entry.1 ∈ peers
      · have hkept : removedUnlisted peers state entry.1 = state := if_pos hlisted
        rw [hkept, List.filter_cons_of_neg (by simpa using hlisted)]
        exact ih mode
      · have hasked : removedUnlisted peers state entry.1 = state.removePeer entry.1 :=
          if_neg hlisted
        have hfirst := voted_removePeer mode entry.1
        rw [hasked, List.filter_cons_of_pos (by simpa using hlisted)]
        exact hfirst.trans (ih (hfirst.mode ▸ mode))

theorem asks_removeUnlisted (peers : PeerMap) : Asks id (removeUnlisted peers) := by
  intro state hmode
  rw [run_removeUnlisted]
  exact ⟨_, state.peers.keys_nodup.filter _, voted_removedAll peers hmode state.peers.entries⟩

end WgBp.Model
