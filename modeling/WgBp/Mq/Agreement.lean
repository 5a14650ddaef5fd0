import WgBp.Mq.Departures

/-! Agreement at quiescence. Every node counts for itself, so it holds as long as
no publication repeats the version before the top and no publication, nor any
older state under way, overlaps a departure. -/
namespace WgBp.Mq

open WgBp.Library WgBp.Library.Procedure WgBp.Library.Mailbox WgBp.Library.Transition
open WgBp.Library.Versioned WgBp.Model

variable {n : Nat}

def Consistent (home : Fin n → Address) (network : Network n) : Prop :=
  (∃ top last, Settled home top last network) ∨
    ∃ top last left, Parting home top last left network

theorem consistent_next {home : Fin n → Address} {network after : Network n} {label : Label n}
    (distinct : ∀ first second, (home first).ip = (home second).ip → first = second)
    (consistent : Consistent home network) (orderly : Orderly network label)
    (step : next network label = some after) : Consistent home after := by
  cases stepped_of_next step with
  | addPeer live =>
      rcases consistent with ⟨top, last, settled⟩ | ⟨top, last, left, parting⟩
      · exact .inl ⟨top, last, settled.addPeer live _⟩
      · exact .inr ⟨top, last, left, parting.addPeer live _⟩
  | publish live =>
      obtain ⟨hcalm, hapart, hintroduced⟩ := orderly
      have hsettled : ∃ top last, Settled home top last network := by
        rcases consistent with h | ⟨top, last, left, parting⟩
        · exact h
        · exact ⟨_, _, parting.settled hcalm distinct⟩
      obtain ⟨top, last, settled⟩ := hsettled
      exact .inl (settled.publish live hapart hintroduced)
  | deliver taken live =>
      rcases consistent with ⟨top, last, settled⟩ | ⟨top, last, left, parting⟩
      · exact .inl ⟨top, last, settled.deliver distinct live taken⟩
      · exact .inr ⟨top, last, left, parting.deliver distinct live taken⟩
  | exit live =>
      rcases consistent with ⟨top, last, settled⟩ | ⟨top, last, left, parting⟩
      · exact .inr ⟨top, last, _, settled.exit live orderly⟩
      · exact .inr ⟨top, last, _, parting.exit live orderly⟩

theorem Onboarded.consistent {network : Network n} (onboarded : Onboarded network) :
    Consistent (fun index => address (network index).node) network := by
  have hserves : Serves (fun index => address (network index).node) network := by
    intro index live
    have hsound := onboarded.sound index
    refine ⟨⟨onboarded.listening index, ?_, rfl, fun other hne _ => onboarded.subscribed _ _ hne⟩,
      hsound.flushed⟩
    rwa [flush_self hsound]
  have hempty (index : Fin n) := onboarded.quiet index (onboarded.live index)
  rcases isEmpty_or_nonempty (Fin n) with hnone | ⟨⟨first⟩⟩
  · exact .inl ⟨0, ∅, hserves, fun index => hnone.elim index, fun index => hnone.elim index,
      fun index => hnone.elim index, fun index => hnone.elim index,
      fun index => hnone.elim index, fun index => hnone.elim index⟩
  · have hsame (index : Fin n) := onboarded.agree index first (onboarded.live _) (onboarded.live _)
    refine .inl ⟨(network first).node.sync.version, (network first).node.sync.peers, hserves,
      fun index _ => onboarded.listed index first, fun _ _ => ⟨first, onboarded.live first, rfl⟩,
      fun index _ => ⟨(hsame index).1.le, fun _ => (hsame index).2⟩, ?_, ?_,
      fun index _ => .inl (hsame index).1⟩
    · intro index _ entry hentry
      rw [hempty index] at hentry
      cases hentry
    · intro index _
      rw [hempty index]
      exact List.Pairwise.nil

theorem Consistent.agree {home : Fin n → Address} {network : Network n}
    (distinct : ∀ first second, (home first).ip = (home second).ip → first = second)
    (consistent : Consistent home network) (quiet : Quiet network) : Agree network := by
  have hsettled : ∃ top last, Settled home top last network := by
    rcases consistent with h | ⟨top, last, left, parting⟩
    · exact h
    · refine ⟨_, _, parting.settled ?_ distinct⟩
      intro index live entry hentry
      rw [quiet index live] at hentry
      cases hentry
  obtain ⟨top, last, settled⟩ := hsettled
  have hatTop (index : Fin n) (live : (network index).live = true) :
      (network index).node.sync.version = top ∧ (network index).node.sync.peers = last := by
    have htop : (network index).node.sync.version = top := by
      rcases settled.catches index live with htop | ⟨entry, hentry, -⟩
      · exact htop
      · rw [quiet index live] at hentry
        cases hentry
    exact ⟨htop, (settled.nodes index live).same htop⟩
  intro first second hfirst hsecond
  obtain ⟨hversion, hpeers⟩ := hatTop first hfirst
  obtain ⟨hversion', hpeers'⟩ := hatTop second hsecond
  exact ⟨hversion.trans hversion'.symm, hpeers.trans hpeers'.symm⟩

theorem mq_quiescent_agreement {start network : Network n} (onboarded : Onboarded start)
    (run : Run next Orderly start network) (quiet : Quiet network) : Agree network := by
  have hconsistent := Run.invariant (Consistent fun index => address (start index).node)
    onboarded.consistent (fun _ _ _ _ consistent orderly step =>
      consistent_next onboarded.distinct consistent orderly step) run
  exact hconsistent.agree onboarded.distinct quiet

/-! A mesh of three onboarded nodes. -/

def seatA : PeerRecord := ⟨"10.0.0.1", "ka", "198.51.100.1", 51820, .port 5555, ["10.0.0.1/32"]⟩
def seatB : PeerRecord := ⟨"10.0.0.2", "kb", "198.51.100.2", 51820, .port 5555, ["10.0.0.2/32"]⟩
def seatC : PeerRecord := ⟨"10.0.0.3", "kc", "198.51.100.3", 51820, .port 5555, ["10.0.0.3/32"]⟩

def seat : Fin 3 → PeerRecord
  | 0 => seatA
  | 1 => seatB
  | 2 => seatC

def meshMap : PeerMap :=
  ((Dict.set ∅ "10.0.0.1" seatA).set "10.0.0.2" seatB).set "10.0.0.3" seatC

def meshNode (own : PeerRecord) : MqNode where
  state := checked meshMap
    (.new own.virtualIp own.publicKey own.endpointIp own.endpointPort)
  sync :=
    { port := 5555
      version := 3
      peers := meshMap
      ready := true
      sub := ([seatA, seatB, seatC].filter (· ≠ own)).map fun other => ⟨other.virtualIp, 5555⟩
      pub := [] }

def mesh : Network 3 := fun index => ⟨meshNode (seat index), [], true, true⟩

def routed (own : PeerRecord) : Change where
  virtualIp := own.virtualIp
  publicKey := own.publicKey
  endpointIp := own.endpointIp
  endpointPort := own.endpointPort
  allowedIps := some (own.allowedIps ++ ["172.16.0.0/24"])
  syncPort := none

theorem meshMap_keyed : Keyed meshMap := by
  refine Dict.All.set (Dict.All.set (Dict.All.set (Dict.all_empty _) ?_) ?_) ?_ <;> rfl

theorem meshMap_ported : Ported meshMap := by
  refine Dict.All.set (Dict.All.set (Dict.All.set (Dict.all_empty _) ?_) ?_) ?_ <;>
    exact ⟨5555, rfl⟩

theorem mesh_onboarded : Onboarded mesh where
  live := fun _ => rfl
  listening := fun _ => rfl
  sound := by
    intro index
    have htracks : Tracks (mesh index).node.state meshMap :=
      checked_tracks meshMap_keyed rfl List.not_mem_nil
    exact ⟨rfl, checked_allSyncMode _ _, htracks.foreign,
      fun ip hmem hforeign => (htracks ip).mpr ⟨hmem, hforeign⟩, meshMap_keyed, meshMap_ported,
      rfl⟩
  distinct := by decide +kernel
  listed := by decide +kernel
  subscribed := by decide +kernel
  agree := fun _ _ _ _ => ⟨rfl, rfl⟩
  quiet := fun _ _ => rfl

theorem mq_quiescent_agreement_parting :
    ∃ network : Network 3, (network 1).node.sync.version = 5 ∧ (network 0).live = false ∧
      Agree network := by
  have hreplay : (replay next (fun network label => Orderly network label) mesh
      [.publish 0 (routed seatA), .deliver 1 0, .exit 0, .deliver 2 0, .deliver 2 0,
        .deliver 1 0]).any (fun network => Quiet network ∧
          (network 1).node.sync.version = 5 ∧ (network 0).live = false) = true := by
    decide +kernel
  obtain ⟨network, hrun, hfound⟩ := reached_of_replay (fun _ _ h => of_decide_eq_true h) hreplay
  obtain ⟨hquiet, hversion, hgone⟩ := of_decide_eq_true hfound
  exact ⟨network, hversion, hgone, mq_quiescent_agreement mesh_onboarded hrun hquiet⟩

theorem mq_quiescent_agreement_fails :
    ¬ ∀ (n : Nat) (start network : Network n), Onboarded start → Run next always start network →
      Quiet network → Agree network := by
  intro claimed
  have hreplay : (replay next (fun _ _ => true) mesh
      [.publish 0 (routed seatA), .publish 1 (routed seatB), .deliver 0 1, .deliver 1 0,
        .deliver 2 0, .deliver 2 1]).any
      (fun network => Quiet network ∧ ¬ Agree network) = true := by decide +kernel
  obtain ⟨network, hrun, hfound⟩ := reached_of_replay (fun _ _ _ => trivial) hreplay
  obtain ⟨hquiet, hdisagree⟩ := of_decide_eq_true hfound
  exact hdisagree (claimed 3 mesh network mesh_onboarded hrun hquiet)

end WgBp.Mq
