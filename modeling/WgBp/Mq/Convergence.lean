import WgBp.Mq.Agreement
import WgBp.Mq.Traffic

/-! Onboarded nodes come to agree. The network of the orderly runs is a swarm whose gone
nodes have stopped, so its traffic dies out as well; and what it dies out to agrees. -/
namespace WgBp.Mq

open WgBp.Library WgBp.Library.Procedure WgBp.Library.Mailbox WgBp.Library.Transition
open WgBp.Library.Cascade WgBp.Model

variable {n : Nat} {network after : Network n}

def Member.process (member : Member n) : Process where
  node := member.node
  inbox := member.inbox.map fun entry => (entry.1.val, entry.2)
  phase := if member.live then .running else .stopped
  seeded := false
  listening := member.listening

def Network.swarm (network : Network n) : Swarm :=
  ⟨List.ofFn fun index => (network index).process, []⟩

@[simp] theorem process_hear (member : Member n) (publisher : Fin n) (source : MqNode) :
    (member.hear publisher source).process = member.process.hear publisher.val source := by
  unfold Member.hear Process.hear Member.process
  cases hlive : member.live with
  | false => simp [hlive]
  | true =>
      by_cases hsub : address source ∈ member.node.sync.sub
      · simp [hsub, Function.comp_def]
      · simp [hlive, hsub]

@[simp] theorem swarm_getElem (network : Network n) (index : Fin n) :
    network.swarm.processes[index.val]? = some (network index).process := by
  simp [Network.swarm]

@[simp] theorem swarm_act (network : Network n) (index : Fin n) (member : Member n) :
    Network.swarm (act network index member) = network.swarm.act index.val member.process := by
  have hprocesses : (List.ofFn fun other => (act network index member other).process) =
      (List.ofFn fun other => (network other).process).mapIdx fun other existing =>
        if other = index.val then { member.process with node := flush member.process.node }
        else existing.hear index.val member.process.node := by
    refine List.ext_getElem (by simp) ?_
    intro position hposition _
    simp only [List.getElem_ofFn, List.getElem_mapIdx]
    by_cases hsame : position = index.val
    · subst hsame
      simp [Member.process]
    · have hne : (⟨position, by simpa using hposition⟩ : Fin n) ≠ index :=
        fun heq => hsame (congrArg Fin.val heq)
      rw [if_neg hsame, act_ne network member hne]
      exact process_hear _ index _
  exact congrArg (Swarm.mk · []) hprocesses

theorem take_process {inbox rest : List (Fin n × Msg)} {sender : Fin n} {msg : Msg}
    (taken : take inbox sender = some (msg, rest)) :
    take (inbox.map fun entry => (entry.1.val, entry.2)) sender.val =
      some (msg, rest.map fun entry => (entry.1.val, entry.2)) := by
  induction inbox generalizing rest with
  | nil => cases taken
  | cons entry inbox ih =>
      by_cases hsender : entry.1 = sender
      · have hpair : some (entry.2, inbox) = some (msg, rest) := by
          simpa [take, hsender] using taken
        cases hpair
        simp [take, hsender]
      · have hval : entry.1.val ≠ sender.val := fun heq => hsender (Fin.ext heq)
        unfold take at taken ih ⊢
        simp only [List.find?_cons, List.eraseP_cons, hsender, decide_false, List.map_cons,
          hval, Option.map_eq_some_iff] at taken ih ⊢
        obtain ⟨found, hfound, hpair⟩ := taken
        cases hpair
        obtain ⟨entry', hentry', hpair'⟩ := ih ⟨found, hfound, rfl⟩
        simp only [Prod.mk.injEq] at hpair'
        refine ⟨entry', hentry', ?_⟩
        simp [hpair'.1, hpair'.2]

theorem swarm_deliver {receiver sender : Fin n}
    (step : next network (.deliver receiver sender) = some after) :
    network.swarm.next (.deliver receiver.val sender.val) = some after.swarm := by
  obtain ⟨⟨msg, rest⟩, htaken, step⟩ := Option.bind_eq_some_iff.mp step
  dsimp only at step
  split at step
  · rename_i hguard
    cases step
    have hup : (network receiver).process.phase ≠ .stopped := by
      simp [Member.process, hguard.1]
    have hreceive : ((network receiver).receive msg rest).process =
        (network receiver).process.receive msg
          (rest.map fun entry => (entry.1.val, entry.2)) := rfl
    have htaken' : take (network receiver).process.inbox sender.val =
        some (msg, rest.map fun entry => (entry.1.val, entry.2)) := take_process htaken
    have hlistening : (network receiver).process.listening = true := hguard.2
    rw [swarm_act, hreceive]
    simp [Swarm.next, htaken', hup, hlistening]
  · cases step

def Label.delivers : Label n → Bool
  | .deliver _ _ => true
  | _ => false

theorem paced_deliver {fan top : Nat} {label : Label n} (paced : Paced fan top network.swarm)
    (delivers : label.delivers = true) (step : next network label = some after) :
    Paced fan top after.swarm ∧ after.swarm.effort fan top < network.swarm.effort fan top := by
  cases label with
  | addPeer index change => cases delivers
  | publish index change => cases delivers
  | exit index => cases delivers
  | deliver receiver sender => exact paced.next rfl (swarm_deliver step)

theorem Consistent.quiet {home : Fin n → Address} (consistent : Consistent home network)
    (rests : ∀ label, label.delivers = true → next network label = none) : Quiet network := by
  have hserves : Serves home network := by
    rcases consistent with ⟨_, _, settled⟩ | ⟨_, _, _, parting⟩
    · exact settled.serves
    · exact parting.serves
  intro index live
  cases hinbox : (network index).inbox with
  | nil => rfl
  | cons entry rest =>
      have hlistening := (hserves index live).1.listening
      have hnone := rests (.deliver index entry.1) rfl
      simp [next, hinbox, take, live, hlistening] at hnone

theorem flushed_next {label : Label n} (flushed : Flushed network.swarm)
    (step : next network label = some after) : Flushed after.swarm := by
  cases stepped_of_next step with
  | addPeer live => exact swarm_act network _ _ ▸ flushed.act _ _
  | publish live => exact swarm_act network _ _ ▸ flushed.act _ _
  | deliver taken live => exact swarm_act network _ _ ▸ flushed.act _ _
  | exit live => exact swarm_act network _ _ ▸ flushed.act _ _

theorem Onboarded.flushed (onboarded : Onboarded network) : Flushed network.swarm := by
  intro process hprocess
  obtain ⟨index, rfl⟩ := List.mem_ofFn.mp hprocess
  exact (onboarded.sound index).flushed

/-- After any orderly run of onboarded nodes: what is under way can be delivered in any
order, that takes boundedly many deliveries, and once none is left all live nodes agree. -/
theorem mq_converges {start network : Network n} (onboarded : Onboarded start)
    (run : Run next Orderly start network) :
    (∀ labels last, replay next (fun _ label => label.delivers) network labels = some last →
      labels.length ≤ network.swarm.traffic ∧
        ((∀ label, label.delivers = true → next last label = none) → Agree last)) ∧
    ∃ labels last, replay next (fun _ label => label.delivers) network labels = some last ∧
      Agree last := by
  have hflushed : Flushed network.swarm := run.invariant (fun network => Flushed network.swarm)
    onboarded.flushed (fun _ _ _ _ hbefore _ hstep => flushed_next hbefore hstep)
  have horderly (network : Network n) (label : Label n) (delivers : label.delivers = true) :
      Orderly network label := by
    cases label <;> first | exact trivial | cases delivers
  have hagree {labels : List (Label n)} {last : Network n}
      (replayed : replay next (fun _ label => label.delivers) network labels = some last)
      (rests : ∀ label, label.delivers = true → next last label = none) : Agree last := by
    have hrun : Run next Orderly start last :=
      run.trans (run_of_replay (fun network label => horderly network label) replayed)
    have hconsistent := Run.invariant (Consistent fun index => address (start index).node)
      onboarded.consistent (fun _ _ _ _ consistent orderly step =>
        consistent_next onboarded.distinct consistent orderly step) hrun
    exact hconsistent.agree onboarded.distinct (hconsistent.quiet rests)
  have hpaced := hflushed.paced
  constructor
  · intro labels last replayed
    refine ⟨?_, hagree replayed⟩
    have hlength := length_le_of_replay (fun state => Paced _ _ (Network.swarm state))
      (fun state => (Network.swarm state).effort _ _)
      (fun _ _ _ paced delivers step => paced_deliver paced delivers step) hpaced replayed
    exact (Nat.le_add_right _ _).trans hlength
  · obtain ⟨labels, last, replayed, hrests⟩ := exists_at_rest
      (fun _ (label : Label n) => label.delivers) (fun state => Paced _ _ (Network.swarm state))
      (fun state => (Network.swarm state).effort _ _)
      (fun _ _ _ paced delivers step => paced_deliver paced delivers step) hpaced
    exact ⟨labels, last, replayed, hagree replayed hrests⟩

theorem mq_converges_parting :
    ∃ network : Network 3, (network 0).live = false ∧
      ((network 1).node.sync.version, (network 1).inbox.length) = (3, 2) ∧
      (∀ labels last, replay next (fun _ label => label.delivers) network labels = some last →
        labels.length ≤ network.swarm.traffic ∧
          ((∀ label, label.delivers = true → next last label = none) → Agree last)) ∧
      ∃ labels last, replay next (fun _ label => label.delivers) network labels = some last ∧
        Agree last := by
  have hreplay : (replay next (fun network label => Orderly network label) mesh
      [.publish 0 (routed seatA), .exit 0]).any (fun network =>
        (network 0).live = false &&
          ((network 1).node.sync.version, (network 1).inbox.length) = (3, 2)) = true := by
    decide +kernel
  obtain ⟨network, hrun, hfound⟩ := reached_of_replay (fun _ _ h => of_decide_eq_true h) hreplay
  simp only [Bool.and_eq_true, decide_eq_true_eq] at hfound
  exact ⟨network, hfound.1, hfound.2, mq_converges mesh_onboarded hrun⟩

end WgBp.Mq
