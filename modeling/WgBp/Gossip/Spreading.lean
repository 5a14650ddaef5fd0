import WgBp.Gossip.AntiEntropy

/-! How the latest state spreads. Whoever is reached by a chain of messages, each sent after
the one before it was handled, holds the latest state; who sends to whom is left to chance. -/
namespace WgBp.Gossip

open WgBp.Library WgBp.Library.Procedure WgBp.Library.Transition WgBp.Library.Versioned
open WgBp.Model

/-- A run together with who has been told, and the messages that tell. -/
structure Rumor where
  network : Network
  told : List Nat
  telling : List Nat
  deriving DecidableEq

/-- A message tells if its sender had been told, and tells whoever handles it. -/
def Rumor.next (rumor : Rumor) (label : Label) : Option Rumor :=
  (Gossip.next rumor.network label).map fun after =>
    match label with
    | .send index _ (some _) _ =>
      { rumor with
        network := after
        telling := if index ∈ rumor.told then rumor.network.serial :: rumor.telling
          else rumor.telling }
    | .deliver position =>
      { rumor with
        network := after
        told := ((rumor.network.packets[position]?).filter fun packet =>
          packet.serial ∈ rumor.telling).elim rumor.told fun packet =>
            packet.receiver :: rumor.told }
    | _ => { rumor with network := after }

theorem Rumor.next_network {rumor after : Rumor} {label : Label}
    (step : rumor.next label = some after) :
    Gossip.next rumor.network label = some after.network := by
  obtain ⟨network, hnext, rfl⟩ := Option.map_eq_some_iff.mp step
  rw [hnext]
  cases label with
  | send index position receiver raises => cases receiver <;> rfl
  | _ => rfl

structure Rumor.Reliable (top : Nat) (rumor : Rumor) : Prop where
  told : ∀ index ∈ rumor.told, ∃ process, rumor.network.processes[index]? = some process ∧
    process.phase ≠ .stopped ∧ top ≤ process.node.sync.version
  telling : ∀ packet ∈ rumor.network.packets, packet.serial ∈ rumor.telling →
    top ≤ packet.msg.version
  numbered : ∀ serial ∈ rumor.telling, serial < rumor.network.serial

theorem Handles.msg_le {msg : Msg} {node after : GossipNode} {next : Option Handled}
    (h : Handles msg node after next) : msg.version ≤ after.sync.version := by
  cases h with
  | onboarded zero _ _ _ | raised zero => omega
  | older _ lower => exact lower.le
  | equal _ same => exact same.le
  | adopted _ _ | departed _ _ _ => exact Nat.le_refl _

variable {rumor after : Rumor} {label : Label} {top : Nat}

theorem Rumor.Reliable.still_told (reliable : rumor.Reliable top) (sane : Sane rumor.network)
    (ok : quiet rumor.network label = true) {network : Network}
    (step : Gossip.next rumor.network label = some network) {index : Nat}
    (told : index ∈ rumor.told) : ∃ process, network.processes[index]? = some process ∧
      process.phase ≠ .stopped ∧ top ≤ process.node.sync.version := by
  obtain ⟨process, hmember, halive, hversion⟩ := reliable.told index told
  obtain ⟨changed, hchanged, hstays⟩ := quiet_process sane ok step hmember
  exact ⟨changed, hchanged, hstays.phase ▸ halive, hversion.trans hstays.version⟩

theorem Rumor.Reliable.next (reliable : rumor.Reliable top) (sane : Sane rumor.network)
    (ok : quiet rumor.network label = true) (step : rumor.next label = some after) :
    after.Reliable top := by
  have hstep := Rumor.next_network step
  obtain ⟨network, hnext, rfl⟩ := Option.map_eq_some_iff.mp step
  have htold (index : Nat) (h : index ∈ rumor.told) := reliable.still_told sane ok hnext h
  cases stepped_of_next hnext with
  | heartbeat member picked alive => exact ⟨htold, reliable.telling, reliable.numbered⟩
  | lost member queued alive => exact ⟨htold, reliable.telling, reliable.numbered⟩
  | @sent index position target raises process other outgoing member queued alive receiver
      listening =>
      refine ⟨htold, ?_, ?_⟩
      · intro packet hpacket htelling
        dsimp only at hpacket htelling
        rcases List.mem_append.mp hpacket with hold | hnew
        · refine reliable.telling packet hold ?_
          split at htelling
          · rcases List.mem_cons.mp htelling with hserial | hmem
            · have hnumbered := (sane.packets packet hold).numbered
              omega
            · exact hmem
          · exact htelling
        · rw [List.mem_singleton] at hnew
          subst hnew
          have htells : index ∈ rumor.told := by
            by_contra huntold
            rw [if_neg huntold] at htelling
            exact absurd (reliable.numbered _ htelling) (Nat.lt_irrefl _)
          obtain ⟨sender, hsender, -, hversion⟩ := reliable.told index htells
          obtain rfl := Option.some.inj (member.symm.trans hsender)
          exact hversion
      · intro serial hserial
        dsimp only at hserial ⊢
        split at hserial
        · rcases List.mem_cons.mp hserial with rfl | hmem
          · exact Nat.lt_succ_self _
          · exact Nat.lt_succ_of_lt (reliable.numbered serial hmem)
        · exact Nat.lt_succ_of_lt (reliable.numbered serial hserial)
  | @deliver position packet process inFlight member alive =>
      refine ⟨?_, reliable.telling, reliable.numbered⟩
      intro index hindex
      dsimp only at hindex
      rw [inFlight] at hindex
      by_cases htelling : packet.serial ∈ rumor.telling
      · simp only [Option.filter, htelling, decide_true, if_true, Option.elim,
          List.mem_cons] at hindex
        rcases hindex with rfl | hold
        · have hpacket := List.mem_of_getElem? inFlight
          have hhandles := handleGossip_cases
            (sane.processes process (List.mem_of_getElem? member)).sound
            (sane.packets packet hpacket).keyed
          refine ⟨delivered process packet.msg, ?_, alive, ?_⟩
          · exact List.getElem?_set_self (List.getElem?_eq_some_iff.mp member).1
          · exact (reliable.telling packet hpacket htelling).trans hhandles.msg_le
        · exact htold index hold
      · simp only [Option.filter, htelling, decide_false, Option.elim] at hindex
        exact htold index hindex
  | drop =>
      exact ⟨htold, fun packet hpacket =>
        reliable.telling packet (List.mem_of_mem_eraseIdx hpacket), reliable.numbered⟩
  | welcome | join | publishOwn | leave | depart | stop => cases ok

/-- From a coordinated run on: once those who hold the latest state have told a process, by
however many messages in between, it holds that state too. When all live processes have
been told they agree, and no further exchange changes what any of them holds. -/
theorem gossip_spreads (config : Config) {start : Network}
    (run : Run Gossip.next (fun network label => coordinated network label = true)
      (Network.create config) start) {top : Nat} (positive : 0 < top)
    (latest : ∀ pair ∈ start.held, pair.1 ≤ top) {holders : List Nat}
    (holding : ∀ index ∈ holders, ∃ process, start.processes[index]? = some process ∧
      process.phase ≠ .stopped ∧ process.node.sync.version = top) {last : Rumor}
    (spread : Run Rumor.next (fun rumor label => quiet rumor.network label = true)
      ⟨start, holders, []⟩ last) :
    (∀ index ∈ last.told, ∃ process, last.network.processes[index]? = some process ∧
      ∀ holder ∈ start.processes, holder.phase ≠ .stopped → holder.node.sync.version = top →
        process.node.sync.pair = holder.node.sync.pair) ∧
    ∀ later, Segment last.network later → ∀ index ∈ last.told, ∀ process,
      last.network.processes[index]? = some process →
        ∃ same, later.processes[index]? = some same ∧ same.node.sync = process.node.sync := by
  have hsane : Sane start := (Sane.create config).run run
  have hagreeing : Agreeing start.held := by
    refine Run.invariant (fun network => Agreeing network.held) (agreeing_create config) ?_ run
    intro network label after hrun hbefore hok hnext
    exact agreeing_next ((Sane.create config).run hrun) hbefore hok hnext
  have hsegment : Segment start last.network := by
    refine Run.invariant (fun rumor => Segment start rumor.network) (.refl _) ?_ spread
    intro rumor label after _ hbefore hok hnext
    exact .step hbefore hok (Rumor.next_network hnext)
  have hreliable : last.Reliable top := by
    have hstart : Rumor.Reliable top ⟨start, holders, []⟩ := by
      refine ⟨?_, fun _ _ htelling => ?_, fun _ hserial => ?_⟩
      · intro index hindex
        obtain ⟨process, hmember, halive, hversion⟩ := holding index hindex
        exact ⟨process, hmember, halive, hversion.ge⟩
      · cases htelling
      · cases hserial
    have hboth := Run.invariant
      (fun rumor => Segment start rumor.network ∧ rumor.Reliable top) ⟨.refl _, hstart⟩
      (fun rumor label after _ hbefore hok hnext =>
        ⟨.step hbefore.1 hok (Rumor.next_network hnext),
          hbefore.2.next (hsane.run hbefore.1) hok hnext⟩) spread
    exact hboth.2
  have hcopied := segment_copied hsane hsegment
  have hknows {index : Nat} (told : index ∈ last.told) :
      ∃ process, last.network.processes[index]? = some process ∧ process.phase ≠ .stopped ∧
        process.node.sync.version = top ∧ process.node.sync.pair ∈ start.held := by
    obtain ⟨process, hmember, halive, hversion⟩ := hreliable.told index told
    have hheld := hcopied (process_held (List.mem_of_getElem? hmember) halive)
    exact ⟨process, hmember, halive, Nat.le_antisymm (latest _ hheld) hversion, hheld⟩
  constructor
  · intro index hindex
    obtain ⟨process, hmember, halive, hversion, hheld⟩ := hknows hindex
    refine ⟨process, hmember, ?_⟩
    intro holder hholder hup htop
    have hpeers := hagreeing top process.node.sync.peers holder.node.sync.peers positive.ne'
      (hversion ▸ hheld) (htop ▸ process_held hholder hup)
    exact Prod.ext (hversion.trans htop.symm) hpeers
  · intro later hlater index hindex process hmember
    obtain ⟨known, hknown, halive, hversion, hheld⟩ := hknows hindex
    obtain rfl := Option.some.inj (hmember.symm.trans hknown)
    have hhighest : ∀ pair ∈ last.network.held, pair.1 ≤ process.node.sync.version := by
      intro pair hpair
      rw [hversion]
      exact latest pair (hcopied hpair)
    obtain ⟨same, hsame, -, hsync⟩ :=
      segment_settled (hsane.run hsegment) hlater hmember halive hhighest
    exact ⟨same, hsame, hsync⟩

theorem gossip_spreads_asking :
    ∃ last : Rumor, last.told = [1, 0] ∧ ∀ index ∈ last.told, ∃ process,
      last.network.processes[index]? = some process ∧
        ∀ holder ∈ (scenario asking).processes, holder.phase ≠ .stopped →
          holder.node.sync.version = 3 → process.node.sync.pair = holder.node.sync.pair := by
  have hstart : replay Gossip.next coordinated (Network.create nodeA) asking =
      some (scenario asking) := by decide +kernel
  have hlatest : ∀ pair ∈ (scenario asking).pairs, pair.1 ≤ 3 := by decide +kernel
  have hholding : ∀ index ∈ [0], ∃ process, (scenario asking).processes[index]? = some process ∧
      process.phase ≠ .stopped ∧ process.node.sync.version = 3 := by
    intro index hindex
    rw [List.mem_singleton.mp hindex]
    exact ⟨(scenario asking).processes.get ⟨0, by decide +kernel⟩, by decide +kernel,
      by decide +kernel, by decide +kernel⟩
  have hreplay : (replay Rumor.next (fun rumor label => quiet rumor.network label)
      ⟨scenario asking, [0], []⟩ [.deliver 2, .send 0 0 (some 1) false, .deliver 3]).any
        (fun last => last.told = [1, 0]) = true := by decide +kernel
  obtain ⟨last, hspread, htold⟩ := reached_of_replay (fun _ _ h => h) hreplay
  exact ⟨last, of_decide_eq_true htold, (gossip_spreads nodeA
    (run_of_replay (fun _ _ h => h) hstart) (by decide) hlatest hholding hspread).1⟩

end WgBp.Gossip
