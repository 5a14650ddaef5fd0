import WgBp.Gossip.Tracking
import WgBp.Library.Cascade

/-! Nobody waits for the lock of `State` for good, as long as no join handler has died with
it or waits for a client that never answers: what the threads have begun takes boundedly
many steps, and some step is always left until all of it is done. A handler that holds the
lock and does not go on keeps it. -/
namespace WgBp.Gossip

open WgBp.Library WgBp.Library.Procedure WgBp.Library.Mutex WgBp.Library.Transition
open WgBp.Library.Cascade WgBp.Model WgBp.Discovery

def ThreadLabel.finishes : ThreadLabel → Bool
  | .client _ | .acquire | .reconcile | .release | .notice | .onboarded _ _ => true
  | _ => false

/-- A handler whose client never answers does not return from the second `recv`. -/
def Member.hears (silent : Nat → Bool) (member : Member) : ThreadLabel → Bool
  | .client index =>
    !(silent index && member.clients[index]?.any fun client => client.stage = .added)
  | _ => true

def Member.stalled (silent : Nat → Bool) (member : Member) : Bool :=
  member.clients.zipIdx.any fun entry =>
    entry.1.running && (entry.1.stage = .added && silent entry.2)

def Member.sealed (member : Member) : Bool :=
  member.clients.any fun client => client.holds && !client.running

def Member.finished (member : Member) : Bool :=
  member.clients.all (fun client => !client.running || client.stage = .closed) &&
    (member.loop = .idle && (member.onboarding = [] && !member.node.state.locked))

def stepsLeft : Stage → Nat
  | .received => 6
  | .granted => 5
  | .replied => 4
  | .locked => 3
  | .added => 2
  | .published => 1
  | .closed => 0

def clientLeft (client : Client GossipInfo) : Nat :=
  if client.running then stepsLeft client.stage else 0

def Loop.left : Loop → Nat
  | .idle => 0
  | .reconciled none => 1
  | .locked none => 2
  | .changed none => 3
  | .noticing _ => 4
  | .reconciled (some _) => 5
  | .locked (some _) => 6
  | .changed (some _) => 7

def Member.left (member : Member) : Nat :=
  (member.clients.map clientLeft).sum + member.loop.left + 5 * member.onboarding.length

/-- The requests that are still to be published name a port, if only `null`. -/
def Complete (member : Member) : Prop :=
  ∀ client ∈ member.clients, client.running = true → client.request.syncPort ≠ .missing

variable {member after : Member} {label : ThreadLabel}

theorem left_advance {client changed : Client GossipInfo} {node nodeAfter : GossipNode}
    (advances : client.advance gossipModule node = some (changed, nodeAfter)) :
    clientLeft changed < clientLeft client := by
  have hrunning : client.running = true := by
    by_contra hdead
    rw [Client.advance, if_neg hdead] at advances
    cases advances
  cases advances_of_advance advances with
  | refused received status => simp [clientLeft, hrunning, received, stepsLeft]
  | granted received new foreign => simp [clientLeft, hrunning, received, stepsLeft]
  | replied granted known => simp [clientLeft, hrunning, granted, stepsLeft]
  | locked replied free => simp [clientLeft, hrunning, replied, stepsLeft]
  | added locked => simp [clientLeft, hrunning, locked, stepsLeft]
  | published added complete => simp [clientLeft, hrunning, added, stepsLeft]
  | raised added complete raises => cases raises
  | released published => simp [clientLeft, hrunning, published, stepsLeft]
  | crashed =>
      have hopen : client.stage ≠ .closed := by
        intro hclosed
        simp [Client.advance, hrunning, hclosed] at advances
      cases hstage : client.stage <;>
        first
          | exact absurd hstage hopen
          | simp [clientLeft, Client.crashed, hrunning, hstage, stepsLeft]

theorem left_next (steady : Steady member) (finishes : label.finishes = true)
    (step : member.next label = some after) :
    after.left < member.left := by
  cases label with
  | accept | crash | receive | sendFails | publishOwn | leave => cases finishes
  | onboarded index raises =>
      obtain ⟨msg, hmsg, step⟩ := Option.bind_eq_some_iff.mp step
      split at step
      · rename_i hidle
        cases step
        have hlength := List.length_eraseIdx_of_lt (List.getElem?_eq_some_iff.mp hmsg).1
        have hpositive := (List.getElem?_eq_some_iff.mp hmsg).1
        cases raises <;> simp only [Member.left, hidle, hlength, Loop.left] <;> grind
      · cases step
  | client index =>
      obtain ⟨client, hclient, step⟩ := Option.bind_eq_some_iff.mp step
      obtain ⟨⟨changed, node⟩, hadvance, step⟩ := Option.bind_eq_some_iff.mp step
      cases step
      have hsum := sum_map_set clientLeft hclient changed
      have hlower := left_advance hadvance
      unfold Member.left
      dsimp only
      omega
  | acquire =>
      cases turns_of_next rfl step with
      | @acquires next changed free => cases next <;> simp [Member.left, changed, Loop.left]
  | reconcile =>
      cases turns_of_next rfl step with
      | @reconciles next _ locked run => cases next <;> simp [Member.left, locked, Loop.left]
      | raises run =>
          rw [run_reconcile steady.keyed steady.foreign] at run
          cases run
  | release =>
      cases turns_of_next rfl step with
      | @releases next reconciled =>
          cases next <;> simp [Member.left, reconciled, Loop.left, Loop.afterPass]
  | notice =>
      cases turns_of_next rfl step with
      | notices noticing _ _ => simp [Member.left, noticing, Loop.left]
      | passes noticing => simp [Member.left, noticing, Loop.left]

theorem advance_unsealed {client changed : Client GossipInfo} {node nodeAfter : GossipNode}
    (present : client.running = true → client.request.syncPort ≠ .missing)
    (advances : client.advance gossipModule node = some (changed, nodeAfter)) :
    (changed.holds && !changed.running) = false ∧ changed.request = client.request := by
  have hrunning : client.running = true := by
    by_contra hdead
    rw [Client.advance, if_neg hdead] at advances
    cases advances
  obtain ⟨change, hchange⟩ := Request.change_of_syncPort (present hrunning)
  cases advances_of_advance advances with
  | crashed =>
      refine ⟨?_, rfl⟩
      cases hstage : client.stage with
      | added =>
          simp [Client.advance, hrunning, hstage, hchange, gossipModule, Client.crashed] at advances
      | locked => simp [Client.advance, hrunning, hstage, Client.crashed] at advances
      | published => simp [Client.advance, hrunning, hstage, Client.crashed] at advances
      | received | granted | replied | closed =>
          simp [Client.holds, Client.crashed, hstage]
  | raised added complete raises => cases raises
  | refused | granted | replied | locked | added | published | released => simp [hrunning]

theorem unsealed_next (complete : Complete member) (unsealed : member.sealed = false)
    (finishes : label.finishes = true) (step : member.next label = some after) :
    Complete after ∧ after.sealed = false := by
  cases label with
  | accept | crash | receive | sendFails | publishOwn | leave => cases finishes
  | client index =>
      obtain ⟨client, hclient, step⟩ := Option.bind_eq_some_iff.mp step
      obtain ⟨⟨changed, node⟩, hadvance, step⟩ := Option.bind_eq_some_iff.mp step
      cases step
      have hmem := List.mem_of_getElem? hclient
      obtain ⟨hholds, hrequest⟩ := advance_unsealed (complete client hmem) hadvance
      constructor
      · intro found hfound hrunning
        rcases List.mem_or_eq_of_mem_set hfound with hold | rfl
        · exact complete found hold hrunning
        · rw [hrequest]
          refine complete client hmem ?_
          by_contra hdead
          rw [Client.advance, if_neg hdead] at hadvance
          cases hadvance
      · refine List.any_eq_false.mpr fun found hfound => ?_
        rcases List.mem_or_eq_of_mem_set hfound with hold | rfl
        · exact List.any_eq_false.mp unsealed found hold
        · rw [hholds]
          exact Bool.false_ne_true
  | acquire | reconcile | release | notice | onboarded =>
      have hclients := (turns_of_next rfl step).clients
      unfold Complete Member.sealed
      rw [hclients]
      exact ⟨complete, unsealed⟩

theorem advance_enabled (client : Client GossipInfo) (node : GossipNode)
    (running : client.running = true) (open_ : client.stage ≠ .closed)
    (waits : client.stage = .replied → node.state.locked = false) :
    client.advance gossipModule node ≠ none := by
  unfold Client.advance
  rw [if_pos running]
  cases hstage : client.stage with
  | received =>
      dsimp only
      split
      · exact Option.some_ne_none _
      · split <;> exact Option.some_ne_none _
  | granted =>
      dsimp only
      split <;> exact Option.some_ne_none _
  | replied =>
      dsimp only
      rw [waits hstage]
      exact Option.some_ne_none _
  | added =>
      dsimp only
      split
      · exact Option.some_ne_none _
      · split <;> exact Option.some_ne_none _
  | locked | published => exact Option.some_ne_none _
  | closed => exact absurd hstage open_

theorem client_none {index : Nat} {client : Client GossipInfo}
    (found : member.clients[index]? = some client) (stuck : member.next (.client index) = none) :
    client.advance gossipModule member.node = none := by
  simp only [Member.next, found, Option.bind_eq_bind, Option.bind_some,
    Option.bind_eq_none_iff] at stuck
  cases hadvance : client.advance gossipModule member.node with
  | none => rfl
  | some pair => cases stuck pair hadvance

theorem hears_of_unstalled {silent : Nat → Bool} (unstalled : member.stalled silent = false)
    {index : Nat} {client : Client GossipInfo} (found : member.clients[index]? = some client)
    (running : client.running = true) : member.hears silent (.client index) = true := by
  have hentry : (client, index) ∈ member.clients.zipIdx :=
    List.mk_mem_zipIdx_iff_getElem?.mpr found
  have hany := List.any_eq_false.mp unstalled _ hentry
  simp only [running, Bool.true_and, Bool.and_eq_true, decide_eq_true_eq, not_and] at hany
  simp only [Member.hears, found, Option.any_some, Bool.not_eq_true', Bool.and_eq_false_iff,
    decide_eq_false_iff_not]
  by_cases hstage : client.stage = .added
  · exact .inl (Bool.eq_false_iff.mpr (hany hstage))
  · exact .inr hstage

/-- Where no step is left, whoever holds the lock is dead or waits for its client, or nobody
does. -/
theorem free_of_rest {silent : Nat → Bool} (steady : Steady member)
    (unsealed : member.sealed = false) (unstalled : member.stalled silent = false)
    (rests : ∀ label, label.finishes = true → member.hears silent label = true →
      member.next label = none) : member.node.state.locked = false := by
  by_contra hlocked
  have hlock := steady.lock
  rw [Bool.eq_true_of_not_eq_false hlocked, Bool.toNat_true] at hlock
  cases hloop : member.loop with
  | locked next =>
      have hnone := rests .reconcile rfl rfl
      simp only [Member.next, hloop, run_reconcile steady.keyed steady.foreign] at hnone
      cases hnone
  | reconciled next =>
      have hnone := rests .release rfl rfl
      simp [Member.next, hloop] at hnone
  | idle | changed | noticing =>
      rw [hloop] at hlock
      have hholder : 0 < member.clients.countP Client.holds := by
        have hone : holders Client.holds member.clients = 1 := hlock
        unfold holders at hone
        omega
      obtain ⟨client, hclient, hholds⟩ := List.countP_pos_iff.mp hholder
      have hrunning : client.running = true := by
        have hany := List.any_eq_false.mp unsealed client hclient
        simpa [hholds] using hany
      obtain ⟨index, hindex⟩ := List.mem_iff_getElem?.mp hclient
      refine advance_enabled client member.node hrunning ?_ ?_
        (client_none hindex (rests (.client index) rfl
          (hears_of_unstalled unstalled hindex hrunning)))
      · intro hclosed
        simp [Client.holds, hclosed] at hholds
      · intro hreplied
        simp [Client.holds, hreplied] at hholds

theorem finished_of_rest {silent : Nat → Bool} (steady : Steady member)
    (unsealed : member.sealed = false) (unstalled : member.stalled silent = false)
    (rests : ∀ label, label.finishes = true → member.hears silent label = true →
      member.next label = none) : member.finished = true := by
  have hfree := free_of_rest steady unsealed unstalled rests
  have hidle : member.loop = .idle := by
    cases hloop : member.loop with
    | idle => rfl
    | changed next =>
        have hnone := rests .acquire rfl rfl
        simp [Member.next, hloop, hfree] at hnone
    | locked next =>
        have hnone := rests .reconcile rfl rfl
        simp only [Member.next, hloop, run_reconcile steady.keyed steady.foreign] at hnone
        cases hnone
    | reconciled next =>
        have hnone := rests .release rfl rfl
        simp [Member.next, hloop] at hnone
    | noticing msg =>
        have hnone := rests .notice rfl rfl
        simp only [Member.next, hloop] at hnone
        split at hnone <;> cases hnone
  have hclients : ∀ client ∈ member.clients, client.running = true → client.stage = .closed := by
    intro client hclient hrunning
    obtain ⟨index, hindex⟩ := List.mem_iff_getElem?.mp hclient
    by_contra hopen
    exact advance_enabled client member.node hrunning hopen (fun _ => hfree)
      (client_none hindex (rests (.client index) rfl
        (hears_of_unstalled unstalled hindex hrunning)))
  have honboarding : member.onboarding = [] := by
    by_contra hwaits
    obtain ⟨msg, rest, hlist⟩ := List.exists_cons_of_ne_nil hwaits
    have hnone := rests (.onboarded 0 true) rfl rfl
    simp [Member.next, hlist, hidle] at hnone
  unfold Member.finished
  rw [hidle, hfree, honboarding, Bool.and_eq_true, List.all_eq_true]
  refine ⟨fun client hclient => ?_, rfl⟩
  cases hrunning : client.running with
  | false => rfl
  | true => simp [hclients client hclient hrunning]

theorem sealed_next (sealed : member.sealed = true) (step : member.next label = some after) :
    after.sealed = true := by
  obtain ⟨client, hclient, hdead⟩ := List.any_eq_true.mp sealed
  have hnotRunning : client.running = false := by
    cases hrunning : client.running with
    | false => rfl
    | true => simp [hrunning] at hdead
  have hkept {index : Nat} {changed other : Client GossipInfo}
      (found : member.clients[index]? = some other)
      (same : other = client → (changed.holds && !changed.running) = true) :
      (member.clients.set index changed).any (fun client => client.holds && !client.running) =
        true := by
    rcases thread_set_stays found hclient changed with heq | hmem
    · exact List.any_eq_true.mpr ⟨changed, thread_set_mem found changed, same heq.symm⟩
    · exact List.any_eq_true.mpr ⟨client, hmem, hdead⟩
  cases label with
  | accept request =>
      cases step
      exact List.any_eq_true.mpr ⟨client, List.mem_append_left _ hclient, hdead⟩
  | client index =>
      obtain ⟨other, hother, step⟩ := Option.bind_eq_some_iff.mp step
      obtain ⟨⟨changed, node⟩, hadvance, step⟩ := Option.bind_eq_some_iff.mp step
      cases step
      refine hkept hother fun hsame => ?_
      rw [hsame, Client.advance, if_neg (by simp [hnotRunning])] at hadvance
      cases hadvance
  | crash index =>
      obtain ⟨other, hother, step⟩ := Option.bind_eq_some_iff.mp step
      cases step
      refine hkept hother fun hsame => ?_
      have hholds : client.holds = true := (Bool.and_eq_true _ _ ▸ hdead).1
      have hsameHolds : other.crashed.holds = other.holds := rfl
      rw [hsameHolds, hsame, hholds]
      rfl
  | receive | acquire | reconcile | release | notice | onboarded | sendFails | publishOwn | leave =>
      have hclients := (turns_of_next rfl step).clients
      unfold Member.sealed
      rw [hclients]
      exact sealed

theorem locked_of_holds (steady : Steady member) {client : Client GossipInfo}
    (mem : client ∈ member.clients) (holds : client.holds = true) :
    member.node.state.locked = true := by
  have hpositive : 0 < holders Client.holds member.clients :=
    List.countP_pos_iff.mpr ⟨client, mem, holds⟩
  have hlock := steady.lock
  cases hlocked : member.node.state.locked with
  | true => rfl
  | false =>
      rw [hlocked, Bool.toNat_false] at hlock
      omega

theorem locked_of_sealed (steady : Steady member) (sealed : member.sealed = true) :
    member.node.state.locked = true := by
  obtain ⟨client, hclient, hdead⟩ := List.any_eq_true.mp sealed
  exact locked_of_holds steady hclient (Bool.and_eq_true _ _ ▸ hdead).1

theorem locked_of_stalled {silent : Nat → Bool} (steady : Steady member)
    (stalled : member.stalled silent = true) : member.node.state.locked = true := by
  obtain ⟨⟨client, index⟩, hentry, hwaits⟩ := List.any_eq_true.mp stalled
  simp only [Bool.and_eq_true, decide_eq_true_eq] at hwaits
  have hholds : client.holds = true := by simp [Client.holds, hwaits.2.1]
  exact locked_of_holds steady (List.mem_of_getElem? (List.mk_mem_zipIdx_iff_getElem?.mp hentry))
    hholds

def Member.heldBy (position : Nat) (member : Member) : Prop :=
  ∃ client, member.clients[position]? = some client ∧ client.holds = true

theorem heldBy_next {position : Nat} (held : member.heldBy position)
    (waits : label ≠ .client position) (step : member.next label = some after) :
    after.heldBy position := by
  obtain ⟨client, hclient, hholds⟩ := held
  cases label with
  | accept request =>
      cases step
      refine ⟨client, ?_, hholds⟩
      exact (List.getElem?_append_left (List.getElem?_eq_some_iff.mp hclient).1).trans hclient
  | client index =>
      obtain ⟨other, hother, step⟩ := Option.bind_eq_some_iff.mp step
      obtain ⟨⟨changed, node⟩, hadvance, step⟩ := Option.bind_eq_some_iff.mp step
      cases step
      have hne : index ≠ position := by
        rintro rfl
        exact waits rfl
      exact ⟨client, (List.getElem?_set_ne hne).trans hclient, hholds⟩
  | crash index =>
      obtain ⟨other, hother, step⟩ := Option.bind_eq_some_iff.mp step
      cases step
      by_cases hsame : index = position
      · subst hsame
        obtain rfl := Option.some.inj (hother.symm.trans hclient)
        exact ⟨other.crashed, List.getElem?_set_self (List.getElem?_eq_some_iff.mp hclient).1,
          hholds⟩
      · exact ⟨client, (List.getElem?_set_ne hsame).trans hclient, hholds⟩
  | receive | acquire | reconcile | release | notice | onboarded | sendFails | publishOwn | leave =>
      have hclients := (turns_of_next rfl step).clients
      exact ⟨client, hclients ▸ hclient, hholds⟩

theorem kept_world {inv : Member → Prop} {ok : ThreadLabel → Prop} {world later : World}
    {index : Nat} (keeps : ∀ member after thread, inv member → ok thread →
      member.next thread = some after → inv after) (receives : ∀ msg, ok (.receive msg))
    (mem : world.members[index]? = some member) (start : inv member)
    (run : Run World.next (fun _ label => ∀ thread, label = .thread index thread → ok thread)
      world later) : ∃ same, later.members[index]? = some same ∧ inv same := by
  refine Run.invariant (fun world : World => ∃ same, world.members[index]? = some same ∧
    inv same) ⟨member, mem, start⟩ ?_ run
  rintro state label after - ⟨same, hsame, hinv⟩ hok step
  have hput {place : Nat} {found changed : Member} {thread : ThreadLabel}
      (hfound : state.members[place]? = some found) (hthread : place = index → ok thread)
      (hnext : found.next thread = some changed) :
      ∃ same, (state.put place changed).members[index]? = some same ∧ inv same := by
    by_cases hplace : place = index
    · subst hplace
      obtain rfl := Option.some.inj (hsame.symm.trans hfound)
      exact ⟨changed, List.getElem?_set_self (List.getElem?_eq_some_iff.mp hfound).1,
        keeps _ _ _ hinv (hthread rfl) hnext⟩
    · exact ⟨same, (List.getElem?_set_ne hplace).trans hsame, hinv⟩
  cases label with
  | thread place thread =>
      obtain ⟨found, hfound, step⟩ := Option.bind_eq_some_iff.mp step
      obtain ⟨changed, hchanged, step⟩ := Option.bind_eq_some_iff.mp step
      split at step
      · cases step
      · cases step
        exact hput hfound (fun hplace => hok thread (by rw [hplace])) hchanged
  | receive place position =>
      obtain ⟨found, hfound, step⟩ := Option.bind_eq_some_iff.mp step
      obtain ⟨msg, hmsg, step⟩ := Option.bind_eq_some_iff.mp step
      obtain ⟨changed, hchanged, step⟩ := Option.bind_eq_some_iff.mp step
      cases step
      exact hput hfound (fun _ => receives msg) hchanged
  | emit place departure =>
      obtain ⟨found, hfound, step⟩ := Option.bind_eq_some_iff.mp step
      split at step
      · cases step
        exact ⟨same, hsame, hinv⟩
      · cases step
  | join place position =>
      obtain ⟨found, hfound, step⟩ := Option.bind_eq_some_iff.mp step
      obtain ⟨client, hclient, step⟩ := Option.bind_eq_some_iff.mp step
      obtain ⟨ticket, hticket, step⟩ := Option.bind_eq_some_iff.mp step
      cases step
      refine ⟨same, ?_, hinv⟩
      exact (List.getElem?_append_left (List.getElem?_eq_some_iff.mp hsame).1).trans hsame

def Member.barred (member : Member) : Prop :=
  member.node.state.locked = true ∧ member.next .acquire = none ∧
    ∀ client ∈ member.clients, client.stage = .replied →
      client.advance gossipModule member.node = none

theorem barred_of_locked (locked : member.node.state.locked = true) : member.barred := by
  refine ⟨locked, ?_, ?_⟩
  · simp only [Member.next]
    split
    · rw [locked]
      rfl
    · rfl
  · intro client _ hreplied
    unfold Client.advance
    rw [hreplied]
    simp [locked]

/-- Whatever has happened: if the requests at work name their ports, then what a node has
begun ends after boundedly many of its steps, in any order and whichever clients never
answer, and ends with everything done and the lock free exactly if no handler has died with
the lock and none waits for a silent client. If one has died, the lock is taken at that
node for ever, and a handler that waits keeps it until it goes on. -/
theorem lock_progress (config : Config) {world : World} {index : Nat}
    (run : Run World.next always (World.create config) world)
    (mem : world.members[index]? = some member) :
    (Complete member → ∀ silent labels last,
      replay Member.next (fun member label => label.finishes && member.hears silent label)
          member labels = some last →
        labels.length ≤ member.left ∧
          ((∀ label, label.finishes = true → last.hears silent label = true →
              last.next label = none) →
            (last.finished = true ↔ member.sealed = false ∧ last.stalled silent = false))) ∧
    (member.sealed = true → ∀ later, Run World.next always world later →
      ∃ same, later.members[index]? = some same ∧ same.barred) ∧
    ∀ position, member.heldBy position → ∀ later,
      Run World.next (fun _ label => label ≠ .thread index (.client position)) world later →
        ∃ same, later.members[index]? = some same ∧ same.barred := by
  have hfine (later : World) (run : Run World.next always (World.create config) later) :
      later.Fine := Run.invariant World.Fine (World.Fine.create config)
    (fun _ _ _ _ hfine _ hstep => hfine.next hstep) run
  have hsteady := (hfine world run).members member (List.mem_of_getElem? mem)
  have hkeeps {state after : Member} {label : ThreadLabel} (steady : Steady state)
      (finishes : label.finishes = true) (step : state.next label = some after) :
      Steady after := steady.next (by rintro msg rfl; cases finishes) step
  have hlater {later : World} {ok : World → WorldLabel → Prop}
      (onward : Run World.next ok world later) {same : Member}
      (hsame : later.members[index]? = some same) : Steady same := by
    have hreached : Run World.next always (World.create config) later :=
      run.trans (onward.mono fun _ _ _ => trivial)
    exact (hfine later hreached).members same (List.mem_of_getElem? hsame)
  refine ⟨?_, ?_, ?_⟩
  · intro hcomplete silent labels last replayed
    constructor
    · have hlength := length_le_of_replay Steady Member.left
        (fun _ _ _ steady goes step => ⟨hkeeps steady (Bool.and_eq_true _ _ ▸ goes).1 step,
          left_next steady (Bool.and_eq_true _ _ ▸ goes).1 step⟩) hsteady replayed
      exact (Nat.le_add_right _ _).trans hlength
    · intro rests
      have hrun : Run Member.next (fun _ label => label.finishes = true) member last :=
        run_of_replay (fun _ _ goes => (Bool.and_eq_true _ _ ▸ goes).1) replayed
      have hlast : Steady last := Run.invariant Steady hsteady
        (fun _ _ _ _ steady finishes step => hkeeps steady finishes step) hrun
      constructor
      · intro hfinished
        have hfree : last.node.state.locked = false := by
          simp only [Member.finished, Bool.and_eq_true, Bool.not_eq_true'] at hfinished
          exact hfinished.2.2.2
        constructor
        · by_contra hsealed
          have hsealedLast : last.sealed = true := Run.invariant
            (fun state => state.sealed = true) (Bool.eq_true_of_not_eq_false hsealed)
            (fun _ _ _ _ sealed _ step => sealed_next sealed step) hrun
          rw [locked_of_sealed hlast hsealedLast] at hfree
          cases hfree
        · by_contra hstalled
          rw [locked_of_stalled hlast (Bool.eq_true_of_not_eq_false hstalled)] at hfree
          cases hfree
      · rintro ⟨hunsealed, hunstalled⟩
        have hboth : Complete last ∧ last.sealed = false := Run.invariant
          (fun state => Complete state ∧ state.sealed = false) ⟨hcomplete, hunsealed⟩
          (fun _ _ _ _ both finishes step => unsealed_next both.1 both.2 finishes step) hrun
        exact finished_of_rest hlast hboth.2 hunstalled rests
  · intro hsealed later onward
    obtain ⟨same, hsame, hstays⟩ := kept_world
      (fun _ _ _ sealed (_ : True) step => sealed_next sealed step) (fun _ => trivial) mem
      hsealed (onward.mono fun _ _ _ _ _ => trivial)
    exact ⟨same, hsame, barred_of_locked (locked_of_sealed (hlater onward hsame) hstays)⟩
  · intro position held later onward
    obtain ⟨same, hsame, client, hclient, hholds⟩ := kept_world
      (fun _ _ _ held waits step => heldBy_next held waits step) (fun _ h => by cases h) mem held
      (onward.mono fun _ _ apart thread hthread hgoes => apart (by rw [hthread, hgoes]))
    exact ⟨same, hsame, barred_of_locked
      (locked_of_holds (hlater onward hsame) (List.mem_of_getElem? hclient) hholds)⟩

instance (member : Member) : Decidable (Complete member) :=
  inferInstanceAs (Decidable (∀ client ∈ member.clients, _ → _))

def lockTaken : List WorldLabel :=
  [.thread 0 (.accept ⟨"JOIN", "10.0.0.2", "kb", "198.51.100.2", 51820, .port 6888⟩),
    .thread 0 (.client 0), .thread 0 (.client 0), .thread 0 (.client 0)]

def worldAfter (labels : List WorldLabel) : World :=
  (replay World.next (fun _ _ => true) (World.create founder) labels).getD (World.create founder)

theorem lock_progress_lockTaken :
    (∃ member : Member, member.sealed = false ∧ member.left = 3 ∧ ∀ silent labels last,
      replay Member.next (fun member label => label.finishes && member.hears silent label)
          member labels = some last →
        labels.length ≤ member.left ∧
          ((∀ label, label.finishes = true → last.hears silent label = true →
              last.next label = none) →
            (last.finished = true ↔ member.sealed = false ∧ last.stalled silent = false))) ∧
    (∀ later, Run World.next always (worldAfter (lockTaken ++ [.thread 0 (.crash 0)])) later →
      ∃ same, later.members[0]? = some same ∧ same.barred) ∧
    ∀ later, Run World.next (fun _ label => label ≠ .thread 0 (.client 0))
      (worldAfter lockTaken) later → ∃ same, later.members[0]? = some same ∧ same.barred := by
  have hrun (labels : List WorldLabel) (replayed : replay World.next (fun _ _ => true)
      (World.create founder) labels = some (worldAfter labels)) :
      Run World.next always (World.create founder) (worldAfter labels) :=
    run_of_replay (fun _ _ _ => trivial) replayed
  have htaken := hrun lockTaken (by decide +kernel)
  let member := (worldAfter lockTaken).members.get ⟨0, by decide +kernel⟩
  have hmem : (worldAfter lockTaken).members[0]? = some member := by decide +kernel
  refine ⟨⟨member, by decide +kernel, by decide +kernel,
    (lock_progress founder htaken hmem).1 (by decide +kernel)⟩, ?_, ?_⟩
  · let dead := (worldAfter (lockTaken ++ [.thread 0 (.crash 0)])).members.get
      ⟨0, by decide +kernel⟩
    have hdead : (worldAfter (lockTaken ++ [.thread 0 (.crash 0)])).members[0]? = some dead := by
      decide +kernel
    exact (lock_progress founder (hrun _ (by decide +kernel)) hdead).2.1 (by decide +kernel)
  · let handler := member.clients.get ⟨0, by decide +kernel⟩
    have hhandler : member.clients[0]? = some handler := by decide +kernel
    exact (lock_progress founder htaken hmem).2.2 0 ⟨handler, hhandler, by decide +kernel⟩

end WgBp.Gossip
