import WgBp.Dht.Node
import WgBp.Library.Transition

/-! The stored key list under calls of several nodes that interleave between any
two of their gets and sets. Every call writes back what it read, so an address
stays listed as long as no write goes out on a list read before it came in. -/
namespace WgBp.Dht.KeyList

open WgBp.Library WgBp.Library.Procedure WgBp.Library.Resumption WgBp.Library.Transition WgBp.Model

variable {n : Nat}

/-- Ghosts of a call: the key list it read last, and whether it has written one. -/
structure Trace where
  seen : Option (List Ip)
  written : Bool
  deriving DecidableEq

def Trace.follow : Trace → (op : Op) → op.Answer → Trace
  | trace, .getKeyList, answer => { trace with seen := answer }
  | trace, .setKeyList _, _ => { trace with written := true }
  | trace, _, _ => trace

/-- A call under way, or over; `publishes` is the address of a `publishChange`. -/
structure Call (n : Nat) where
  node : Fin n
  publishes : Option Ip
  program : Program Unit
  trace : Trace

structure World (n : Nat) where
  store : Store
  nodes : Fin n → DhtNode
  calls : List (Call n)

inductive Label (n : Nat) where
  | publish (node : Fin n) (change : Change)
  | check (node : Fin n)
  | step (call : Nat)

/-- A call that has to wait for the lock at its start is one that has not started
yet, so its failed attempt may as well end it. -/
def Call.advance (call : Call n) (site : Site) : Option (Call n × Site) :=
  match call.program with
  | .call op next =>
    match (handle op).run site with
    | .ok answer after =>
      some ({ call with program := next answer, trace := call.trace.follow op answer }, after)
    | .error error after => some ({ call with program := .raise error }, after)
  | _ => none

def World.site (world : World n) (node : Fin n) : Site := ⟨world.store, world.nodes node⟩

def World.put (world : World n) (index : Nat) (call : Call n) (site : Site) : World n where
  store := site.store
  nodes := Function.update world.nodes call.node site.node
  calls := world.calls.set index call

def next (world : World n) : Label n → Option (World n)
  | .publish node change => some { world with
      calls := world.calls ++
        [⟨node, some change.virtualIp, publishChange change, ⟨none, false⟩⟩] }
  | .check node => some { world with
      calls := world.calls ++ [⟨node, none, checkForChanges, ⟨none, false⟩⟩] }
  | .step index => do
    let call ← world.calls[index]?
    let (after, site) ← call.advance (world.site call.node)
    some (world.put index after site)

theorem Call.advance_program (call : Call n) (site : Site) :
    (call.advance site).map (fun result => (result.1.program, result.2)) =
      Resumption.advance handle call.program site := by
  unfold Call.advance Resumption.advance
  cases call.program with
  | done value => rfl
  | raise error => rfl
  | call op next =>
      dsimp only
      cases (handle op).run site <;> rfl

/-- Alone, a call does step by step what it does at once. -/
theorem call_alone {world : World n} {index : Nat} {call : Call n}
    (member : world.calls[index]? = some call) :
    ∃ after, Run next always world after ∧
      ∃ last, after.calls[index]? = some last ∧ last.node = call.node ∧
        (last.program, after.site call.node) =
          ofResult ((call.program.run handle).run (world.site call.node)) := by
  have halone := uninterrupted handle call.program (world.site call.node)
  generalize ofResult ((call.program.run handle).run (world.site call.node)) = goal at halone ⊢
  induction halone with
  | refl => exact ⟨world, .refl world, call, member, rfl, rfl⟩
  | tail hsteps hstep ih =>
      obtain ⟨mid, hrun, last, hlast, hnode, hpair⟩ := ih
      rw [← hpair, ← hnode, ← Call.advance_program] at hstep
      obtain ⟨⟨moved, site⟩, hadvance, hresult⟩ := Option.map_eq_some_iff.mp hstep
      have hmoved : moved.node = last.node := by
        unfold Call.advance at hadvance
        split at hadvance
        · split at hadvance <;> cases hadvance <;> rfl
        · cases hadvance
      have hnext : next mid (.step index) = some (mid.put index moved site) := by
        simp [next, hlast, hadvance]
      have hlength : index < mid.calls.length := (List.getElem?_eq_some_iff.mp hlast).1
      refine ⟨_, .step hrun trivial hnext, moved, ?_, hmoved.trans hnode, ?_⟩
      · simp [World.put, hlength]
      · rw [← hresult, ← hnode, ← hmoved]
        simp [World.put, World.site]

def World.keys (world : World n) : List Ip := world.store.keyList.getD []

/-- A write of the key list keeps what was read and adds what is published. -/
def keyListMonitor (publishes : Option Ip) : Monitor Op Op.Answer Trace where
  allowed trace op :=
    match op with
    | .setKeyList keys =>
      ∀ ip, ip ∈ trace.seen.getD [] ∨ ip ∈ publishes → ip ∈ keys.getD []
    | _ => True
  after := Trace.follow

def Writes (publishes : Option Ip) (trace : Trace) (_ : Unit) : Prop :=
  publishes.isSome = true → trace.written = true

theorem publishChange_obeys (change : Change) :
    Obeys (keyListMonitor (some change.virtualIp)) (Writes (some change.virtualIp)) ⟨none, false⟩
      (publishChange change) := by
  refine ⟨trivial, fun _ => ⟨trivial, ?_⟩⟩
  intro keyList
  cases keyList with
  | none => trivial
  | some keys =>
      refine ⟨?_, fun _ => ⟨trivial, ?_⟩⟩
      · intro ip hip
        have hlisted : ip ∈ keys ∨ ip = change.virtualIp := by
          rcases hip with h | h
          · exact .inl h
          · exact .inr (Option.mem_some_iff.mp h).symm
        rw [Option.getD_some]
        split
        · rename_i hpresent
          rcases hlisted with h | rfl
          · exact h
          · exact hpresent
        · rcases hlisted with h | rfl <;> simp [*]
      · intro old
        cases old with
        | none => trivial
        | some old => exact ⟨trivial, fun _ => ⟨trivial, fun _ => ⟨trivial, fun _ _ => rfl⟩⟩⟩

theorem checkForChanges_obeys :
    Obeys (keyListMonitor none) (Writes none) ⟨none, false⟩ checkForChanges := by
  refine ⟨trivial, fun _ => ⟨trivial, fun keyList => ⟨?_, fun _ => ?_⟩⟩⟩
  · intro ip hip
    rcases hip with h | h
    · exact h
    · cases h
  · cases keyList with
    | none => trivial
    | some keys =>
        have hloop : Obeys (keyListMonitor none) (fun _ _ => True) ⟨some keys, true⟩
            (keys.foldlM checkEntry none) := by
          refine Obeys.foldlM keys ?_ trivial
          intro trace existingPeer key _
          exact ⟨trivial, fun _ => ⟨trivial, fun _ => trivial⟩⟩
        change Obeys _ _ _ (keys.foldlM checkEntry none >>= fun _ => access .lockRelease)
        refine (hloop.mono ?_).bind
        intro trace existingPeer _
        exact ⟨trivial, fun _ h => by cases h⟩

theorem handle_keyList {op : Op} (other : ∀ keys, op ≠ .setKeyList keys) (site : Site) :
    (final ((handle op).run site)).store.keyList = site.store.keyList := by
  have hnode {α : Type} (body : EStateM Halt DhtNode α) :
      (final ((onNode body).run site)).store.keyList = site.store.keyList := by
    unfold onNode
    rw [final_onPart]
  cases op with
  | setKeyList keys => exact absurd rfl (other keys)
  | setCurrent _ => exact hnode _
  | getCurrent => exact hnode _
  | lockAquire => exact hnode _
  | lockRelease => exact hnode _
  | checkKey _ _ _ => exact hnode _
  | _ => rfl

def Call.finished (call : Call n) : Bool :=
  match call.program with
  | .done _ => true
  | _ => false

/-- Every address whose publication has returned is in the stored list. -/
def Listed (world : World n) : Prop :=
  ∀ call ∈ world.calls, call.finished = true → ∀ ip ∈ call.publishes, ip ∈ world.keys

instance (world : World n) : Decidable (Listed world) :=
  inferInstanceAs (Decidable (∀ call ∈ world.calls, _ → ∀ ip ∈ call.publishes, _ ∈ _))

def Call.writes (call : Call n) : Bool :=
  match call.program with
  | .call (.setKeyList _) _ => true
  | _ => false

/-- A write of the key list goes out while every stored address was in the list
the call read, or is the address the call publishes. -/
def upToDate (world : World n) : Label n → Bool
  | .step index =>
    (world.calls[index]?).all fun call => !call.writes ||
      world.keys.all fun ip => ip ∈ call.trace.seen.getD [] || call.publishes = some ip
  | _ => true

structure Keeping (keys : List Ip) (call : Call n) : Prop where
  obeys : Obeys (keyListMonitor call.publishes) (Writes call.publishes) call.trace call.program
  written : call.trace.written = true → ∀ ip ∈ call.publishes, ip ∈ keys

theorem Keeping.mono {keys keys' : List Ip} {call : Call n} (keeping : Keeping keys call)
    (sub : keys ⊆ keys') : Keeping keys' call where
  obeys := keeping.obeys
  written := fun h ip hip => sub (keeping.written h ip hip)

theorem Keeping.advance {world : World n} {call after : Call n} {site : Site}
    (keeping : Keeping world.keys call)
    (ok : ∀ keys rest, call.program = .call (.setKeyList keys) rest →
      ∀ ip ∈ world.keys, ip ∈ call.trace.seen.getD [] ∨ ip ∈ call.publishes)
    (step : call.advance (world.site call.node) = some (after, site)) :
    world.keys ⊆ site.store.keyList.getD [] ∧ Keeping (site.store.keyList.getD []) after := by
  obtain ⟨hobeys, hwritten⟩ := keeping
  unfold Call.advance at step
  cases hprogram : call.program with
  | done value => rw [hprogram] at step; cases step
  | raise error => rw [hprogram] at step; cases step
  | call op rest =>
      rw [hprogram] at step hobeys
      obtain ⟨hallowed, hrest⟩ := hobeys
      dsimp only at step
      by_cases hset : ∃ keys, op = .setKeyList keys
      · obtain ⟨keys, rfl⟩ := hset
        cases step
        have hgrows : world.keys ⊆ keys.getD [] :=
          fun ip hip => hallowed ip (ok keys rest hprogram ip hip)
        exact ⟨hgrows, hrest (), fun _ ip hip => hallowed ip (.inr hip)⟩
      · have hsame := handle_keyList (fun keys h => hset ⟨keys, h⟩) (world.site call.node)
        cases hop : (handle op).run (world.site call.node) with
        | ok answer state =>
            rw [hop] at step hsame
            cases step
            have hkeys : site.store.keyList.getD [] = world.keys := by
              rw [← final_ok answer site, hsame]
              rfl
            rw [hkeys]
            refine ⟨List.Subset.refl _, hrest answer, ?_⟩
            have htrace : (call.trace.follow op answer).written = call.trace.written := by
              cases op with
              | setKeyList keys => exact absurd ⟨keys, rfl⟩ hset
              | _ => rfl
            dsimp only
            rw [htrace]
            exact hwritten
        | error error state =>
            rw [hop] at step hsame
            cases step
            have hkeys : site.store.keyList.getD [] = world.keys := by
              rw [final_error] at hsame
              rw [hsame]
              rfl
            rw [hkeys]
            exact ⟨List.Subset.refl _, trivial, hwritten⟩

theorem keeping_next {world after : World n} {label : Label n}
    (keeping : ∀ call ∈ world.calls, Keeping world.keys call)
    (ok : upToDate world label = true) (step : next world label = some after) :
    ∀ call ∈ after.calls, Keeping after.keys call := by
  cases label with
  | publish node change =>
      cases step
      intro call hcall
      rcases List.mem_append.mp hcall with h | h
      · exact keeping call h
      · rw [List.mem_singleton.mp h]
        exact ⟨publishChange_obeys change, by simp⟩
  | check node =>
      cases step
      intro call hcall
      rcases List.mem_append.mp hcall with h | h
      · exact keeping call h
      · rw [List.mem_singleton.mp h]
        exact ⟨checkForChanges_obeys, by simp⟩
  | step index =>
      obtain ⟨call, hcall, step⟩ := Option.bind_eq_some_iff.mp step
      obtain ⟨⟨moved, site⟩, hadvance, step⟩ := Option.bind_eq_some_iff.mp step
      cases step
      have hready : ∀ keys rest, call.program = .call (.setKeyList keys) rest →
          ∀ ip ∈ world.keys, ip ∈ call.trace.seen.getD [] ∨ ip ∈ call.publishes := by
        intro keys rest hprogram ip hip
        have hwrites : call.writes = true := by simp [Call.writes, hprogram]
        simp only [upToDate, hcall, hwrites, Option.all_some, Bool.not_true, Bool.false_or,
          List.all_eq_true] at ok
        simpa using ok ip hip
      obtain ⟨hgrows, hmoved⟩ :=
        (keeping call (List.mem_of_getElem? hcall)).advance hready hadvance
      intro other hother
      rcases List.mem_or_eq_of_mem_set hother with h | rfl
      · exact (keeping other h).mono hgrows
      · exact hmoved

theorem Keeping.listed {keys : List Ip} {call : Call n} (keeping : Keeping keys call)
    (finished : call.finished = true) {ip : Ip} (publishes : ip ∈ call.publishes) : ip ∈ keys := by
  obtain ⟨hobeys, hwritten⟩ := keeping
  unfold Call.finished at finished
  split at finished
  · rename_i value hprogram
    rw [hprogram] at hobeys
    exact hwritten (hobeys (Option.isSome_of_mem publishes)) ip publishes
  · cases finished

theorem key_list_loses_nobody (store : Store) (nodes : Fin n → DhtNode) (world : World n)
    (run : Run next (fun world label => upToDate world label = true) ⟨store, nodes, []⟩ world) :
    Listed world := by
  have hkeeping := Run.invariant (fun world : World n => ∀ call ∈ world.calls,
    Keeping world.keys call) (by simp)
    (fun _ _ _ _ keeping ok step => keeping_next keeping ok step) run
  intro call hcall hfinished ip hip
  exact (hkeeping call hcall).listed hfinished hip

/-! Two nodes of a network of two, each admitting another one. -/

def firstNode : DhtNode := ⟨.new "10.0.0.1" "ka" "198.51.100.1" 51820, ⟨1, 1⟩⟩
def secondNode : DhtNode := ⟨.new "10.0.0.2" "kb" "198.51.100.2" 51820, ⟨1, 1⟩⟩

def firstRecord : PeerRecord :=
  ⟨"10.0.0.1", "ka", "198.51.100.1", 51820, .missing, ["10.0.0.1/32"]⟩
def secondRecord : PeerRecord :=
  ⟨"10.0.0.2", "kb", "198.51.100.2", 51820, .missing, ["10.0.0.2/32"]⟩

def twoStored : Store where
  changeCheck := some 1
  keyList := some ["10.0.0.1", "10.0.0.2"]
  peers := (Dict.set ∅ "10.0.0.1" (some firstRecord)).set "10.0.0.2" (some secondRecord)

def twoNodes : Fin 2 → DhtNode
  | 0 => firstNode
  | 1 => secondNode

def thirdChange : Change := ⟨"10.0.0.3", "kc", "198.51.100.3", 51820, none, some 6881⟩
def fourthChange : Change := ⟨"10.0.0.4", "kd", "198.51.100.4", 51820, none, some 6881⟩

theorem key_list_loses_nobody_inTurn :
    ∃ world : World 2, world.keys = ["10.0.0.1", "10.0.0.2", "10.0.0.3", "10.0.0.4"] ∧
      Listed world := by
  have hreplay : (replay next upToDate ⟨twoStored, twoNodes, []⟩
      [.publish 0 thirdChange, .publish 1 fourthChange, .check 1, .step 0, .step 1, .step 0,
        .step 0, .step 1, .step 2, .step 0, .step 1, .step 1, .step 0, .step 2, .step 2]).any
      (fun world => world.keys = ["10.0.0.1", "10.0.0.2", "10.0.0.3", "10.0.0.4"]) = true := by
    decide +kernel
  obtain ⟨world, hrun, hkeys⟩ := reached_of_replay (fun _ _ h => h) hreplay
  exact ⟨world, of_decide_eq_true hkeys, key_list_loses_nobody twoStored twoNodes world hrun⟩

theorem key_list_loses_nobody_fails :
    ¬ ∀ (n : Nat) (store : Store) (nodes : Fin n → DhtNode) (world : World n),
      Run next always ⟨store, nodes, []⟩ world → Listed world := by
  intro claimed
  have hreplay : (replay next (fun _ _ => true) ⟨twoStored, twoNodes, []⟩
      [.publish 0 thirdChange, .publish 1 fourthChange, .step 0, .step 0, .step 1, .step 1,
        .step 0, .step 0, .step 0, .step 0, .step 0, .step 1]).any
      (fun world => ¬ Listed world) = true := by decide +kernel
  obtain ⟨world, hrun, hfound⟩ := reached_of_replay (fun _ _ _ => trivial) hreplay
  exact of_decide_eq_true hfound (claimed 2 twoStored twoNodes world hrun)

end WgBp.Dht.KeyList
