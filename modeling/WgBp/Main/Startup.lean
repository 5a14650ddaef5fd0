import WgBp.Discovery.Messages
import WgBp.Mq.Subscriber
import WgBp.Mq.Swarm

/-! How `main` starts the modules of a node, and what becomes of a network whose nodes are
started one after another: each joiner is told by its bootstrap node where to connect. -/
namespace WgBp.Main

open WgBp.Library WgBp.Library.Procedure WgBp.Library.Transition WgBp.Model WgBp.Discovery
open WgBp.Gossip (Config SyncGossip)
open WgBp.Mq (Address MessageQueueSync)

inductive Kind where
  | dht
  | gossip
  | mq
  deriving DecidableEq

def started : Sync → Kind × Nat
  | .dht port _ _ => (.dht, port)
  | .gossip sync => (.gossip, sync.port)
  | .mq sync => (.mq, sync.port)

/-- The DHT runs a second server on the port below. -/
def binds : Kind × Nat → List Nat
  | (.dht, port) => [port, port - 1]
  | (_, port) => [port]

def syncsOf : Synced → List Sync
  | .single sync => [sync]
  | .all syncList => syncList

def isAll : Synced → Bool
  | .single _ => false
  | .all _ => true

structure Seat where
  node : Node Synced
  seeds : List (Option Address)

def Seat.modules (seat : Seat) : List (Kind × Nat) := (syncsOf seat.node.sync).map started

def createDht (state : State) (port : Nat) : Sync :=
  let site := final (((Dht.createStore state).run Dht.handle).run
    ⟨⟨none, none, ∅⟩, ⟨state, ⟨-1, 0⟩⟩⟩)
  .dht port site.store site.node.sync

def create (sync : String) (state : State) (syncPort : Nat) : Option Seat :=
  if sync = "DHT" then some ⟨⟨state, .single (createDht state syncPort)⟩, [none]⟩
  else if sync = "Gossip" then
    some ⟨⟨state, .single (.gossip (.new state none syncPort))⟩, [none]⟩
  else if sync = "MQ" then some ⟨⟨state, .single (.mq (.new state syncPort))⟩, [none]⟩
  else if sync = "ALL" then
    let syncMq := .mq (.new state (syncPort + 2))
    let syncDht := createDht state syncPort
    let syncGossip := .gossip (.new state none (syncPort + 1))
    let syncList := [syncDht, syncGossip, syncMq]
    some ⟨⟨state.enableAllSyncMode syncList.length, .all syncList⟩, [none, none, none]⟩
  else none

def joinDht (state : State) (store : Dht.Store) (port : Nat) : Sync :=
  let site := final (((Dht.announce state).run Dht.handle).run ⟨store, ⟨state, ⟨-1, 0⟩⟩⟩)
  .dht port site.store site.node.sync

def joinMq (state : State) (seed : PeerRecord) (port : Nat) : Option Sync :=
  match seed.syncPort with
  | .port number => some (.mq (.seeded state seed number port))
  | _ => none

def seedAddress (seed : PeerRecord) : Option Address :=
  match seed.syncPort with
  | .port number => some ⟨seed.virtualIp, number⟩
  | _ => none

def dhtInfo : SyncInfo → Option Address
  | .dht syncIp syncPort => some ⟨syncIp, syncPort⟩
  | _ => none

def gossipInfo : SyncInfo → Option PeerRecord
  | .gossip _ _ syncSeed => some syncSeed
  | _ => none

def mqInfo : SyncInfo → Option PeerRecord
  | .mq syncSeed => some syncSeed
  | _ => none

def splitInfo (syncList : List SyncInfo) :
    Option Address × Option PeerRecord × Option PeerRecord :=
  (syncList.findSome? dhtInfo, syncList.findSome? gossipInfo, syncList.findSome? mqInfo)

def join (state : State) (store : Dht.Store) (syncPort : Nat) : Info → Option Seat
  | .single (.dht syncIp port) =>
    some ⟨⟨state, .single (joinDht state store syncPort)⟩, [some ⟨syncIp, port⟩]⟩
  | .single (.gossip _ _ syncSeed) =>
    some ⟨⟨state, .single (.gossip (.new state (some syncSeed) syncPort))⟩,
      [seedAddress syncSeed]⟩
  | .single (.mq syncSeed) =>
    (joinMq state syncSeed syncPort).map fun sync =>
      ⟨⟨state, .single sync⟩, [seedAddress syncSeed]⟩
  | .all infos => do
    let (dhtInfo, gossipInfo, mqInfo) := splitInfo infos
    let syncMq ← joinMq state (← mqInfo) syncPort
    let syncDht := joinDht state store (syncPort - 1)
    let syncGossip := .gossip (.new state (some (← gossipInfo)) (syncPort + 1))
    let syncList := [syncDht, syncGossip, syncMq]
    some ⟨⟨state.enableAllSyncMode syncList.length, .all syncList⟩,
      [some (← dhtInfo), seedAddress (← gossipInfo), seedAddress (← mqInfo)]⟩

def storeOf (sync : Synced) : Dht.Store :=
  ((syncsOf sync).findSome? fun
    | .dht _ store _ => some store
    | _ => none).getD ⟨none, none, ∅⟩

def admitted (node : Node Synced) (joiner : Config) : Node Synced :=
  let state := joiner.addedTo node.state
  ⟨state, node.sync.publishChange state joiner.change⟩

def bootstrapOf (node : Node Synced) : Config :=
  ⟨node.state.ip, node.state.publicKey, node.state.publicIp, node.state.publicPort, 0⟩

/-- Traffic, passes and further admissions change what the modules and the `State` hold,
but not which node and modules they are. -/
structure Alike (before after : Node Synced) : Prop where
  ip : after.state.ip = before.state.ip
  mode : after.state.allSyncMode = before.state.allSyncMode
  all : isAll after.sync = isAll before.sync
  modules : (syncsOf after.sync).map started = (syncsOf before.sync).map started

instance (before after : Node Synced) : Decidable (Alike before after) :=
  decidable_of_iff (after.state.ip = before.state.ip ∧
      after.state.allSyncMode = before.state.allSyncMode ∧ isAll after.sync = isAll before.sync ∧
        (syncsOf after.sync).map started = (syncsOf before.sync).map started)
    ⟨fun ⟨ip, mode, all, modules⟩ => ⟨ip, mode, all, modules⟩,
      fun alike => ⟨alike.ip, alike.mode, alike.all, alike.modules⟩⟩

inductive Label where
  | join (through : Nat) (joiner : Config)
  | changes (index : Nat) (node : Node Synced)

def next (seats : List Seat) : Label → Option (List Seat)
  | .join through joiner => do
    let boot ← seats[through]?
    let info ← boot.node.sync.getInfo boot.node.state.ip
    if joiner.ip ∉ boot.node.state.peers ∧ joiner.ip ≠ boot.node.state.ip then
      let state := (bootstrapOf boot.node).addedTo joiner.state
      let seat ← join state (storeOf boot.node.sync) joiner.syncPort info
      some (seats.set through { boot with node := admitted boot.node joiner } ++ [seat])
    else none
  | .changes index node => do
    let seat ← seats[index]?
    if Alike seat.node node then some (seats.set index { seat with node }) else none

/-- The record a module has of its own node, if it has one, gives the module's own port. -/
def anchored (ip : Ip) : Sync → Bool
  | .dht _ _ _ => true
  | .gossip sync => (sync.peers.lookup ip).all fun record =>
    record.virtualIp = ip ∧ record.syncPort = .port sync.port
  | .mq sync => (sync.peers.lookup ip).all fun record =>
    record.virtualIp = ip ∧ record.syncPort = .port sync.port

def kinds (sync : Synced) : List Kind := (syncsOf sync).map fun sync => (started sync).1

def Seat.sockets (seat : Seat) : List Nat := seat.modules.flatMap binds

def Uniform (sync : Synced) : Prop := isAll sync = true → kinds sync = [.dht, .gossip, .mq]

/-- A joiner's modules are those of the node it was told by, and seeded with their
addresses; its messages are published at the port it asked to be subscribed at. -/
structure Follows (boot : Node Synced) (syncPort : Nat) (seat : Seat) : Prop where
  all : isAll seat.node.sync = isAll boot.sync
  kinds : kinds seat.node.sync = kinds boot.sync
  mode : seat.node.state.allSyncMode = if isAll boot.sync then 3 else 0
  sockets : seat.sockets.Nodup
  publishes : ∀ port, (Kind.mq, port) ∈ seat.modules → port = syncPort
  seeds : ∀ entry ∈ seat.modules, ∃ port, (entry, some ⟨boot.state.ip, port⟩) ∈
    seat.modules.zip seat.seeds ∧ (entry.1, port) ∈ (syncsOf boot.sync).map started

variable {boot : Node Synced} {seat : Seat} {state : State} {store : Dht.Store} {syncPort : Nat}

theorem seedAddress_of_own {ip : Ip} {port : Nat} {record : PeerRecord}
    (own : record.virtualIp = ip ∧ record.syncPort = .port port) :
    seedAddress record = some ⟨ip, port⟩ := by
  simp [seedAddress, own.1, own.2]

@[simp] theorem joinDht_started (state : State) (store : Dht.Store) (port : Nat) :
    started (joinDht state store port) = (.dht, port) := rfl

theorem joinMq_started {seed : PeerRecord} {sync : Sync}
    (joins : joinMq state seed syncPort = some sync) : started sync = (.mq, syncPort) := by
  unfold joinMq at joins
  split at joins
  · cases joins
    exact congrArg (Prod.mk Kind.mq) (Mq.connected_connects _ _).port
  · cases joins

theorem follows_single {sync : Sync} {info : Info} (single : boot.sync = .single sync)
    (anchored : anchored boot.state.ip sync = true)
    (told : (Synced.single sync).getInfo boot.state.ip = some info)
    (fresh : state.allSyncMode = 0) (port : 2 ≤ syncPort)
    (joins : join state store syncPort info = some seat) : Follows boot syncPort seat := by
  have hone {syncNow : Sync} {seed : Option Address}
      (kind : (started syncNow).1 = (started sync).1)
      (bound : (binds (started syncNow)).Nodup)
      (seeded : seed = some ⟨boot.state.ip, (started sync).2⟩)
      (publishes : (started syncNow).1 = .mq → (started syncNow).2 = syncPort) :
      Follows boot syncPort ⟨⟨state, .single syncNow⟩, [seed]⟩ := by
    refine ⟨by rw [single]; rfl, ?_, ?_, ?_, ?_, ?_⟩
    · simp [kinds, syncsOf, single, kind]
    · simp [single, isAll, fresh]
    · simpa [Seat.sockets, Seat.modules, syncsOf] using bound
    · intro port hport
      have hsame : (Kind.mq, port) = started syncNow := by
        simpa [Seat.modules, syncsOf] using hport
      rw [← hsame] at publishes
      exact publishes rfl
    · intro entry hentry
      refine ⟨(started sync).2, ?_, ?_⟩
      · simpa [Seat.modules, syncsOf, seeded] using hentry
      · have hentry : entry = started syncNow := by simpa [Seat.modules, syncsOf] using hentry
        simp [single, syncsOf, hentry, kind]
  obtain ⟨syncInfo, hinfo, rfl⟩ := Option.map_eq_some_iff.mp told
  cases sync with
  | dht bootPort bootStore bootSync =>
      cases hinfo
      cases joins
      refine hone rfl ?_ rfl (fun h => by cases h)
      rw [joinDht_started]
      simp [binds]
      omega
  | gossip sync =>
      obtain ⟨record, hrecord, rfl⟩ := Option.map_eq_some_iff.mp hinfo
      cases joins
      have hown : record.virtualIp = boot.state.ip ∧ record.syncPort = .port sync.port := by
        simpa [Main.anchored, hrecord] using anchored
      exact hone rfl (List.nodup_singleton _) (seedAddress_of_own hown) (fun h => by cases h)
  | mq sync =>
      obtain ⟨record, hrecord, rfl⟩ := Option.map_eq_some_iff.mp hinfo
      obtain ⟨syncMq, hmq, rfl⟩ := Option.map_eq_some_iff.mp joins
      have hown : record.virtualIp = boot.state.ip ∧ record.syncPort = .port sync.port := by
        simpa [Main.anchored, hrecord] using anchored
      have hstarted := joinMq_started hmq
      exact hone (by rw [hstarted]; rfl) (by rw [hstarted]; exact List.nodup_singleton _)
        (seedAddress_of_own hown) (by simp [hstarted])

theorem syncsOf_all {syncList : List Sync}
    (kinds : syncList.map (fun sync => (started sync).1) = [.dht, .gossip, .mq]) :
    ∃ port store sync gossip mq,
      syncList = [.dht port store sync, .gossip gossip, .mq mq] := by
  obtain ⟨first, rest, rfl, hfirst, hrest⟩ := List.map_eq_cons_iff.mp kinds
  obtain ⟨second, rest, rfl, hsecond, hrest⟩ := List.map_eq_cons_iff.mp hrest
  obtain ⟨third, rest, rfl, hthird, hrest⟩ := List.map_eq_cons_iff.mp hrest
  obtain rfl := List.map_eq_nil_iff.mp hrest
  cases first <;> cases hfirst
  cases second <;> cases hsecond
  cases third <;> cases hthird
  exact ⟨_, _, _, _, _, rfl⟩

theorem follows_all {syncList : List Sync} {info : Info} (all : boot.sync = .all syncList)
    (threefold : kinds boot.sync = [.dht, .gossip, .mq])
    (anchored : ∀ sync ∈ syncList, anchored boot.state.ip sync = true)
    (told : (Synced.all syncList).getInfo boot.state.ip = some info) (port : 2 ≤ syncPort)
    (joins : join state store syncPort info = some seat) : Follows boot syncPort seat := by
  rw [all] at threefold
  obtain ⟨bootPort, bootStore, bootSync, gossip, mq, rfl⟩ := syncsOf_all threefold
  obtain ⟨infos, hinfos, rfl⟩ := Option.map_eq_some_iff.mp told
  have hgossip := anchored (.gossip gossip) (by simp)
  have hmq := anchored (.mq mq) (by simp)
  cases hgossipSeed : gossip.peers.lookup boot.state.ip with
  | none => simp [Sync.getInfo, hgossipSeed] at hinfos
  | some gossipSeed =>
      cases hmqSeed : mq.peers.lookup boot.state.ip with
      | none => simp [Sync.getInfo, hgossipSeed, hmqSeed] at hinfos
      | some mqSeed =>
          have hlist : infos = [.dht boot.state.ip bootPort,
              .gossip boot.state.ip gossip.port gossipSeed, .mq mqSeed] := by
            simpa [Sync.getInfo, hgossipSeed, hmqSeed] using hinfos.symm
          subst hlist
          have hjoins : (joinMq state mqSeed syncPort).bind (fun syncMq =>
              some (Seat.mk ⟨state.enableAllSyncMode 3, .all [joinDht state store (syncPort - 1),
                .gossip (.new state (some gossipSeed) (syncPort + 1)), syncMq]⟩
                [some ⟨boot.state.ip, bootPort⟩, seedAddress gossipSeed, seedAddress mqSeed])) =
              some seat := joins
          obtain ⟨syncMq, hstarts, hseat⟩ := Option.bind_eq_some_iff.mp hjoins
          cases hseat
          have hgossipOwn : gossipSeed.virtualIp = boot.state.ip ∧
              gossipSeed.syncPort = .port gossip.port := by
            simpa [Main.anchored, hgossipSeed] using hgossip
          have hmqOwn : mqSeed.virtualIp = boot.state.ip ∧ mqSeed.syncPort = .port mq.port := by
            simpa [Main.anchored, hmqSeed] using hmq
          have hmodules : Seat.modules ⟨⟨state.enableAllSyncMode 3,
              .all [joinDht state store (syncPort - 1),
                .gossip (.new state (some gossipSeed) (syncPort + 1)), syncMq]⟩,
              [some ⟨boot.state.ip, bootPort⟩, seedAddress gossipSeed, seedAddress mqSeed]⟩ =
              [(.dht, syncPort - 1), (.gossip, syncPort + 1), (.mq, syncPort)] := by
            simp [Seat.modules, syncsOf, joinMq_started hstarts]
            rfl
          refine ⟨by rw [all]; rfl, ?_, by rw [all]; rfl, ?_, ?_, ?_⟩
          · rw [all, threefold]
            simp [kinds, syncsOf, joinMq_started hstarts]
            rfl
          · rw [Seat.sockets, hmodules]
            simp [binds]
            omega
          · rw [hmodules]
            simp
          · rw [hmodules, seedAddress_of_own hgossipOwn, seedAddress_of_own hmqOwn, all]
            simp [syncsOf, started]

/-- An address that a chain of seeds connects to the first node's module of the kind. -/
inductive Linked (seats : List Seat) (kind : Kind) : Address → Prop where
  | creator {seat : Seat} {port : Nat} (first : seats[0]? = some seat)
      (module : (kind, port) ∈ seat.modules) : Linked seats kind ⟨seat.node.state.ip, port⟩
  | seeded {index port : Nat} {seat : Seat} {seed : Address} (member : seats[index]? = some seat)
      (module : ((kind, port), some seed) ∈ seat.modules.zip seat.seeds)
      (linked : Linked seats kind seed) : Linked seats kind ⟨seat.node.state.ip, port⟩

def Extends (before after : List Seat) : Prop :=
  ∀ (index : Nat) (seat : Seat), before[index]? = some seat →
    ∃ later : Seat, after[index]? = some later ∧ Alike seat.node later.node ∧
      later.seeds = seat.seeds

variable {seats after : List Seat} {kind : Kind}

theorem Linked.mono {address : Address} (linked : Linked seats kind address)
    (grows : Extends seats after) : Linked after kind address := by
  induction linked with
  | creator first hmodule =>
      obtain ⟨later, hlater, halike, -⟩ := grows _ _ first
      rw [← halike.ip]
      refine .creator hlater ?_
      rw [Seat.modules, halike.modules]
      exact hmodule
  | seeded member hmodule _ ih =>
      obtain ⟨later, hlater, halike, hseeds⟩ := grows _ _ member
      rw [← halike.ip]
      refine .seeded hlater ?_ ih
      rw [hseeds, Seat.modules, halike.modules]
      exact hmodule

theorem Alike.refl (node : Node Synced) : Alike node node := ⟨rfl, rfl, rfl, rfl⟩

@[simp] theorem started_publishChange (state : State) (change : Change) (sync : Sync) :
    started (sync.publishChange state change) = started sync := by
  cases sync with
  | dht port store sync => rfl
  | gossip sync => rfl
  | mq sync => exact congrArg (Prod.mk Kind.mq) (Mq.subscribed_connects _ _ _).port

@[simp] theorem started_publishAll (state : State) (change : Change) (syncList : List Sync) :
    (publishAll state change syncList).map started = syncList.map started := by
  induction syncList with
  | nil => rfl
  | cons sync rest ih =>
      rw [publishAll, List.map_cons, List.map_cons, started_publishChange]
      split
      · rw [ih]
      · rfl

theorem alike_admitted (node : Node Synced) (joiner : Config) :
    Alike node (admitted node joiner) where
  ip := (joiner.addedTo_same node.state).ip
  mode := (joiner.addedTo_same node.state).allSyncMode
  all := by
    unfold admitted
    cases node.sync <;> rfl
  modules := by
    unfold admitted
    cases node.sync with
    | single sync => exact congrArg (fun module => [module]) (started_publishChange _ _ sync)
    | all syncList => exact started_publishAll _ _ syncList

/-- A join with ports to bind, through a node whose modules publish and whose own records
give its own ports. -/
def told (seats : List Seat) : Label → Bool
  | .join through joiner =>
    2 ≤ joiner.syncPort ∧ (seats[through]?).all fun boot =>
      boot.node.sync.publishes (joiner.addedTo boot.node.state) joiner.change &&
        (syncsOf boot.node.sync).all (anchored boot.node.state.ip)
  | .changes _ _ => true

structure Seat.Fits (founder : Node Synced) (seats : List Seat) (seat : Seat) : Prop where
  all : isAll seat.node.sync = isAll founder.sync
  kinds : kinds seat.node.sync = kinds founder.sync
  mode : seat.node.state.allSyncMode = if isAll founder.sync then 3 else 0
  sockets : seat.sockets.Nodup
  linked : ∀ entry ∈ seat.modules, Linked seats entry.1 ⟨seat.node.state.ip, entry.2⟩

variable {founder : Node Synced}

theorem Seat.Fits.alike (fits : seat.Fits founder seats) {node : Node Synced}
    (alike : Alike seat.node node) (grows : Extends seats after) :
    Seat.Fits founder after { seat with node } where
  all := alike.all.trans fits.all
  kinds := by
    have hkinds (sync : Synced) : Main.kinds sync = ((syncsOf sync).map started).map Prod.fst := by
      simp [Main.kinds]
    rw [hkinds, alike.modules, ← hkinds]
    exact fits.kinds
  mode := alike.mode.trans fits.mode
  sockets := by
    unfold Seat.sockets Seat.modules
    rw [alike.modules]
    exact fits.sockets
  linked := by
    intro entry hentry
    dsimp only
    rw [alike.ip]
    refine (fits.linked entry ?_).mono grows
    rw [Seat.modules, ← alike.modules]
    exact hentry

theorem extends_set {index : Nat} (member : seats[index]? = some seat) {node : Node Synced}
    (alike : Alike seat.node node) (more : List Seat) :
    Extends seats (seats.set index { seat with node } ++ more) := by
  intro other existing hexisting
  have hlength := (List.getElem?_eq_some_iff.mp hexisting).1
  rw [List.getElem?_append_left (by simpa using hlength), List.getElem?_set]
  by_cases hsame : index = other
  · subst hsame
    rw [member] at hexisting
    cases hexisting
    exact ⟨{ seat with node }, by simp [hlength], alike, rfl⟩
  · exact ⟨existing, by simp [hsame, hexisting], .refl _, rfl⟩

/-- The joiner's modules are linked to the creator's by those of its bootstrap node. -/
theorem fits_joiner {index : Nat} {boot : Seat} (member : after[index]? = some seat)
    (follows : Follows boot.node syncPort seat) (fits : boot.Fits founder after) :
    seat.Fits founder after where
  all := follows.all.trans fits.all
  kinds := follows.kinds.trans fits.kinds
  mode := follows.mode.trans (fits.all ▸ rfl)
  sockets := follows.sockets
  linked := by
    rintro ⟨kind, port⟩ hentry
    obtain ⟨bootPort, hseed, hmodule⟩ := follows.seeds _ hentry
    exact .seeded member hseed (fits.linked (kind, bootPort) hmodule)

def Fitting (founder : Node Synced) (seats : List Seat) : Prop :=
  ∀ (index : Nat) (seat : Seat), seats[index]? = some seat → seat.Fits founder seats

theorem follows_of_join {boot : Seat} {info : Info} (uniform : Uniform founder.sync)
    (fits : boot.Fits founder seats)
    (anchored : ∀ sync ∈ syncsOf boot.node.sync, anchored boot.node.state.ip sync = true)
    (told : boot.node.sync.getInfo boot.node.state.ip = some info) (fresh : state.allSyncMode = 0)
    (port : 2 ≤ syncPort) (joins : join state store syncPort info = some seat) :
    Follows boot.node syncPort seat := by
  cases hsync : boot.node.sync with
  | single sync =>
      rw [hsync] at told anchored
      exact follows_single hsync (anchored sync (List.mem_singleton.mpr rfl)) told fresh port joins
  | all syncList =>
      have hall : isAll founder.sync = true := by
        rw [← fits.all, hsync]
        rfl
      rw [hsync] at told anchored
      exact follows_all hsync (fits.kinds.trans (uniform hall)) anchored told port joins

theorem Fitting.set (fitting : Fitting founder seats) {changed : Nat}
    (member : seats[changed]? = some seat) {node : Node Synced} (alike : Alike seat.node node)
    (more : List Seat) {index : Nat} {later : Seat} (earlier : index < seats.length)
    (found : (seats.set changed { seat with node } ++ more)[index]? = some later) :
    later.Fits founder (seats.set changed { seat with node } ++ more) := by
  have hgrows := extends_set member alike more
  rw [List.getElem?_append_left (by simpa using earlier), List.getElem?_set] at found
  by_cases hsame : changed = index
  · rw [if_pos hsame, if_pos (hsame ▸ earlier)] at found
    cases found
    exact (fitting changed seat member).alike alike hgrows
  · rw [if_neg hsame] at found
    exact (fitting index later found).alike (.refl _) hgrows

theorem Fitting.next {label : Label} (fitting : Fitting founder seats)
    (uniform : Uniform founder.sync) (ok : told seats label = true)
    (step : Main.next seats label = some after) : Fitting founder after := by
  cases label with
  | changes changed node =>
      obtain ⟨boot, hboot, step⟩ := Option.bind_eq_some_iff.mp step
      split at step
      · rename_i halike
        cases step
        intro index seat hseat
        have hlength := (List.getElem?_eq_some_iff.mp hseat).1
        rw [← List.append_nil (seats.set changed { boot with node })] at hseat ⊢
        exact fitting.set hboot halike [] (by simpa using hlength) hseat
      · cases step
  | join through joiner =>
      obtain ⟨boot, hboot, step⟩ := Option.bind_eq_some_iff.mp step
      obtain ⟨info, hinfo, step⟩ := Option.bind_eq_some_iff.mp step
      split at step
      · obtain ⟨newcomer, hjoin, step⟩ := Option.bind_eq_some_iff.mp step
        cases step
        have halike := alike_admitted boot.node joiner
        have hfits := fitting through boot hboot
        simp only [told, hboot, Option.all_some, Bool.and_eq_true, List.all_eq_true,
          decide_eq_true_eq] at ok
        have hfresh : ((bootstrapOf boot.node).addedTo joiner.state).allSyncMode = 0 :=
          ((bootstrapOf boot.node).addedTo_same joiner.state).allSyncMode
        have hfollows := follows_of_join uniform hfits ok.2.2 hinfo hfresh ok.1 hjoin
        intro index seat hseat
        by_cases hearlier : index < seats.length
        · exact fitting.set hboot halike [newcomer] hearlier hseat
        · have hlast : index = seats.length := by
            have hlength := (List.getElem?_eq_some_iff.mp hseat).1
            simp only [List.length_append, List.length_set, List.length_singleton] at hlength
            omega
          have hnewcomer : seat = newcomer := by
            subst hlast
            simpa using hseat.symm
          subst hnewcomer
          exact fits_joiner hseat hfollows
            (hfits.alike (.refl _) (extends_set hboot halike [seat]))
      · cases step

theorem fitting_create {sync : String} {config : Config} (port : 1 ≤ config.syncPort)
    (creates : create sync config.state config.syncPort = some seat) :
    Fitting seat.node [seat] ∧ Uniform seat.node.sync := by
  have hfirst (mode : seat.node.state.allSyncMode = if isAll seat.node.sync then 3 else 0)
      (sockets : seat.sockets.Nodup) : Fitting seat.node [seat] := by
    intro index found hfound
    obtain ⟨hindex, rfl⟩ := List.getElem?_eq_some_iff.mp hfound
    simp only [List.length_singleton, Nat.lt_one_iff] at hindex
    subst hindex
    exact ⟨rfl, rfl, mode, sockets, fun entry hentry => .creator rfl hentry⟩
  unfold create at creates
  split at creates
  · cases creates
    refine ⟨hfirst rfl ?_, fun h => by cases h⟩
    simp [Seat.sockets, Seat.modules, syncsOf, createDht, started, binds]
    omega
  · split at creates
    · cases creates
      exact ⟨hfirst rfl (List.nodup_singleton _), fun h => by cases h⟩
    · split at creates
      · cases creates
        exact ⟨hfirst rfl (List.nodup_singleton _), fun h => by cases h⟩
      · split at creates
        · cases creates
          refine ⟨hfirst rfl ?_, fun _ => rfl⟩
          simp [Seat.sockets, Seat.modules, syncsOf, createDht, started, binds, SyncGossip.new,
            MessageQueueSync.new]
          omega
        · cases creates

theorem subscribed_admitted {node : Node Synced} {joiner : Config} (port : 0 < joiner.syncPort)
    (returns : node.sync.publishes (joiner.addedTo node.state) joiner.change = true)
    {sync : MessageQueueSync} (member : .mq sync ∈ syncsOf (admitted node joiner).sync) :
    ⟨joiner.ip, joiner.syncPort⟩ ∈ sync.sub := by
  have hpublished (earlier : Sync) (state : State)
      (publishes : Sync.mq sync = earlier.publishChange state joiner.change) :
      ⟨joiner.ip, joiner.syncPort⟩ ∈ sync.sub := by
    cases earlier with
    | dht => cases publishes
    | gossip => cases publishes
    | mq earlier =>
        cases publishes
        have hgiven : Mq.portGiven joiner.change = some joiner.syncPort := by
          simp [Mq.portGiven, Config.change, Option.filter, port]
        simp only [Mq.publishChange, hgiven, Mq.publishState, Mq.handOver,
          MessageQueueSync.subscribed]
        exact (Mq.mem_connected _ _ _).mpr (.inl rfl)
  unfold admitted at member
  cases hsync : node.sync with
  | single earlier =>
      rw [hsync] at member
      exact hpublished earlier _ (List.mem_singleton.mp member)
  | all syncList =>
      rw [hsync] at member returns
      have hmember : .mq sync ∈ publishAll (joiner.addedTo node.state) joiner.change syncList :=
        member
      rw [publishAll_returns returns] at hmember
      obtain ⟨earlier, -, hearlier⟩ := List.mem_map.mp hmember
      exact hpublished earlier _ hearlier.symm

/-- In every network that a `create` begins and joins through its nodes extend, each node
runs the creator's modules, at ports of their own and with the threshold that fits them;
seeds connect each module to the creator's of its kind; and whoever is admitted publishes
at the port its bootstrap node is then subscribed to. -/
theorem startup_wires_modules {sync : String} {config : Config} {seat : Seat}
    {seats : List Seat} (port : 1 ≤ config.syncPort)
    (creates : create sync config.state config.syncPort = some seat)
    (run : Run Main.next (fun seats label => told seats label = true) [seat] seats) :
    Fitting seat.node seats ∧
      ∀ through joiner after, told seats (.join through joiner) = true →
        Main.next seats (.join through joiner) = some after →
        ∃ boot joined, after[through]? = some boot ∧ after[seats.length]? = some joined ∧
          ∀ sync port, .mq sync ∈ syncsOf boot.node.sync → (.mq, port) ∈ joined.modules →
            ⟨joiner.ip, port⟩ ∈ sync.sub := by
  obtain ⟨hstart, huniform⟩ := fitting_create port creates
  have hfitting : Fitting seat.node seats := run.invariant (Fitting seat.node) hstart
    fun _ _ _ _ hbefore hok hstep => hbefore.next huniform hok hstep
  refine ⟨hfitting, ?_⟩
  intro through joiner after hok hstep
  obtain ⟨boot, hboot, hstep⟩ := Option.bind_eq_some_iff.mp hstep
  obtain ⟨info, hinfo, hstep⟩ := Option.bind_eq_some_iff.mp hstep
  split at hstep
  · obtain ⟨newcomer, hjoin, hstep⟩ := Option.bind_eq_some_iff.mp hstep
    cases hstep
    simp only [told, hboot, Option.all_some, Bool.and_eq_true, List.all_eq_true,
      decide_eq_true_eq] at hok
    have hfresh : ((bootstrapOf boot.node).addedTo joiner.state).allSyncMode = 0 :=
      ((bootstrapOf boot.node).addedTo_same joiner.state).allSyncMode
    have hfollows := follows_of_join huniform (hfitting through boot hboot) hok.2.2 hinfo hfresh
      hok.1 hjoin
    have hlength := (List.getElem?_eq_some_iff.mp hboot).1
    refine ⟨{ boot with node := admitted boot.node joiner }, newcomer, ?_, by simp, ?_⟩
    · rw [List.getElem?_append_left (by simpa using hlength), List.getElem?_set_self hlength]
    · intro sync port hsync hport
      rw [hfollows.publishes port hport]
      exact subscribed_admitted (by omega) hok.2.1 hsync
  · cases hstep

def firstConfig : Config := ⟨"10.0.0.1", "ka", "198.51.100.1", 51820, 6881⟩
def secondConfig : Config := ⟨"10.0.0.2", "kb", "198.51.100.2", 51820, 6881⟩
def thirdConfig : Config := ⟨"10.0.0.3", "kc", "198.51.100.3", 51820, 7000⟩

theorem startup_wires_modules_all :
    ∃ (founder : Seat) (seats : List Seat), seats.map Seat.modules =
      [[(.dht, 6881), (.gossip, 6882), (.mq, 6883)], [(.dht, 6880), (.gossip, 6882), (.mq, 6881)],
        [(.dht, 6999), (.gossip, 7001), (.mq, 7000)]] ∧ Fitting founder.node seats := by
  have hcreate : ((create "ALL" firstConfig.state firstConfig.syncPort).any fun founder =>
      (replay Main.next told [founder] [.join 0 secondConfig, .join 1 thirdConfig]).any
        fun seats => seats.map Seat.modules =
          [[(.dht, 6881), (.gossip, 6882), (.mq, 6883)],
            [(.dht, 6880), (.gossip, 6882), (.mq, 6881)],
            [(.dht, 6999), (.gossip, 7001), (.mq, 7000)]]) = true := by
    decide +kernel
  obtain ⟨founder, hfounder, hreplay⟩ := (Option.any_eq_true _ _).mp hcreate
  obtain ⟨seats, hrun, hmodules⟩ := reached_of_replay (fun _ _ h => h) hreplay
  exact ⟨founder, seats, of_decide_eq_true hmodules,
    (startup_wires_modules (by decide) hfounder hrun).1⟩

end WgBp.Main
