import WgBp.Model.Reconcile
import WgBp.Library.Resumption

/-! The `SyncDHT` module of one node. Its calls are programs over the operations
of the store, so that the same definition runs at once and step by step. -/
namespace WgBp.Dht

open WgBp.Library WgBp.Library.Procedure WgBp.Library.Resumption WgBp.Model

/-- The Kademlia store as a map. No virtual IP is one of the two reserved keys,
so these have fields of their own; `None` is what an absent key reads as. -/
structure Store where
  changeCheck : Option Int
  keyList : Option (List Ip)
  peers : Dict Ip (Option PeerRecord)
  deriving DecidableEq

/-- `passes` is a ghost: how many passes of `checkForChanges` have come to the
end, where they release the lock. -/
structure SyncDHT where
  currentChangeCheckValue : Int
  passes : Nat
  deriving DecidableEq

abbrev DhtNode := Node SyncDHT

structure Site where
  store : Store
  node : DhtNode
  deriving DecidableEq

/-- The gets and sets of the store, and what happens between them at the node. -/
inductive Op where
  | setPeer (key : Ip) (value : Option PeerRecord)
  | getPeer (key : Ip)
  | setKeyList (keys : Option (List Ip))
  | getKeyList
  | setChangeCheck (value : Int)
  | getChangeCheck
  | setCurrent (value : Int)
  | getCurrent
  | lockAquire
  | lockRelease
  | checkKey (key : Ip) (peerInfo : Option PeerRecord) (existingPeer : Option PeerInfo)

abbrev Op.Answer : Op → Type
  | .getPeer _ => Option PeerRecord
  | .getKeyList => Option (List Ip)
  | .getChangeCheck => Option Int
  | .getCurrent => Int
  | .checkKey _ _ _ => Option PeerInfo
  | _ => Unit

abbrev Program := Resumption Op Op.Answer Halt

@[reducible] def access (op : Op) : Program op.Answer := perform op

/-- One iteration of `checkForChanges` after the record was read. The variable
`existing_peer` outlives the iteration: it is unbound at first, and the path that
adds a new peer goes on to use the one of an earlier iteration. -/
def checkKey (key : Ip) (peerInfo : Option PeerRecord) (existingPeer : Option PeerInfo) :
    EStateM Halt State (Option PeerInfo) := do
  match peerInfo with
  | none =>
    if key ∈ (← get).peers then modify fun state => state.removePeer key
    pure existingPeer
  | some info =>
    match (← get).peers.lookup info.virtualIp with
    | some existing =>
      checkAllowedIPs info (some existing)
      -- the variable refers to the entry that has just been updated
      pure (some { existing with allowedIps := info.allowedIps })
    | none =>
      if info.virtualIp = (← get).ip then pure existingPeer
      else
        modify fun state => state.addPeer info.virtualIp info.publicKey info.endpointIp
          info.endpointPort
        checkAllowedIPs info ((← get).peers.lookup info.virtualIp)
        match existingPeer with
        | none => throw (.raised .unboundLocalError)
        | some earlier =>
          checkAllowedIPs info (some earlier)
          pure existingPeer

def onStore {α : Type} (body : EStateM Halt Store α) : EStateM Halt Site α :=
  onPart Site.store (fun store site => { site with store }) body

def onNode {α : Type} (body : EStateM Halt DhtNode α) : EStateM Halt Site α :=
  onPart Site.node (fun node site => { site with node }) body

def setCurrent (value : Int) : EStateM Halt DhtNode Unit :=
  modify fun node => { node with sync := { node.sync with currentChangeCheckValue := value } }

def release : EStateM Halt DhtNode Unit := do
  onState State.lockRelease
  modify fun node => { node with sync := { node.sync with passes := node.sync.passes + 1 } }

def handle : (op : Op) → EStateM Halt Site op.Answer
  | .setPeer key value => onStore (modify fun store => { store with
      peers := store.peers.set key value })
  | .getPeer key => onStore (return ((← get).peers.lookup key).join)
  | .setKeyList keys => onStore (modify fun store => { store with keyList := keys })
  | .getKeyList => onStore (return (← get).keyList)
  | .setChangeCheck value => onStore (modify fun store => { store with
      changeCheck := some value })
  | .getChangeCheck => onStore (return (← get).changeCheck)
  | .setCurrent value => onNode (setCurrent value)
  | .getCurrent => onNode (return (← get).sync.currentChangeCheckValue)
  | .lockAquire => onNode (onState State.lockAquire)
  | .lockRelease => onNode release
  | .checkKey key peerInfo existingPeer => onNode (onState (checkKey key peerInfo existingPeer))

def publishedRecord (change : Change) : PeerRecord where
  virtualIp := change.virtualIp
  publicKey := change.publicKey
  endpointIp := change.endpointIp
  endpointPort := change.endpointPort
  syncPort := .missing
  allowedIps := change.allowedOrDefault

def ownRecord (state : State) : PeerRecord where
  virtualIp := state.ip
  publicKey := state.publicKey
  endpointIp := state.publicIp
  endpointPort := state.publicPort
  syncPort := .missing
  allowedIps := state.allowedIps

def announce (state : State) : Program Unit :=
  access (.setPeer state.ip (some (ownRecord state)))

def createStore (state : State) : Program Unit := do
  access (.setChangeCheck 0)
  access (.setKeyList (some [state.ip]))
  announce state

/-- The list `publishChange` stores; `None` has no members to test. -/
def withKey (virtualIp : Ip) : Option (List Ip) → Program (List Ip)
  | none => .raise (.raised .typeError)
  | some keys => pure (if virtualIp ∈ keys then keys else keys ++ [virtualIp])

def plusOne : Option Int → Program Int
  | none => .raise (.raised .typeError)
  | some old => pure (old + 1)

def publishChange (change : Change) : Program Unit := do
  access (.setPeer change.virtualIp (some (publishedRecord change)))
  let keys ← withKey change.virtualIp (← access .getKeyList)
  access (.setKeyList (some keys))
  access (.setChangeCheck (← plusOne (← access .getChangeCheck)))
  access (.setCurrent ((← access .getCurrent) + 1))

def iterate : Option (List Ip) → Program (List Ip)
  | none => .raise (.raised .typeError)
  | some keys => pure keys

def checkEntry (existingPeer : Option PeerInfo) (key : Ip) : Program (Option PeerInfo) := do
  access (.checkKey key (← access (.getPeer key)) existingPeer)

def checkForChanges : Program Unit := do
  access .lockAquire
  let keyList ← access .getKeyList
  access (.setKeyList keyList)
  let keys ← iterate keyList
  let _ ← keys.foldlM checkEntry none
  access .lockRelease

/-- `depth` stands for what is left of the interpreter's recursion limit. -/
def checkForChangeTrigger : Nat → Program Unit
  | 0 => .raise (.raised .recursionError)
  | depth + 1 => do
    let currentValue ← access .getChangeCheck
    let current ← access .getCurrent
    if currentValue = some current then pure ()
    else match currentValue with
      | none => .raise (.raised .typeError)
      | some value =>
        if value < current then
          access (.setCurrent (-1))
          checkForChangeTrigger depth
        else
          checkForChanges
          access (.setCurrent value)

def exitSync (virtualIp : Ip) : Program Unit := do
  access (.setPeer virtualIp none)
  let old := (← access .getChangeCheck).getD (-2)
  access (.setChangeCheck (old + 1))

theorem run_checkForChanges_held (store : Store) {state : State} (sync : SyncDHT)
    (held : state.locked = true) :
    (checkForChanges.run handle).run ⟨store, ⟨state, sync⟩⟩ =
      .error .blocked ⟨store, ⟨state, sync⟩⟩ := by
  have hblocked : (handle .lockAquire).run ⟨store, ⟨state, sync⟩⟩ =
      .error .blocked ⟨store, ⟨state, sync⟩⟩ := by
    simp only [handle, onNode, onState, run_onPart, State.run_lockAquire_held held]
  unfold checkForChanges
  rw [perform_bind, Resumption.run, EStateM.run_bind, hblocked]

private theorem run_lockAquire_free (store : Store) {state : State} (sync : SyncDHT)
    (free : state.locked = false) :
    (handle .lockAquire).run ⟨store, ⟨state, sync⟩⟩ =
      .ok () ⟨store, ⟨{ state with locked := true }, sync⟩⟩ := by
  simp only [handle, onNode, onState, run_onPart, State.run_lockAquire free]

theorem run_checkForChanges_free {store : Store} {keys : List Ip}
    (listed : store.keyList = some keys) {state : State} (sync : SyncDHT)
    (free : state.locked = false) :
    (checkForChanges.run handle).run ⟨store, ⟨state, sync⟩⟩ =
      ((keys.foldlM checkEntry none >>= fun _ => access .lockRelease).run handle).run
        ⟨store, ⟨{ state with locked := true }, sync⟩⟩ := by
  obtain ⟨changeCheck, keyList, peers⟩ := store
  cases listed
  unfold checkForChanges
  rw [perform_bind, Resumption.run, EStateM.run_bind, run_lockAquire_free _ _ free]
  rfl

theorem run_checkForChanges_unset {store : Store} (unset : store.keyList = none) {state : State}
    (sync : SyncDHT) (free : state.locked = false) :
    (checkForChanges.run handle).run ⟨store, ⟨state, sync⟩⟩ =
      .error (.raised .typeError) ⟨store, ⟨{ state with locked := true }, sync⟩⟩ := by
  obtain ⟨changeCheck, keyList, peers⟩ := store
  cases unset
  unfold checkForChanges
  rw [perform_bind, Resumption.run, EStateM.run_bind, run_lockAquire_free _ _ free]
  rfl

end WgBp.Dht
